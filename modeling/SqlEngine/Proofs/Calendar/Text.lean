import SqlEngine.Calendar.Instant
import SqlEngine.Proofs.Calendar.Date
import SqlEngine.Proofs.Number.Digits

/-! The order of the texts of instants. Behind the year a text has numbers of fixed widths, and they
come in the order of the instants. -/

namespace SqlEngine.Calendar

open Decimal

theorem toList_padded (width n : Nat) : (padded width n).toList =
    List.replicate (width - (Nat.toDigits 10 n).length) '0' ++ Nat.toDigits 10 n := by
  rw [padded, String.toList_ofList]

theorem isDigit_padded (width n : Nat) : ∀ c ∈ (padded width n).toList, c.isDigit = true := by
  rw [toList_padded, List.forall_mem_append]
  refine ⟨fun c zero => ?_, fun c => isDigit_of_mem_toDigits⟩
  rw [List.eq_of_mem_replicate zero]
  rfl

theorem naturalOf_padded (width n : Nat) : naturalOf (padded width n).toList = n := by
  rw [toList_padded, naturalOf_append, naturalOf_zeros, naturalOf_toDigits, Nat.zero_mul,
    Nat.zero_add]

theorem padded_ne_nil (width n : Nat) : (padded width n).toList ≠ [] := by
  rw [toList_padded]
  exact List.append_ne_nil_of_right_ne_nil _ Nat.toDigits_ne_nil

theorem length_padded {width n : Nat} (some : 0 < width) (fits : n < 10 ^ width) :
    (padded width n).toList.length = width := by
  have few : (Nat.toDigits 10 n).length ≤ width :=
    (Nat.length_toDigits_le_iff (by decide) some).mpr fits
  rw [toList_padded, List.length_append, List.length_replicate, Nat.sub_add_cancel few]

theorem padded_lt {width m n : Nat} (some : 0 < width) (fits : n < 10 ^ width) (less : m < n) :
    (padded width m).toList < (padded width n).toList := by
  refine lt_of_naturalOf_lt ?_ (isDigit_padded _ _) (isDigit_padded _ _) ?_
  · rw [length_padded some (less.trans fits), length_padded some fits]
  · rwa [naturalOf_padded, naturalOf_padded]

structure Field where
  width : Nat
  sign : Char
  width_pos : 0 < width

def written : List Field → List Nat → List Char
  | f :: fs, n :: ns => (padded f.width n).toList ++ f.sign :: written fs ns
  | _, _ => []

def Fits (fs : List Field) (ns : List Nat) : Prop :=
  List.Forall₂ (fun f n => n < 10 ^ f.width) fs ns

theorem written_lt {fs : List Field} {ms ns : List Nat} (hm : Fits fs ms) (hn : Fits fs ns)
    (less : ms < ns) : written fs ms < written fs ns := by
  change List.Lex (· < ·) ms ns at less
  induction less generalizing fs with
  | nil =>
    cases hm
    cases hn
  | rel first =>
    obtain _ | @⟨f, m, fs, ms, fm⟩ := hm
    obtain _ | @⟨f, n, fs, ns, fn⟩ := hn
    exact Lists.lex_append (padded_lt f.width_pos fn first)
      (by rw [length_padded f.width_pos fm, length_padded f.width_pos fn]) _ _
  | cons _ ih =>
    obtain _ | @⟨f, m, fs, ms, fm, hm⟩ := hm
    obtain _ | @⟨f, n, fs, ns, fn, hn⟩ := hn
    exact List.Lex.append_left _ (.cons (ih hm hn)) _

theorem written_injective {fs : List Field} {ms ns : List Nat} (hm : Fits fs ms) (hn : Fits fs ns)
    (same : written fs ms = written fs ns) : ms = ns := by
  rcases lt_trichotomy ms ns with before | eq | after
  · exact absurd same (written_lt hm hn before).ne
  · exact eq
  · exact absurd same (written_lt hn hm after).ne'

/-- A year of four digits. -/
def IsPlain (year : Int) : Prop := 0 ≤ year ∧ year ≤ 9999

instance (year : Int) : Decidable (IsPlain year) := inferInstanceAs (Decidable (_ ∧ _))

def yearSign (year : Int) : List Char :=
  if IsPlain year then [] else if year < 0 then ['-'] else ['+']

theorem toList_yearText (year : Int) :
    (yearText year).toList = yearSign year ++ (padded 4 year.natAbs).toList := by
  unfold yearSign
  by_cases plain : IsPlain year
  · have size : year.toNat = year.natAbs := by
      have := plain.1
      omega
    have text : yearText year = padded 4 year.toNat := if_pos plain
    rw [text, if_pos plain, size, List.nil_append]
  · have text : yearText year = (if year < 0 then "-" else "+") ++ padded 4 year.natAbs :=
      if_neg plain
    rw [text, if_neg plain, String.toList_append]
    split <;> rfl

theorem splitSign_yearText (year : Int) (rest : List Char) :
    splitSign ((yearText year).toList ++ rest) =
      (decide (year < 0), (padded 4 year.natAbs).toList ++ rest) := by
  rw [toList_yearText, yearSign, List.append_assoc]
  split
  · next plain =>
    have positive : ¬year < 0 := plain.1.not_gt
    obtain ⟨c, cs, split⟩ := List.exists_cons_of_ne_nil (padded_ne_nil 4 year.natAbs)
    have digit : c.isDigit = true := isDigit_padded _ _ c (split ▸ List.mem_cons_self)
    rw [split, List.nil_append, List.cons_append, splitSign_of_isDigit digit,
      decide_eq_false positive]
  · generalize (padded 4 year.natAbs).toList = digits
    split
    · next negative =>
      rw [decide_eq_true negative]
      rfl
    · next positive =>
      rw [decide_eq_false positive]
      rfl

theorem takeWhile_padded {width n : Nat} {c : Char} (sign : c.isDigit = false) (rest : List Char) :
    ((padded width n).toList ++ c :: rest).takeWhile Char.isDigit = (padded width n).toList ∧
      ((padded width n).toList ++ c :: rest).dropWhile Char.isDigit = c :: rest := by
  rw [List.takeWhile_append_of_pos (isDigit_padded _ _),
    List.dropWhile_append_of_pos (isDigit_padded _ _)]
  simp [sign]

theorem yearText_injective {year year' : Int} {rest rest' : List Char}
    (same : (yearText year).toList ++ '-' :: rest = (yearText year').toList ++ '-' :: rest') :
    year = year' ∧ rest = rest' := by
  have signs := congrArg splitSign same
  rw [splitSign_yearText, splitSign_yearText, Prod.mk.injEq, decide_eq_decide] at signs
  obtain ⟨sign, body⟩ := signs
  have digits := congrArg (List.takeWhile Char.isDigit) body
  have behind := congrArg (List.dropWhile Char.isDigit) body
  simp only [takeWhile_padded (c := '-') rfl] at digits behind
  have size := congrArg naturalOf digits
  rw [naturalOf_padded, naturalOf_padded] at size
  exact ⟨by omega, (List.cons.inj behind).2⟩

namespace Instant

/-- Only the last second of a minute can be a leap second. -/
structure Valid (i : Instant) : Prop where
  second_lt : i.second < secondsPerDay
  nanosecond_lt : i.nanosecond < leap ∨ i.nanosecond < 2 * leap ∧ i.second % 60 = 59

/-- The instant without what is less than a millisecond. -/
def toMillisecond (i : Instant) : Instant :=
  { i with nanosecond := i.nanosecond / 1000000 * 1000000 }

/-- Earlier instants come first. A leap second comes behind the second that it is added to. -/
def order (i j : Instant) : Ordering :=
  (compare i.day j.day).then
    ((compare i.second j.second).then (compare i.nanosecond j.nanosecond))

def date (i : Instant) : Date := .ofDays i.day

def numbers (i : Instant) : List Nat :=
  [i.date.month, i.date.day, i.second / 3600, i.second / 60 % 60,
    i.second % 60 + (if leap ≤ i.nanosecond then 1 else 0),
    (if leap ≤ i.nanosecond then i.nanosecond - leap else i.nanosecond) / 1000000]

def fields : List Field :=
  [⟨2, '-', by decide⟩, ⟨2, 'T', by decide⟩, ⟨2, ':', by decide⟩, ⟨2, ':', by decide⟩,
    ⟨2, '.', by decide⟩, ⟨3, 'Z', by decide⟩]

theorem toList_text (i : Instant) : i.text.toList =
    (yearText i.date.year).toList ++ '-' :: written fields i.numbers := by
  simp [text, fields, numbers, written, date]

theorem order_eq_lt {i j : Instant} : i.order j = .lt ↔ i.day < j.day ∨ i.day = j.day ∧
    (i.second < j.second ∨ i.second = j.second ∧ i.nanosecond < j.nanosecond) := by
  simp only [order, Ordering.then_eq_lt, compare_lt_iff_lt, compare_eq_iff_eq]

theorem order_eq_eq {i j : Instant} : i.order j = .eq ↔ i = j := by
  cases i
  cases j
  simp [order, Ordering.then_eq_eq]

theorem Valid.fits {i : Instant} (h : i.Valid) : Fits fields i.numbers := by
  obtain ⟨second, nanosecond⟩ := h
  have inMonth : i.date.InMonth := Date.inMonth_ofDays i.day
  have month := inMonth.month_le
  have day := inMonth.day_le
  have days : daysInMonth i.date.year i.date.month ≤ 31 := by
    unfold daysInMonth
    split <;> split <;> decide
  simp only [secondsPerDay, leap] at second nanosecond
  simp only [Fits, fields, numbers, leap, List.forall₂_cons, List.forall₂_nil_right_iff, and_true]
  clear inMonth
  by_cases isLeap : 1000000000 ≤ i.nanosecond
  · simp only [isLeap, if_true]
    omega
  · simp only [isLeap, if_false]
    omega

theorem numbers_lt {i j : Instant} (hi : i.Valid) (hj : j.Valid)
    (before : i.toMillisecond.order j.toMillisecond = .lt) :
    i.date.year < j.date.year ∨ i.date.year = j.date.year ∧ i.numbers < j.numbers := by
  simp only [order_eq_lt, toMillisecond] at before
  rcases before with day | ⟨day, time⟩
  · have days : i.date.toDays < j.date.toDays := by
      rwa [date, date, Date.toDays_ofDays, Date.toDays_ofDays]
    have dates := Date.lt_of_toDays_lt (Date.inMonth_ofDays i.day) (Date.inMonth_ofDays j.day) days
    simp only [numbers, date, List.cons_lt_cons_iff]
    omega
  · refine .inr ?_
    have same : i.date = j.date := congrArg Date.ofDays day
    rw [same]
    refine ⟨rfl, ?_⟩
    obtain ⟨-, i_nano⟩ := hi
    obtain ⟨-, j_nano⟩ := hj
    simp only [numbers, same, List.cons_lt_cons_iff, lt_irrefl, true_and, false_or, leap] at *
    clear same day
    by_cases i_leap : 1000000000 ≤ i.nanosecond <;> by_cases j_leap : 1000000000 ≤ j.nanosecond <;>
      simp only [i_leap, j_leap, if_true, if_false] <;> omega

theorem order_eq_gt {i j : Instant} : i.order j = .gt ↔ j.order i = .lt := by
  rw [order_eq_lt, order, Ordering.then_eq_gt, Ordering.then_eq_gt, compare_gt_iff_gt,
    compare_gt_iff_gt, compare_gt_iff_gt, compare_eq_iff_eq, compare_eq_iff_eq,
    eq_comm (a := i.day), eq_comm (a := i.second)]

theorem toMillisecond_toMillisecond (i : Instant) :
    i.toMillisecond.toMillisecond = i.toMillisecond := by
  simp [toMillisecond]

theorem text_toMillisecond (i : Instant) : i.toMillisecond.text = i.text := by
  have isLeap : leap ≤ i.nanosecond / 1000000 * 1000000 ↔ leap ≤ i.nanosecond := by
    unfold leap
    omega
  have millisecond : (if leap ≤ i.nanosecond then i.nanosecond / 1000000 * 1000000 - leap
      else i.nanosecond / 1000000 * 1000000) / 1000000 =
      (if leap ≤ i.nanosecond then i.nanosecond - leap else i.nanosecond) / 1000000 := by
    unfold leap
    split <;> omega
  have same : i.toMillisecond.numbers = i.numbers := by
    simp only [numbers, date, toMillisecond, isLeap, millisecond]
  have year : i.toMillisecond.date = i.date := rfl
  rw [← String.toList_inj, toList_text, toList_text, same, year]

variable {i j : Instant} (hi : i.Valid) (hj : j.Valid)
include hi hj

theorem text_eq_text : i.text = j.text ↔ i.toMillisecond = j.toMillisecond := by
  constructor
  · intro same
    rw [← String.toList_inj, toList_text, toList_text] at same
    obtain ⟨years, behind⟩ := yearText_injective same
    have numbers := written_injective hi.fits hj.fits behind
    -- Neither of the two is earlier, as the year or a number of it would be less.
    rw [← order_eq_eq]
    cases order : i.toMillisecond.order j.toMillisecond with
    | eq => rfl
    | lt =>
      rcases numbers_lt hi hj order with less | ⟨-, less⟩
      · exact absurd years less.ne
      · exact absurd numbers less.ne
    | gt =>
      rcases numbers_lt hj hi (order_eq_gt.mp order) with less | ⟨-, less⟩
      · exact absurd years less.ne'
      · exact absurd numbers less.ne'
  · intro same
    rw [← text_toMillisecond i, same, text_toMillisecond]

theorem text_lt_text (hp : IsPlain i.date.year) (hq : IsPlain j.date.year)
    (before : i.toMillisecond.order j.toMillisecond = .lt) : i.text < j.text := by
  have whole {k : Instant} (plain : IsPlain k.date.year) : k.text.toList =
      written (⟨4, '-', by decide⟩ :: fields) (k.date.year.natAbs :: k.numbers) := by
    rw [toList_text, toList_yearText, yearSign, if_pos plain, List.nil_append]
    rfl
  obtain ⟨i_low, i_high⟩ := hp
  obtain ⟨j_low, j_high⟩ := hq
  rw [String.lt_iff_toList_lt, whole ⟨i_low, i_high⟩, whole ⟨j_low, j_high⟩]
  refine written_lt (.cons ?_ hi.fits) (.cons ?_ hj.fits) (List.cons_lt_cons_iff.mpr ?_)
  · simp only
    omega
  · simp only
    omega
  · rcases numbers_lt hi hj before with less | ⟨same, less⟩
    · exact .inl (by omega)
    · exact .inr ⟨congrArg _ same, less⟩

/-- The texts of years of four digits come in the order of the instants. -/
theorem compare_text (hp : IsPlain i.date.year) (hq : IsPlain j.date.year) :
    compare i.text j.text = i.toMillisecond.order j.toMillisecond := by
  cases order : i.toMillisecond.order j.toMillisecond with
  | lt => exact compare_lt_iff_lt.mpr (text_lt_text hi hj hp hq order)
  | eq => exact compare_eq_iff_eq.mpr ((text_eq_text hi hj).mpr (order_eq_eq.mp order))
  | gt => exact compare_gt_iff_gt.mpr (text_lt_text hj hi hq hp (order_eq_gt.mp order))

end Instant

end SqlEngine.Calendar
