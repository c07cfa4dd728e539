import SqlEngine.Calendar.Spelling
import SqlEngine.Proofs.Calendar.Text
import SqlEngine.Proofs.Text.Blank

/-! The grammar of the spellings of instants. A part of it tells how a text begins, what this stands
for and what comes behind it. Whatever is read is a spelling, and stands for what it is read as, to
the millisecond. -/

namespace SqlEngine.Calendar

open Decimal

def Digits (least most : Nat) (cs : List Char) (n : Nat) (rest : List Char) : Prop :=
  ∃ ds, cs = ds ++ rest ∧ (∀ c ∈ ds, c.isDigit = true) ∧ least ≤ ds.length ∧ ds.length ≤ most ∧
    (ds.length = most ∨ ∀ c ∈ rest.head?, c.isDigit = false) ∧ naturalOf ds = n

def Number (most : Nat) (cs : List Char) (n : Nat) (rest : List Char) : Prop :=
  ∃ blanks after, cs = blanks ++ after ∧ (∀ c ∈ blanks, Text.isBlank c = true) ∧
    Digits 1 most after n rest

inductive Fraction : List Char → Nat → List Char → Prop
  | none {cs : List Char} (noPoint : cs.head? ≠ some '.') : Fraction cs 0 cs
  | places {ds rest : List Char} (some : ds ≠ []) (digits : ∀ c ∈ ds, c.isDigit = true)
      (all : ∀ c ∈ rest.head?, c.isDigit = false) :
      Fraction ('.' :: (ds ++ rest)) (naturalOf ds * 1000 / 10 ^ ds.length) rest

inductive Offset : List Char → Int → List Char → Prop
  | universal {c : Char} {rest : List Char} (sign : c = 'Z' ∨ c = 'z') : Offset (c :: rest) 0 rest
  | ahead {cs cs' rest : List Char} {hours minutes : Nat} (h : Digits 2 2 cs hours (':' :: cs'))
      (m : Digits 2 2 cs' minutes rest) (fits : hours < 24 ∧ minutes < 60) :
      Offset ('+' :: cs) ((hours * 60 + minutes) * 60) rest
  | behind {c : Char} {cs cs' rest : List Char} {hours minutes : Nat}
      (sign : c = '-' ∨ c = '\u2212') (h : Digits 2 2 cs hours (':' :: cs'))
      (m : Digits 2 2 cs' minutes rest) (fits : hours < 24 ∧ minutes < 60) :
      Offset (c :: cs) (-((hours * 60 + minutes) * 60)) rest

theorem takeWhile_eq_nil {p : Char → Bool} {cs : List Char} (h : ∀ c ∈ cs.head?, p c = false) :
    cs.takeWhile p = [] ∧ cs.dropWhile p = cs := by
  cases cs with
  | nil => exact ⟨rfl, rfl⟩
  | cons c cs =>
    have stop : p c = false := h c rfl
    simp [stop]

theorem not_of_head_dropWhile {p : Char → Bool} {cs rest : List Char} (h : cs.dropWhile p = rest) :
    ∀ c ∈ rest.head?, p c = false := by
  intro c hc
  have stop := List.head?_dropWhile_not p cs
  rw [h, Option.mem_def.mp hc] at stop
  exact stop

theorem digits?_eq_some {least most : Nat} {cs rest : List Char} {n : Nat} :
    digits? least most cs = some (n, rest) ↔ Digits least most cs n rest := by
  constructor
  · intro h
    unfold digits? at h
    dsimp only at h
    split at h
    · cases h
    · next enough =>
      cases h
      generalize read : (cs.take most).takeWhile Char.isDigit = ds at enough ⊢
      have begins : ds <+: cs.take most := by
        rw [← read]
        exact List.takeWhile_prefix _
      have few : ds.length ≤ most := begins.length_le.trans (List.length_take_le _ _)
      have whole := List.prefix_iff_eq_append.mp (begins.trans <| List.take_prefix _ _)
      refine ⟨ds, whole.symm, ?_, not_lt.mp enough, few, ?_, rfl⟩
      · rw [← read]
        exact fun c => List.mem_takeWhile_imp
      · refine (Nat.eq_or_lt_of_le few).imp_right fun more c hc => ?_
        -- What comes behind the digits is where the reading of digits stopped.
        have split := List.takeWhile_append_dropWhile (p := Char.isDigit) (l := cs.take most)
        have cut : cs.take most = ds ++ (cs.drop ds.length).take (most - ds.length) := by
          conv_lhs => rw [← whole, List.take_append, List.take_of_length_le few]
        rw [read] at split
        refine not_of_head_dropWhile (List.append_cancel_left (split.trans cut)) c ?_
        rwa [List.head?_take, if_neg (by omega)]
  · rintro ⟨ds, rfl, digits, enough, few, all, rfl⟩
    have read : ((ds ++ rest).take most).takeWhile Char.isDigit = ds := by
      rw [List.take_append, List.take_of_length_le few, List.takeWhile_append_of_pos digits]
      rcases all with full | stop
      · rw [full, Nat.sub_self, List.take_zero, List.takeWhile_nil, List.append_nil]
      · rw [(takeWhile_eq_nil _).1, List.append_nil]
        intro c hc
        rw [List.head?_take] at hc
        split at hc
        · cases hc
        · exact stop c hc
    unfold digits?
    rw [read, if_neg (Nat.not_lt.mpr enough), List.drop_left]

theorem sign?_eq_some {c : Char} {cs rest : List Char} :
    sign? c cs = some rest ↔ cs = c :: rest := by
  cases cs with
  | nil => simp [sign?]
  | cons d cs => simp [sign?]

theorem number?_eq_some {most : Nat} {cs rest : List Char} {n : Nat} :
    number? most cs = some (n, rest) ↔ Number most cs n rest := by
  rw [number?, digits?_eq_some, Text.trimStart]
  constructor
  · intro digits
    exact ⟨_, _, (List.takeWhile_append_dropWhile (p := Text.isBlank)).symm,
      fun c => List.mem_takeWhile_imp, digits⟩
  · rintro ⟨blanks, after, rfl, blank, digits⟩
    obtain ⟨ds, split, all, one, -⟩ := id digits
    have begins : ∀ c ∈ after.head?, Text.isBlank c = false := by
      obtain ⟨d, ds, rfl⟩ := List.exists_cons_of_length_pos one
      rintro c hc
      rw [split, List.cons_append, List.head?_cons, Option.mem_some_iff] at hc
      subst hc
      exact Text.isBlank_of_isDigit (all _ List.mem_cons_self)
    rw [List.dropWhile_append_of_pos blank, (takeWhile_eq_nil begins).2]
    exact digits

theorem millisecond_eq {ds more : List Char} (few : ds.length ≤ 9)
    (all : ds.length = 9 ∨ more = []) (digits : ∀ c ∈ more, c.isDigit = true) :
    naturalOf ds * 10 ^ (9 - ds.length) / 1000000 =
      naturalOf (ds ++ more) * 1000 / 10 ^ (ds ++ more).length := by
  rcases all with full | rfl
  · have behind := naturalOf_lt digits
    have power : 10 ^ (9 + more.length) = 10 ^ more.length * 1000000 * 1000 := by ring
    rw [naturalOf_append, List.length_append, full, power, Nat.mul_div_mul_right _ _ (by decide),
      ← Nat.div_div_eq_div_mul, Nat.mul_comm (naturalOf ds) (10 ^ more.length),
      Nat.mul_add_div (by positivity), Nat.div_eq_of_lt behind, Nat.sub_self, pow_zero, Nat.mul_one,
      Nat.add_zero]
  · have power : 10 ^ ds.length * 10 ^ (9 - ds.length) = 1000000 * 1000 := by
      rw [← pow_add, Nat.add_sub_cancel' few]
      rfl
    rw [List.append_nil, ← Nat.mul_div_mul_right (naturalOf ds * 1000) _
      (show 0 < 10 ^ (9 - ds.length) by positivity), power, Nat.mul_right_comm,
      Nat.mul_div_mul_right _ _ (by decide)]

theorem fraction_of_read {cs rest : List Char} {n : Nat} (h : fraction? cs = some (n, rest)) :
    n < leap ∧ Fraction ('.' :: cs) (n / 1000000) rest := by
  obtain ⟨⟨m, after⟩, digits, made⟩ := Option.bind_eq_some_iff.mp h
  obtain ⟨ds, rfl, all, one, few, most, rfl⟩ := digits?_eq_some.mp digits
  obtain ⟨value, behind⟩ := Prod.mk.inj (Option.some.inj made)
  rw [List.length_append, Nat.add_sub_cancel, Nat.pow_eq] at value
  -- Digits from the tenth on are passed over.
  have split := List.takeWhile_append_dropWhile (p := Char.isDigit) (l := after)
  have digits : ∀ c ∈ after.takeWhile Char.isDigit, c.isDigit = true :=
    fun c => List.mem_takeWhile_imp
  have more : ds.length = 9 ∨ after.takeWhile Char.isDigit = [] :=
    most.imp_right fun stop => (takeWhile_eq_nil stop).1
  rw [behind] at split
  constructor
  · calc n = naturalOf ds * 10 ^ (9 - ds.length) := value.symm
      _ < 10 ^ ds.length * 10 ^ (9 - ds.length) :=
        Nat.mul_lt_mul_of_pos_right (naturalOf_lt all) (by positivity)
      _ = leap := by rw [← pow_add, Nat.add_sub_cancel' few]; rfl
  · have places : Fraction ('.' :: ((ds ++ after.takeWhile Char.isDigit) ++ rest)) _ rest :=
      .places (by simp [List.ne_nil_of_length_pos one]) (List.forall_mem_append.mpr ⟨all, digits⟩)
        (not_of_head_dropWhile behind)
    rwa [List.append_assoc, split, ← millisecond_eq few more digits, value] at places

theorem fraction_of_optional {cs rest : List Char} {n : Nat}
    (h : optionalFraction? cs = some (n, rest)) :
    n < leap ∧ Fraction cs (n / 1000000) rest := by
  unfold optionalFraction? at h
  split at h
  · exact fraction_of_read h
  · next noPoint =>
    cases h
    refine ⟨by decide, .none fun point => ?_⟩
    obtain ⟨rest, rfl⟩ := List.head?_eq_some_iff.mp point
    exact noPoint _ rfl

theorem offset_of_read {cs rest : List Char} {offset : Int}
    (h : offset? cs = some (offset, rest)) : Offset cs offset rest := by
  rcases cs with _ | ⟨c, cs⟩
  · cases h
  · by_cases universal : c = 'Z' ∨ c = 'z'
    · rw [offset?, if_pos universal] at h
      cases h
      exact .universal universal
    · obtain ⟨negative, sign, h⟩ : ∃ negative : Bool,
          (c = '+' ∧ negative = false ∨ (c = '-' ∨ c = '\u2212') ∧ negative = true) ∧
          ((digits? 2 2 cs).bind fun ahead => (sign? ':' ahead.2).bind fun rest =>
            (digits? 2 2 rest).bind fun behind =>
              if 24 ≤ ahead.1 || 60 ≤ behind.1 then none
              else
                let seconds : Int := ((ahead.1 * 60 + behind.1) * 60 : Nat)
                some (if negative then -seconds else seconds, behind.2)) = some (offset, rest) := by
        rw [offset?, if_neg universal] at h
        dsimp only at h
        split at h
        · next plus => exact ⟨false, .inl ⟨plus, rfl⟩, h⟩
        · split at h
          · next minus => exact ⟨true, .inr ⟨minus, rfl⟩, h⟩
          · cases h
      obtain ⟨⟨hours, _⟩, hh, behind⟩ := Option.bind_eq_some_iff.mp h
      obtain ⟨_, colon, behind⟩ := Option.bind_eq_some_iff.mp behind
      obtain ⟨⟨minutes, _⟩, hm, made⟩ := Option.bind_eq_some_iff.mp behind
      rw [sign?_eq_some] at colon
      subst colon
      rw [digits?_eq_some] at hh hm
      dsimp only at made
      split at made
      · cases made
      · next inside =>
        have fits : hours < 24 ∧ minutes < 60 := by simpa using inside
        cases made
        rcases sign with ⟨rfl, rfl⟩ | ⟨minus, rfl⟩
        · simpa using Offset.ahead hh hm fits
        · simpa using Offset.behind minus hh hm fits

def Instant.ofSeconds (seconds : Int) (millisecond : Nat) : Instant :=
  ⟨seconds / secondsPerDay, (seconds % secondsPerDay).toNat, millisecond * 1000000⟩

structure LocalTime where
  date : Date
  hour : Nat
  minute : Nat
  second : Nat
  millisecond : Nat

namespace LocalTime

/-- Every minute may have a sixtieth second, which is a leap second. -/
structure Exists (t : LocalTime) : Prop where
  date : t.date.isValid = true
  hour : t.hour < 24
  minute : t.minute < 60
  second : t.second ≤ 60
  millisecond : t.millisecond < 1000

def instant (t : LocalTime) (offset : Int) : Instant :=
  .ofSeconds
    (t.date.toDays * secondsPerDay + (t.hour * 3600 + t.minute * 60 + min t.second 59) - offset)
    (if t.second = 60 then t.millisecond + 1000 else t.millisecond)

end LocalTime

theorem toMillisecond_aheadBy {t : LocalTime} {nanosecond : Nat}
    (exact : nanosecond / 1000000 = t.millisecond) (offset : Int) :
    (Instant.aheadBy ⟨t.date.toDays, t.hour * 3600 + t.minute * 60 + min t.second 59,
      if t.second = 60 then nanosecond + leap else nanosecond⟩ offset).toMillisecond =
      t.instant offset := by
  have ms : (if t.second = 60 then nanosecond + leap else nanosecond) / 1000000 =
      if t.second = 60 then t.millisecond + 1000 else t.millisecond := by
    unfold leap
    split <;> omega
  simp only [Instant.toMillisecond, Instant.aheadBy, LocalTime.instant, Instant.ofSeconds, ms]
  push_cast
  rfl

theorem aheadBy_zero {i : Instant} (h : i.second < secondsPerDay) : i.aheadBy 0 = i := by
  obtain ⟨day, second, nanosecond⟩ := i
  simp only [secondsPerDay] at h
  simp only [Instant.aheadBy, secondsPerDay, Instant.mk.injEq, and_true]
  omega

theorem instant?_eq_some {t : LocalTime} {nanosecond : Nat} {i : Instant}
    (h : instant? t.date t.hour t.minute t.second nanosecond = some i) (small : nanosecond < leap)
    (exact : nanosecond / 1000000 = t.millisecond) :
    t.Exists ∧ i.second < secondsPerDay ∧
      ∀ offset, (i.aheadBy offset).toMillisecond = t.instant offset := by
  unfold instant? at h
  split at h
  · cases h
  · next inside =>
    simp only [Bool.or_eq_true, Bool.not_eq_eq_eq_not, Bool.not_true, decide_eq_true_eq, not_or,
      Bool.not_eq_false, not_le, not_lt] at inside
    obtain ⟨⟨⟨valid, hours⟩, minutes⟩, seconds⟩ := inside
    have made : i = ⟨t.date.toDays, t.hour * 3600 + t.minute * 60 + min t.second 59,
        if t.second = 60 then nanosecond + leap else nanosecond⟩ := by
      split at h
      · next sixtieth =>
        cases h
        rw [if_pos sixtieth, sixtieth]
        rfl
      · next sixtieth =>
        cases h
        rw [if_neg sixtieth, min_eq_left (by omega)]
    subst made
    unfold leap at small
    refine ⟨⟨valid, hours, minutes, seconds, by omega⟩, ?_, toMillisecond_aheadBy exact⟩
    simp only [secondsPerDay]
    omega

/-- The letter T or a blank stands between date and time. -/
inductive WithOffset : List Char → LocalTime → Int → Prop
  | mk {c₀ c₁ c₂ c₃ c₄ c₅ c₆ c₇ : List Char} {year month day hour minute second ms : Nat}
      {c : Char} {offset : Int} (y : Digits 4 4 c₀ year ('-' :: c₁))
      (mo : Digits 2 2 c₁ month ('-' :: c₂)) (d : Digits 2 2 c₂ day (c :: c₃))
      (between : c = 'T' ∨ c = 't' ∨ c = ' ') (h : Digits 2 2 c₃ hour (':' :: c₄))
      (mi : Digits 2 2 c₄ minute (':' :: c₅)) (s : Digits 2 2 c₅ second c₆)
      (f : Fraction c₆ ms c₇) (o : Offset c₇ offset []) :
      WithOffset c₀ ⟨⟨year, month, day⟩, hour, minute, second, ms⟩ offset

inductive Year : List Char → Int → List Char → Prop
  | plain {cs rest : List Char} {n : Nat} (digits : Number 4 cs n rest) : Year cs n rest
  | signed {blanks cs rest : List Char} {c : Char} {n : Nat}
      (blank : ∀ c ∈ blanks, Text.isBlank c = true) (sign : c = '-' ∨ c = '+')
      (digits : Digits 1 cs.length cs n rest) :
      Year (blanks ++ c :: cs) (if c = '-' then -n else n) rest

/-- A date alone is its midnight. Else the letter T or nothing stands between date and time. -/
inductive WithoutOffset : List Char → LocalTime → Prop
  | date {c₀ c₁ c₂ : List Char} {year : Int} {month day : Nat} (y : Year c₀ year ('-' :: c₁))
      (mo : Number 2 c₁ month ('-' :: c₂)) (d : Number 2 c₂ day []) :
      WithoutOffset c₀ ⟨⟨year, month, day⟩, 0, 0, 0, 0⟩
  | time {c₀ c₁ c₂ c₃ c₄ c₅ c₆ : List Char} {year : Int} {month day hour minute second ms : Nat}
      {between : List Char} (sign : between = [] ∨ between = ['T']) (y : Year c₀ year ('-' :: c₁))
      (mo : Number 2 c₁ month ('-' :: c₂)) (d : Number 2 c₂ day (between ++ c₃))
      (h : Number 2 c₃ hour (':' :: c₄)) (mi : Number 2 c₄ minute (':' :: c₅))
      (s : Number 2 c₅ second c₆) (f : Fraction c₆ ms []) :
      WithoutOffset c₀ ⟨⟨year, month, day⟩, hour, minute, second, ms⟩

/-- The instant to the millisecond that a text spells. -/
inductive Spells : List Char → Instant → Prop
  | withOffset {cs : List Char} {t : LocalTime} {offset : Int} (spelled : WithOffset cs t offset)
      (there : t.Exists) : Spells cs (t.instant offset)
  | withoutOffset {cs : List Char} {t : LocalTime} (spelled : WithoutOffset cs t)
      (there : t.Exists) : Spells cs (t.instant 0)

theorem dateTimeSign?_eq_some {cs rest : List Char} (h : dateTimeSign? cs = some rest) :
    ∃ c, cs = c :: rest ∧ (c = 'T' ∨ c = 't' ∨ c = ' ') := by
  unfold dateTimeSign? at h
  split at h
  · split at h
    · next sign =>
      cases h
      exact ⟨_, rfl, sign⟩
    · cases h
  · cases h

theorem spells_of_withOffset {cs : List Char} {i : Instant} (h : withOffset? cs = some i) :
    Spells cs i.toMillisecond := by
  obtain ⟨⟨year, _⟩, y, h⟩ := Option.bind_eq_some_iff.mp h
  obtain ⟨_, s₁, h⟩ := Option.bind_eq_some_iff.mp h
  obtain ⟨⟨month, _⟩, mo, h⟩ := Option.bind_eq_some_iff.mp h
  obtain ⟨_, s₂, h⟩ := Option.bind_eq_some_iff.mp h
  obtain ⟨⟨day, _⟩, d, h⟩ := Option.bind_eq_some_iff.mp h
  obtain ⟨_, s₃, h⟩ := Option.bind_eq_some_iff.mp h
  obtain ⟨⟨hour, _⟩, ho, h⟩ := Option.bind_eq_some_iff.mp h
  obtain ⟨_, s₄, h⟩ := Option.bind_eq_some_iff.mp h
  obtain ⟨⟨minute, _⟩, mi, h⟩ := Option.bind_eq_some_iff.mp h
  obtain ⟨_, s₅, h⟩ := Option.bind_eq_some_iff.mp h
  obtain ⟨⟨second, _⟩, se, h⟩ := Option.bind_eq_some_iff.mp h
  obtain ⟨⟨nanosecond, _⟩, f, h⟩ := Option.bind_eq_some_iff.mp h
  obtain ⟨⟨offset, rest⟩, o, h⟩ := Option.bind_eq_some_iff.mp h
  obtain ⟨i', made, whole⟩ := Option.bind_eq_some_iff.mp h
  clear h
  rw [digits?_eq_some] at y mo d ho mi se
  rw [sign?_eq_some] at s₁ s₂ s₄ s₅
  subst s₁ s₂ s₄ s₅
  obtain ⟨c, rfl, between⟩ := dateTimeSign?_eq_some s₃
  obtain ⟨small, fraction⟩ := fraction_of_optional f
  obtain ⟨rfl, ahead⟩ : rest = [] ∧ i'.aheadBy offset = i := by
    split at whole
    · next ended => exact ⟨List.isEmpty_iff.mp ended, Option.some.inj whole⟩
    · cases whole
  obtain ⟨there, -, same⟩ := @instant?_eq_some
    ⟨⟨year, month, day⟩, hour, minute, second, nanosecond / 1000000⟩ nanosecond i' made small rfl
  rw [← ahead, same]
  exact .withOffset (.mk y mo d between ho mi se fraction (offset_of_read o)) there

theorem year_of_read {cs rest : List Char} {year : Int} (h : year? cs = some (year, rest)) :
    Year cs year rest := by
  have blanks : ∀ c ∈ cs.takeWhile Text.isBlank, Text.isBlank c = true :=
    fun c => List.mem_takeWhile_imp
  have split := List.takeWhile_append_dropWhile (p := Text.isBlank) (l := cs)
  unfold year? Text.trimStart at h
  split at h
  · next begins =>
    obtain ⟨⟨n, after⟩, digits, made⟩ := Option.map_eq_some_iff.mp h
    cases made
    rw [← split, begins]
    exact .signed blanks (.inl rfl) (digits?_eq_some.mp digits)
  · next begins =>
    obtain ⟨⟨n, after⟩, digits, made⟩ := Option.map_eq_some_iff.mp h
    cases made
    rw [← split, begins]
    exact .signed blanks (.inr rfl) (digits?_eq_some.mp digits)
  · obtain ⟨⟨n, after⟩, digits, made⟩ := Option.map_eq_some_iff.mp h
    cases made
    exact .plain ⟨_, _, split.symm, blanks, digits?_eq_some.mp digits⟩

theorem date_of_read {cs rest : List Char} {date : Date} (h : date? cs = some (date, rest)) :
    ∃ (c₁ c₂ : List Char) (year : Int) (month day : Nat), date = ⟨year, month, day⟩ ∧
      Year cs year ('-' :: c₁) ∧ Number 2 c₁ month ('-' :: c₂) ∧ Number 2 c₂ day rest := by
  obtain ⟨⟨year, _⟩, y, h⟩ := Option.bind_eq_some_iff.mp h
  obtain ⟨_, s₁, h⟩ := Option.bind_eq_some_iff.mp h
  obtain ⟨⟨month, _⟩, mo, h⟩ := Option.bind_eq_some_iff.mp h
  obtain ⟨_, s₂, h⟩ := Option.bind_eq_some_iff.mp h
  obtain ⟨⟨day, _⟩, d, made⟩ := Option.bind_eq_some_iff.mp h
  clear h
  rw [number?_eq_some] at mo d
  rw [sign?_eq_some] at s₁ s₂
  subst s₁ s₂
  cases made
  exact ⟨_, _, year, month, day, rfl, year_of_read y, mo, d⟩

theorem time_of_read {date : Date} {cs : List Char} {i : Instant}
    (h : timeOf? date cs = some i) :
    ∃ (c₄ c₅ c₆ : List Char) (hour minute second ms : Nat),
      Number 2 cs hour (':' :: c₄) ∧ Number 2 c₄ minute (':' :: c₅) ∧ Number 2 c₅ second c₆ ∧
      Fraction c₆ ms [] ∧ LocalTime.Exists ⟨date, hour, minute, second, ms⟩ ∧
      i.toMillisecond = LocalTime.instant ⟨date, hour, minute, second, ms⟩ 0 := by
  obtain ⟨⟨hour, _⟩, ho, h⟩ := Option.bind_eq_some_iff.mp h
  obtain ⟨_, s₁, h⟩ := Option.bind_eq_some_iff.mp h
  obtain ⟨⟨minute, _⟩, mi, h⟩ := Option.bind_eq_some_iff.mp h
  obtain ⟨_, s₂, h⟩ := Option.bind_eq_some_iff.mp h
  obtain ⟨⟨second, _⟩, se, h⟩ := Option.bind_eq_some_iff.mp h
  obtain ⟨⟨nanosecond, rest⟩, f, whole⟩ := Option.bind_eq_some_iff.mp h
  clear h
  rw [number?_eq_some] at ho mi se
  rw [sign?_eq_some] at s₁ s₂
  subst s₁ s₂
  obtain ⟨small, fraction⟩ := fraction_of_optional f
  obtain ⟨rfl, made⟩ : rest = [] ∧ instant? date hour minute second nanosecond = some i := by
    dsimp only at whole
    split at whole
    · next ended => exact ⟨List.isEmpty_iff.mp ended, whole⟩
    · cases whole
  obtain ⟨there, inside, same⟩ := @instant?_eq_some
    ⟨date, hour, minute, second, nanosecond / 1000000⟩ nanosecond i made small rfl
  refine ⟨_, _, _, _, _, _, _, ho, mi, se, fraction, there, ?_⟩
  rw [← same, aheadBy_zero inside]

theorem spells_of_withoutOffset {cs : List Char} {i : Instant} (h : withoutOffset? cs = some i) :
    Spells cs i.toMillisecond := by
  obtain ⟨⟨date, rest⟩, d, h⟩ := Option.bind_eq_some_iff.mp h
  obtain ⟨c₁, c₂, year, month, day, rfl, y, mo, d⟩ := date_of_read d
  dsimp only at h
  split at h
  · obtain ⟨there, inside, same⟩ := @instant?_eq_some
      ⟨⟨year, month, day⟩, 0, 0, 0, 0⟩ 0 i h (by decide) rfl
    rw [← aheadBy_zero inside, same]
    exact .withoutOffset (.date y mo d) there
  · obtain ⟨_, _, _, hour, minute, second, ms, ho, mi, se, f, there, same⟩ := time_of_read h
    rw [same]
    exact .withoutOffset (.time (.inr rfl) y mo d ho mi se f) there
  · obtain ⟨_, _, _, hour, minute, second, ms, ho, mi, se, f, there, same⟩ := time_of_read h
    rw [same]
    exact .withoutOffset (.time (.inl rfl) y mo d ho mi se f) there

/-- Whatever is read is a spelling of what it is read as. -/
theorem spells_of_read {s : String} {i : Instant} (h : Instant.ofText? s = some i) :
    Spells (Text.trim s).toList i.toMillisecond := by
  unfold Instant.ofText? at h
  dsimp only at h
  generalize (Text.trim s).toList = cs at h ⊢
  cases read : withOffset? cs with
  | some j =>
    rw [read] at h
    cases h
    exact spells_of_withOffset read
  | none =>
    rw [read] at h
    exact spells_of_withoutOffset h

theorem Instant.valid_ofSeconds {seconds : Int} {millisecond : Nat}
    (h : millisecond < 1000 ∨ millisecond < 2000 ∧ seconds % 60 = 59) :
    (ofSeconds seconds millisecond).Valid := by
  constructor
  · simp only [ofSeconds, secondsPerDay]
    omega
  · simp only [ofSeconds, secondsPerDay, leap]
    omega

theorem Offset.minutes {cs rest : List Char} {offset : Int} (h : Offset cs offset rest) :
    offset % 60 = 0 := by
  cases h <;> omega

theorem LocalTime.Exists.valid {t : LocalTime} (h : t.Exists) {offset : Int}
    (minutes : offset % 60 = 0) : (t.instant offset).Valid := by
  have ms := h.millisecond
  refine Instant.valid_ofSeconds ?_
  simp only [secondsPerDay]
  split <;> omega

theorem Spells.valid {cs : List Char} {i : Instant} (h : Spells cs i) : i.Valid := by
  cases h with
  | withOffset spelled there =>
    cases spelled
    next o => exact there.valid o.minutes
  | withoutOffset _ there => exact there.valid rfl

end SqlEngine.Calendar
