import SqlEngine.Proofs.Calendar.Spelling

/-! The text of an instant as a spelling. It is read back if its year has four digits. With a sign
before the year it is no spelling, as the letter at its end calls for the form that has no signs. -/

namespace SqlEngine.Calendar

open Decimal

section

variable {least most : Nat} {cs rest : List Char} {n : Nat}

theorem Digits.isSuffix (h : Digits least most cs n rest) : rest <:+ cs := by
  obtain ⟨ds, rfl, -⟩ := h
  exact List.suffix_append ds rest

theorem Number.isSuffix (h : Number most cs n rest) : rest <:+ cs := by
  obtain ⟨blanks, after, rfl, -, digits⟩ := h
  exact digits.isSuffix.trans (List.suffix_append _ _)

theorem Year.isSuffix {year : Int} (h : Year cs year rest) : rest <:+ cs := by
  cases h with
  | plain digits => exact digits.isSuffix
  | signed _ _ digits =>
    exact digits.isSuffix.trans ((List.suffix_cons _ _).trans (List.suffix_append _ _))

def EndsWithDigit (cs : List Char) : Prop := ∃ d : Char, d.isDigit = true ∧ [d] <:+ cs

theorem EndsWithDigit.of_isSuffix (h : EndsWithDigit rest) (behind : rest <:+ cs) :
    EndsWithDigit cs :=
  h.imp fun _ ⟨digit, last⟩ => ⟨digit, last.trans behind⟩

theorem endsWithDigit_of_ne_nil {ds : List Char} (some : ds ≠ [])
    (digits : ∀ c ∈ ds, c.isDigit = true) : EndsWithDigit ds := by
  obtain ⟨ds, d, rfl⟩ := (List.eq_nil_or_concat' ds).resolve_left some
  exact ⟨d, digits d (by simp), List.suffix_append _ _⟩

theorem Number.ends (h : Number most cs n []) : EndsWithDigit cs := by
  obtain ⟨blanks, after, rfl, -, ds, rfl, all, one, -⟩ := h
  refine (endsWithDigit_of_ne_nil (List.ne_nil_of_length_pos one) all).of_isSuffix ?_
  rw [List.append_nil]
  exact List.suffix_append _ _

end

theorem WithoutOffset.ends {cs : List Char} {t : LocalTime} (h : WithoutOffset cs t) :
    EndsWithDigit cs := by
  have behind {cs cs' rest : List Char} {c : Char} (last : rest <:+ cs) (first : c :: cs <:+ cs') :
      rest <:+ cs' :=
    last.trans ((List.suffix_cons _ _).trans first)
  cases h with
  | date y mo d => exact d.ends.of_isSuffix (behind (behind List.suffix_rfl mo.isSuffix) y.isSuffix)
  | @time c₁ c₂ c₃ c₄ c₅ c₆ _ _ _ _ _ _ _ _ sign y mo d h mi s f =>
    have seconds : EndsWithDigit c₅ := by
      cases f with
      | none => exact s.ends
      | places some digits _ =>
        rw [List.append_nil] at s
        exact (endsWithDigit_of_ne_nil some digits).of_isSuffix (behind List.suffix_rfl s.isSuffix)
    have date : c₃ <:+ cs :=
      behind (behind ((List.suffix_append _ _).trans d.isSuffix) mo.isSuffix) y.isSuffix
    exact seconds.of_isSuffix ((behind (behind List.suffix_rfl mi.isSuffix) h.isSuffix).trans date)

theorem WithOffset.begins {cs : List Char} {t : LocalTime} {offset : Int}
    (h : WithOffset cs t offset) : ∃ d rest, cs = d :: rest ∧ d.isDigit = true := by
  obtain ⟨_, _, ds, rfl, digits, four, -⟩ : ∃ year rest, Digits 4 4 cs year rest := by
    cases h
    next y _ _ _ _ _ _ _ _ => exact ⟨_, _, y⟩
  obtain ⟨d, ds, rfl⟩ := List.exists_cons_of_length_pos (four.trans_lt' (by decide))
  exact ⟨d, _, List.cons_append, digits d List.mem_cons_self⟩

/-- A year of other than four digits is written with a sign before it and a letter at the end. No
form has both of them. -/
theorem not_spells_text {i j : Instant} (signed : ¬IsPlain i.date.year) :
    ¬Spells i.text.toList j := by
  intro spelled
  cases spelled with
  | withOffset spelled =>
    obtain ⟨d, rest, split, digit⟩ := spelled.begins
    rw [Instant.toList_text, toList_yearText, yearSign, if_neg signed] at split
    split at split
    · cases split
      cases digit
    · cases split
      cases digit
  | withoutOffset spelled =>
    obtain ⟨d, digit, last⟩ := spelled.ends
    have ended : ['Z'] <:+ i.text.toList := by
      rw [Instant.text, String.toList_append]
      exact List.suffix_append _ _
    have same : [d] = ['Z'] := (List.suffix_of_suffix_length_le last ended le_rfl).eq_of_length rfl
    cases same
    cases digit

theorem not_isBlank_written {fs : List Field} (signs : ∀ f ∈ fs, Text.isBlank f.sign = false)
    (ns : List Nat) : ∀ c ∈ written fs ns, Text.isBlank c = false := by
  fun_induction written fs ns with
  | case1 f fs n ns ih =>
    obtain ⟨sign, signs⟩ := List.forall_mem_cons.mp signs
    refine List.forall_mem_append.mpr ⟨fun c hc => ?_, List.forall_mem_cons.mpr ⟨sign, ih signs⟩⟩
    exact Text.isBlank_of_isDigit (isDigit_padded _ _ c hc)
  | case2 => nofun

theorem trim_text (i : Instant) : Text.trim i.text = i.text := by
  refine Text.trim_eq_self ?_
  rw [Instant.toList_text, toList_yearText, List.forall_mem_append, List.forall_mem_append,
    List.forall_mem_cons]
  refine ⟨⟨?_, fun c hc => Text.isBlank_of_isDigit (isDigit_padded _ _ c hc)⟩, rfl,
    not_isBlank_written (by decide) _⟩
  unfold yearSign
  split
  · nofun
  · split <;> exact List.forall_mem_singleton.mpr rfl

theorem withOffset?_eq_some {c₀ c₁ c₂ c₃ c₄ c₅ c₆ c₇ : List Char} {date : Date}
    {year hour minute second nanosecond : Nat} {offset : Int} {i : Instant}
    (y : Digits 4 4 c₀ year ('-' :: c₁)) (mo : Digits 2 2 c₁ date.month ('-' :: c₂))
    (d : Digits 2 2 c₂ date.day ('T' :: c₃)) (h : Digits 2 2 c₃ hour (':' :: c₄))
    (mi : Digits 2 2 c₄ minute (':' :: c₅)) (s : Digits 2 2 c₅ second c₆)
    (f : optionalFraction? c₆ = some (nanosecond, c₇)) (o : offset? c₇ = some (offset, []))
    (same : (year : Int) = date.year)
    (made : instant? date hour minute second nanosecond = some i) :
    withOffset? c₀ = some (i.aheadBy offset) := by
  have whole : (⟨year, date.month, date.day⟩ : Date) = date := by rw [same]
  rw [← digits?_eq_some] at y mo d h mi s
  refine Option.bind_eq_some_iff.mpr ⟨_, y, ?_⟩
  refine Option.bind_eq_some_iff.mpr ⟨_, sign?_eq_some.mpr rfl, ?_⟩
  refine Option.bind_eq_some_iff.mpr ⟨_, mo, ?_⟩
  refine Option.bind_eq_some_iff.mpr ⟨_, sign?_eq_some.mpr rfl, ?_⟩
  refine Option.bind_eq_some_iff.mpr ⟨_, d, ?_⟩
  refine Option.bind_eq_some_iff.mpr ⟨_, rfl, ?_⟩
  refine Option.bind_eq_some_iff.mpr ⟨_, h, ?_⟩
  refine Option.bind_eq_some_iff.mpr ⟨_, sign?_eq_some.mpr rfl, ?_⟩
  refine Option.bind_eq_some_iff.mpr ⟨_, mi, ?_⟩
  refine Option.bind_eq_some_iff.mpr ⟨_, sign?_eq_some.mpr rfl, ?_⟩
  refine Option.bind_eq_some_iff.mpr ⟨_, s, ?_⟩
  refine Option.bind_eq_some_iff.mpr ⟨_, f, ?_⟩
  refine Option.bind_eq_some_iff.mpr ⟨_, o, ?_⟩
  refine Option.bind_eq_some_iff.mpr ⟨i, ?_, rfl⟩
  rw [whole]
  exact made

theorem digits_padded {least most width n : Nat} (some : 0 < width) (fits : n < 10 ^ width)
    (range : least ≤ width ∧ width ≤ most) {c : Char} (sign : c.isDigit = false)
    (rest : List Char) :
    Digits least most ((padded width n).toList ++ c :: rest) n (c :: rest) := by
  refine ⟨_, rfl, isDigit_padded _ _, ?_, ?_, .inr ?_, naturalOf_padded _ _⟩
  · rw [length_padded some fits]
    exact range.1
  · rw [length_padded some fits]
    exact range.2
  · rintro c' ⟨⟩
    exact sign

theorem optionalFraction?_padded {n : Nat} (fits : n < 1000) :
    optionalFraction? ('.' :: ((padded 3 n).toList ++ ['Z'])) = some (n * 1000000, ['Z']) := by
  have digits : Digits 1 9 ((padded 3 n).toList ++ ['Z']) n ['Z'] :=
    digits_padded three_pos fits (by decide) rfl []
  have width : (padded 3 n).toList.length = 3 := length_padded three_pos fits
  rw [optionalFraction?, fraction?, digits?_eq_some.mpr digits]
  simp only [Option.bind_eq_bind, Option.bind_some, List.length_append, width]
  rfl

theorem sub_leap_add {n : Nat} (h : leap ≤ n) :
    (n - leap) / 1000000 * 1000000 + leap = n / 1000000 * 1000000 := by
  unfold leap at h ⊢
  omega

theorem instant?_text {i : Instant} (valid : i.Valid) (plain : IsPlain i.date.year) :
    instant? i.date (i.second / 3600) (i.second / 60 % 60)
      (i.second % 60 + if leap ≤ i.nanosecond then 1 else 0)
      ((if leap ≤ i.nanosecond then i.nanosecond - leap else i.nanosecond) / 1000000 * 1000000) =
      some i.toMillisecond := by
  have there : i.date.isValid = true :=
    Date.isValid_iff.mpr ⟨plain.1.trans' (by decide), plain.2.trans (by decide),
      Date.inMonth_ofDays i.day⟩
  have day : i.date.toDays = i.day := Date.toDays_ofDays i.day
  obtain ⟨second, nanosecond⟩ := valid
  unfold secondsPerDay at second
  have hour : ¬24 ≤ i.second / 3600 := by omega
  have minute : ¬60 ≤ i.second / 60 % 60 := by omega
  have clock : i.second / 3600 * 3600 + i.second / 60 % 60 * 60 + i.second % 60 = i.second := by
    omega
  unfold instant? Instant.toMillisecond
  by_cases isLeap : leap ≤ i.nanosecond
  · have last : i.second % 60 = 59 := by omega
    rw [last] at clock
    simp only [if_pos isLeap, last, there, hour, minute, clock,
      sub_leap_add isLeap, day]
    rfl
  · have common : i.second % 60 < 60 := Nat.mod_lt _ (by decide)
    simp only [if_neg isLeap, there, hour, minute, clock, day, Nat.add_zero, common.not_gt,
      if_neg common.ne]
    rfl

theorem withOffset?_text {i : Instant} (valid : i.Valid) (plain : IsPlain i.date.year) :
    withOffset? i.text.toList = some i.toMillisecond := by
  obtain ⟨low, high⟩ := id plain
  have fits := valid.fits
  simp only [Fits, Instant.fields, Instant.numbers, List.forall₂_cons, List.forall₂_nil_right_iff,
    and_true] at fits
  obtain ⟨mo, d, h, mi, s, ms⟩ := fits
  have two {n : Nat} (fits : n < 10 ^ 2) {c : Char} (sign : c.isDigit = false) (rest : List Char) :
      Digits 2 2 ((padded 2 n).toList ++ c :: rest) n (c :: rest) :=
    digits_padded two_pos fits (by decide) sign rest
  have year : Digits 4 4 i.text.toList i.date.year.natAbs
      ('-' :: written Instant.fields i.numbers) := by
    rw [Instant.toList_text, toList_yearText, yearSign, if_pos plain, List.nil_append]
    exact digits_padded four_pos (by omega) (by decide) rfl _
  rw [withOffset?_eq_some year (two mo rfl _) (two d rfl _) (two h rfl _) (two mi rfl _)
    (two s rfl _) (optionalFraction?_padded ms) rfl (by omega) (instant?_text valid plain)]
  rw [aheadBy_zero]
  exact valid.second_lt

/-- A text is read back to the millisecond just if its year has four digits. -/
theorem ofText?_text {i : Instant} (valid : i.Valid) : Instant.ofText? i.text =
    if IsPlain i.date.year then some i.toMillisecond else none := by
  split
  · next plain =>
    rw [Instant.ofText?, trim_text, withOffset?_text valid plain]
    rfl
  · next signed =>
    refine Option.eq_none_iff_forall_ne_some.mpr fun j read => ?_
    have spelled := spells_of_read read
    rw [trim_text] at spelled
    exact not_spells_text signed spelled

end SqlEngine.Calendar
