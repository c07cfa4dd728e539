import Mathlib.Algebra.Order.Field.Power
import Mathlib.Data.List.Induction
import Mathlib.Data.List.TakeWhile
import Mathlib.Tactic.FieldSimp
import Mathlib.Tactic.Ring
import SqlEngine.Number.Decimal

/-! Decimal digits and the number that they spell. -/

namespace SqlEngine.Decimal

theorem naturalOf_concat (digits : List Char) (c : Char) :
    naturalOf (digits ++ [c]) = naturalOf digits * 10 + digitValue c := by
  simp [naturalOf]

theorem naturalOf_append (first last : List Char) :
    naturalOf (first ++ last) = naturalOf first * 10 ^ last.length + naturalOf last := by
  induction last using List.reverseRecOn with
  | nil => simp [naturalOf]
  | append_singleton last c ih =>
    rw [← List.append_assoc, naturalOf_concat, ih, naturalOf_concat, List.length_append,
      List.length_singleton]
    ring

theorem naturalOf_zeros (n : Nat) : naturalOf (List.replicate n '0') = 0 := by
  induction n with
  | zero => rfl
  | succ n ih =>
    rw [List.replicate_succ', naturalOf_concat, ih]
    rfl

theorem naturalOf_toDigits (n : Nat) : naturalOf (Nat.toDigits 10 n) = n := by
  have folded : Nat.ofDigitChars 10 (Nat.toDigits 10 n) 0 = n := Nat.ofDigitChars_ten_toDigits
  rw [Nat.ofDigitChars] at folded
  rw [naturalOf]
  simpa only [digitValue, Nat.mul_comm] using folded

theorem isDigit_of_mem_toDigits {n : Nat} {c : Char} (h : c ∈ Nat.toDigits 10 n) :
    c.isDigit = true :=
  Nat.isDigit_of_mem_toDigits (by decide) (by decide) h

theorem toList_toString (i : Int) : (toString i).toList =
    (if i < 0 then ['-'] else []) ++ Nat.toDigits 10 i.natAbs := by
  rw [Int.toString_eq_repr, Int.repr_eq_if]
  split
  · next whole =>
    have size : i.toNat = i.natAbs := by omega
    rw [if_neg (by omega), Nat.toList_repr, size]
    rfl
  · next negative =>
    have size : (-i).toNat = i.natAbs := by omega
    rw [if_pos (by omega), String.toList_append, Nat.toList_repr, size]
    rfl

def wholeOf (cs : List Char) : Int :=
  if (splitSign cs).1 then -(naturalOf (splitSign cs).2 : Int) else naturalOf (splitSign cs).2

theorem splitSign_of_isDigit {c : Char} {cs : List Char} (digit : c.isDigit = true) :
    splitSign (c :: cs) = (false, c :: cs) := by
  unfold splitSign
  split
  · next same =>
    cases same
    exact absurd digit (by decide)
  · next same =>
    cases same
    exact absurd digit (by decide)
  · rfl

theorem wholeOf_toString (i : Int) : wholeOf (toString i).toList = i := by
  rw [toList_toString]
  obtain ⟨c, cs, split⟩ :=
    List.exists_cons_of_ne_nil (Nat.toDigits_ne_nil (n := i.natAbs) (b := 10))
  have first : c.isDigit = true := isDigit_of_mem_toDigits (split ▸ List.mem_cons_self)
  have value := naturalOf_toDigits i.natAbs
  split
  · have signs : splitSign (['-'] ++ Nat.toDigits 10 i.natAbs) =
        (true, Nat.toDigits 10 i.natAbs) := rfl
    simp only [wholeOf, signs, value, if_true]
    omega
  · have signs : splitSign ([] ++ Nat.toDigits 10 i.natAbs) =
        (false, Nat.toDigits 10 i.natAbs) := by
      rw [List.nil_append, split, splitSign_of_isDigit first]
    simp only [wholeOf, signs, value, Bool.false_eq_true, if_false]
    omega

def valueOf (cs : List Char) : ℚ :=
  let mantissa := cs.takeWhile (· ≠ 'e')
  let places := (mantissa.dropWhile (· ≠ '.')).tail
  naturalOf (mantissa.takeWhile (· ≠ '.') ++ places) *
    10 ^ (wholeOf (cs.dropWhile (· ≠ 'e')).tail - places.length)

theorem takeWhile_ne {c : Char} {cs : List Char} (absent : c ∉ cs) (rest : List Char) :
    (cs ++ c :: rest).takeWhile (· ≠ c) = cs ∧ (cs ++ c :: rest).dropWhile (· ≠ c) = c :: rest := by
  have others : ∀ d ∈ cs, decide (d ≠ c) = true := by
    intro d hd
    simp only [ne_eq, decide_not, Bool.not_eq_eq_eq_not, Bool.not_true, decide_eq_false_iff_not]
    rintro rfl
    exact absent hd
  rw [List.takeWhile_append_of_pos others, List.dropWhile_append_of_pos others]
  simp

theorem takeWhile_ne_self {c : Char} {cs : List Char} (absent : c ∉ cs) :
    cs.takeWhile (· ≠ c) = cs ∧ cs.dropWhile (· ≠ c) = [] := by
  have others : ∀ d ∈ cs, decide (d ≠ c) = true := by
    intro d hd
    simp only [ne_eq, decide_not, Bool.not_eq_eq_eq_not, Bool.not_true, decide_eq_false_iff_not]
    rintro rfl
    exact absent hd
  exact ⟨List.takeWhile_eq_self_iff.mpr others, List.dropWhile_eq_nil_iff.mpr others⟩

theorem wholeOf_nil : wholeOf [] = 0 := rfl

theorem no_mark {digits : List Char} (hd : ∀ d ∈ digits, d.isDigit = true) :
    'e' ∉ digits ∧ '.' ∉ digits :=
  ⟨fun listed => absurd (hd _ listed) (by decide), fun listed => absurd (hd _ listed) (by decide)⟩

section

variable {whole places : List Char} (hw : ∀ c ∈ whole, c.isDigit = true)
  (hp : ∀ c ∈ places, c.isDigit = true)
include hw

theorem valueOf_whole : valueOf whole = naturalOf whole := by
  simp only [valueOf, takeWhile_ne_self (no_mark hw).1, takeWhile_ne_self (no_mark hw).2,
    List.tail_nil, wholeOf_nil, List.append_nil, List.length_nil]
  simp

include hp

theorem noExponent_point : 'e' ∉ whole ++ '.' :: places := by
  simp [(no_mark hw).1, (no_mark hp).1]

theorem valueOf_point : valueOf (whole ++ '.' :: places) =
    naturalOf (whole ++ places) * 10 ^ (-places.length : Int) := by
  simp only [valueOf, takeWhile_ne_self (noExponent_point hw hp), takeWhile_ne (no_mark hw).2,
    List.tail_cons, List.tail_nil, wholeOf_nil, zero_sub]

end

theorem valueOf_exponent {mantissa : List Char} (noExponent : 'e' ∉ mantissa)
    (exponent : List Char) :
    valueOf (mantissa ++ 'e' :: exponent) = valueOf mantissa * 10 ^ wholeOf exponent := by
  have ten : (10 : ℚ) ≠ 0 := by norm_num
  simp only [valueOf, takeWhile_ne noExponent, takeWhile_ne_self noExponent, List.tail_cons,
    List.tail_nil, wholeOf_nil]
  rw [mul_assoc, ← zpow_add₀ ten]
  ring_nf

end SqlEngine.Decimal
