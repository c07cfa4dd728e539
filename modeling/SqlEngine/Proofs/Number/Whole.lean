import Mathlib
import SqlEngine.Proofs.Number.Decimal
import SqlEngine.Proofs.Number.Rounding
import SqlEngine.Proofs.Text.Blank

/-! Whole numbers that are written with digits and read as doubles. Digits are read as the double
that is nearest to the number, and this one is whole again. It is the number itself just if that is
the value of a double. -/

namespace SqlEngine

theorem signedWord?_eq_some {i : Int} {n : Int64} : signedWord? i = some n ↔ n.toInt = i := by
  constructor
  · intro h
    unfold signedWord? at h
    split at h
    · next fits =>
      rw [Int64.toInt_minValue, Int64.toInt_maxValue] at fits
      rw [← Option.some.inj h, Int64.toInt_ofInt_of_le (by omega) (by omega)]
    · cases h
  · rintro rfl
    exact signedWord?_toInt n

namespace Binary64

theorem pow_dvd_nearest (n place : Nat) : 2 ^ place ∣ nearest (n * 2 ^ place) := by
  rcases Nat.le_total (shift (n * 2 ^ place)) place with few | many
  · -- All the digits that are dropped are zeros.
    generalize shift_eq : shift (n * 2 ^ place) = s at few
    have whole : n * 2 ^ place = n * 2 ^ (place - s) * 2 ^ s := by
      rw [Nat.mul_assoc, ← Nat.pow_add, Nat.sub_add_cancel few]
    have kept : nearest (n * 2 ^ place) = n * 2 ^ place := by
      rw [nearest, shift_eq, whole, divideHalfEven_mul (Nat.two_pow_pos s)]
    rw [kept]
    exact Nat.dvd_mul_left _ _
  · exact Dvd.dvd.mul_left (Nat.pow_dvd_pow 2 many) _

theorem one_dvd_units_ofInt {i : Int} (h : i.natAbs ≤ 2 ^ 63) : (one : Int) ∣ (ofInt i).units := by
  have whole : (one : Int) ∣ (nearest (i.natAbs * one) : Nat) := by
    rw [one_eq]
    exact Int.natCast_dvd_natCast.mpr (pow_dvd_nearest _ _)
  rw [(units_ofInt h).2]
  split
  · exact (Int.dvd_neg).mpr whole
  · exact whole

theorem floor_ofInt_eq_iff {i : Int} (h : i.natAbs ≤ 2 ^ 63) : (ofInt i).floor = i ↔ Exact i := by
  have positive : (one : Int) ≠ 0 := by exact_mod_cast one_pos.ne'
  constructor
  · intro same
    refine ⟨ofInt i, (units_ofInt h).1, ?_⟩
    conv_rhs => rw [← same]
    exact (Int.ediv_mul_cancel (one_dvd_units_ofInt h)).symm
  · intro exact
    rw [floor, units_ofInt_of_exact h exact, Int.mul_ediv_cancel _ positive]

end Binary64

namespace Decimal

theorem digitCount_le {n k : Nat} (positive : 0 < k) (h : n < 10 ^ k) : digitCount n ≤ k :=
  (Nat.length_toDigits_le_iff (by decide) positive).mpr h

theorem scaled_whole {n : Nat} (h : n < 10 ^ 400) (negative : Bool)
    (signed : n = 0 → negative = false) :
    scaled negative n 0 = .ofRatio negative n 1 := by
  unfold scaled
  have few := digitCount_le (by decide) h
  rcases Nat.eq_zero_or_pos n with rfl | some
  · rw [if_pos rfl, signed rfl, Binary64.ofRatio, Nat.zero_mul, Binary64.roundUnits_eq_zero.mpr rfl]
  · simp only [if_neg some.ne', Nat.pow_eq]
    rw [if_neg (by omega), if_neg (by omega), if_pos le_rfl, Int.toNat_zero, Nat.pow_zero,
      Nat.mul_one]

theorem readUnsigned?_digits {digits : List Char} (hd : ∀ c ∈ digits, c.isDigit = true)
    (some : digits ≠ []) (negative : Bool) :
    readUnsigned? negative digits = Option.some (scaled negative (naturalOf digits) 0) := by
  have all : digits.span Char.isDigit = (digits, []) := by
    rw [List.span_eq_takeWhile_dropWhile, List.takeWhile_eq_self_iff.mpr hd,
      List.dropWhile_eq_nil_iff.mpr hd]
  unfold readUnsigned?
  rw [all]
  simp [some, readExponent?]

theorem toLower_of_isDigit {c : Char} (digit : c.isDigit = true) : c.toLower = c := by
  have small := (Text.toNat_of_isDigit digit).2
  have upper : ¬(c.val ≥ 'A'.val ∧ c.val ≤ 'Z'.val) := by
    rintro ⟨letter, -⟩
    have large : 65 ≤ c.toNat := UInt32.le_iff_toNat_le.mp letter
    omega
  rw [Char.toLower, dif_neg upper]

theorem read?_unsigned {c : Char} {cs : List Char} (digit : c.isDigit = true) {signs : List Char}
    {negative : Bool} (sign : splitSign (signs ++ c :: cs) = (negative, c :: cs)) :
    read? (signs ++ c :: cs) = readUnsigned? negative (c :: cs) := by
  have no_name {name : List Char} (letter : name.head?.any Char.isDigit = false) :
      (c :: cs).map Char.toLower ≠ name := by
    rintro rfl
    rw [List.map_cons, toLower_of_isDigit digit, List.head?_cons, Option.any_some, digit] at letter
    cases letter
  unfold read?
  rw [sign]
  dsimp only
  rw [if_neg (not_or.mpr ⟨no_name (by decide), no_name (by decide)⟩), if_neg (no_name (by decide))]

theorem read?_toString {i : Int} (h : i.natAbs < 10 ^ 400) :
    read? (toString i).toList = some (.ofInt i) := by
  obtain ⟨c, cs, split⟩ :=
    List.exists_cons_of_ne_nil (Nat.toDigits_ne_nil (n := i.natAbs) (b := 10))
  have all : ∀ d ∈ c :: cs, d.isDigit = true := fun d hd =>
    isDigit_of_mem_toDigits (n := i.natAbs) (split ▸ hd)
  have first : c.isDigit = true := all c List.mem_cons_self
  have value : naturalOf (c :: cs) = i.natAbs := split ▸ naturalOf_toDigits i.natAbs
  have spelled (negative : Bool) (sign : negative = decide (i < 0)) :
      readUnsigned? negative (c :: cs) = some (.ofInt i) := by
    rw [readUnsigned?_digits all (List.cons_ne_nil _ _), value, scaled_whole h, sign]
    · rfl
    · intro zero
      rw [sign, Int.natAbs_eq_zero.mp zero]
      rfl
  rw [toList_toString, split]
  split
  · next less => rw [read?_unsigned first rfl, spelled true (by simp [less])]
  · next whole =>
    rw [read?_unsigned first (splitSign_of_isDigit first), spelled false (by simp [whole])]

end Decimal
end SqlEngine
