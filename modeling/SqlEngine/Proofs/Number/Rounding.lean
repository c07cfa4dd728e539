import Mathlib.Tactic.Ring
import SqlEngine.Value

/-! Rounding of whole numbers to doubles. Rounding is monotone, and it keeps what is the value of a
double already. Both carry over to words that are read as doubles and turned back. -/

namespace SqlEngine

namespace Binary64

theorem divideHalfEven_bounds (num den : Nat) :
    num / den ≤ divideHalfEven num den ∧ divideHalfEven num den ≤ num / den + 1 := by
  simp only [divideHalfEven]
  split
  · omega
  · split <;> omega

theorem divideHalfEven_mul {d : Nat} (h : 0 < d) (q : Nat) : divideHalfEven (q * d) d = q := by
  simp [divideHalfEven, Nat.mul_div_cancel q h, h]

theorem divideHalfEven_mono {m n : Nat} (d : Nat) (h : m ≤ n) :
    divideHalfEven m d ≤ divideHalfEven n d := by
  rcases Nat.eq_zero_or_pos d with rfl | positive
  · simp only [divideHalfEven, Nat.div_zero, Nat.mod_zero, Nat.not_lt_zero, if_false]
    split <;> split <;> omega
  · have quotients : m / d ≤ n / d := Nat.div_le_div_right h
    rcases Nat.lt_or_eq_of_le quotients with less | same
    · exact (divideHalfEven_bounds m d).2.trans (less.trans_le (divideHalfEven_bounds n d).1)
    · have rests : m % d ≤ n % d := by
        have := Nat.div_add_mod m d
        have := Nat.div_add_mod n d
        rw [same] at *
        omega
      simp only [divideHalfEven, same]
      split <;> split <;> (try split) <;> (try split) <;> omega

def shift (n : Nat) : Nat := n.log2 - 52

def nearest (n : Nat) : Nat := divideHalfEven n (2 ^ shift n) * 2 ^ shift n

theorem binade_eq : binade = 2 ^ 52 := rfl

theorem lt_pow_shift (n : Nat) : n < 2 ^ 53 * 2 ^ shift n := by
  have bound := n.lt_log2_self
  rw [← Nat.pow_add]
  exact bound.trans_le (Nat.pow_le_pow_right (by decide) (by unfold shift; omega))

theorem pow_shift_le {n : Nat} (h : 0 < shift n) : 2 ^ 52 * 2 ^ shift n ≤ n := by
  have bound : 2 ^ n.log2 ≤ n := Nat.log2_self_le (by rintro rfl; exact absurd h (by decide))
  rw [← Nat.pow_add]
  refine le_trans (Nat.pow_le_pow_right (by decide) ?_) bound
  unfold shift at *
  omega

theorem quotient_le (n : Nat) {d : Nat} (h : 0 < d) :
    divideHalfEven n (d * 2 ^ shift (n / d)) ≤ 2 ^ 53 := by
  have positive : 0 < d * 2 ^ shift (n / d) := Nat.mul_pos h (Nat.two_pow_pos _)
  have below : n ≤ 2 ^ 53 * (d * 2 ^ shift (n / d)) := by
    rw [← Nat.mul_assoc, Nat.mul_right_comm]
    exact ((Nat.div_lt_iff_lt_mul h).mp (lt_pow_shift (n / d))).le
  have le := divideHalfEven_mono (d * 2 ^ shift (n / d)) below
  rwa [divideHalfEven_mul positive] at le

theorem divisor_pos {n d : Nat} (h : 0 < shift (n / d)) : 0 < d := by
  by_contra zero
  rw [Nat.eq_zero_of_not_pos zero, Nat.div_zero] at h
  exact absurd h (by decide)

theorem le_quotient {n d : Nat} (h : 0 < shift (n / d)) :
    2 ^ 52 ≤ divideHalfEven n (d * 2 ^ shift (n / d)) := by
  have nonzero := divisor_pos h
  have positive : 0 < d * 2 ^ shift (n / d) := Nat.mul_pos nonzero (Nat.two_pow_pos _)
  have above : 2 ^ 52 * (d * 2 ^ shift (n / d)) ≤ n := by
    rw [← Nat.mul_assoc, Nat.mul_right_comm]
    exact (Nat.le_div_iff_mul_le nonzero).mp (pow_shift_le h)
  have le := divideHalfEven_mono (d * 2 ^ shift (n / d)) above
  rwa [divideHalfEven_mul positive] at le

theorem significand_le (n : Nat) : divideHalfEven n (2 ^ shift n) ≤ 2 ^ 53 := by
  simpa using quotient_le n Nat.one_pos

theorem le_significand {n : Nat} (h : 0 < shift n) :
    2 ^ 52 ≤ divideHalfEven n (2 ^ shift n) := by
  simpa using le_quotient (d := 1) (by rwa [Nat.div_one])

theorem shift_mono {m n : Nat} (h : m ≤ n) : shift m ≤ shift n := by
  rcases Nat.eq_zero_or_pos m with rfl | positive
  · exact Nat.zero_le _
  · have : m.log2 ≤ n.log2 := by
      rw [Nat.le_log2 (by omega)]
      exact (Nat.log2_self_le (by omega)).trans h
    unfold shift
    omega

theorem nearest_mono {m n : Nat} (h : m ≤ n) : nearest m ≤ nearest n := by
  rcases Nat.lt_or_eq_of_le (shift_mono h) with less | same
  · calc nearest m ≤ 2 ^ 53 * 2 ^ shift m := Nat.mul_le_mul_right _ (significand_le m)
      _ = 2 ^ 52 * 2 ^ (shift m + 1) := by ring
      _ ≤ 2 ^ 52 * 2 ^ shift n :=
        Nat.mul_le_mul_left _ (Nat.pow_le_pow_right (by decide) less)
      _ ≤ nearest n := Nat.mul_le_mul_right _ (le_significand (by omega))
  · rw [nearest, nearest, same]
    exact Nat.mul_le_mul_right _ (divideHalfEven_mono _ h)

theorem roundUnits_eq (n d : Nat) : roundUnits n d =
    min infinityMagnitude (shift (n / d) * 2 ^ 52 + divideHalfEven n (d * 2 ^ shift (n / d))) := by
  simp [roundUnits, shift, binade_eq]

theorem roundUnits_one (n : Nat) : roundUnits n 1 =
    min infinityMagnitude (shift n * 2 ^ 52 + divideHalfEven n (2 ^ shift n)) := by
  rw [roundUnits_eq, Nat.div_one, Nat.one_mul]

theorem roundUnits_mono {m n d : Nat} (h : m ≤ n) : roundUnits m d ≤ roundUnits n d := by
  rw [roundUnits_eq, roundUnits_eq]
  refine min_le_min_left _ ?_
  rcases Nat.lt_or_eq_of_le (shift_mono (Nat.div_le_div_right (c := d) h)) with less | same
  · have some : 0 < shift (n / d) := Nat.zero_lt_of_lt less
    have := quotient_le m (divisor_pos some)
    have := le_quotient some
    omega
  · rw [same]
    exact Nat.add_le_add_left (divideHalfEven_mono _ h) _

theorem roundUnits_eq_zero {n : Nat} : roundUnits n 1 = 0 ↔ n = 0 := by
  constructor
  · intro zero
    by_contra nonzero
    have least : roundUnits 1 1 = 1 := by decide
    have grow : roundUnits 1 1 ≤ roundUnits n 1 := roundUnits_mono (by omega)
    omega
  · rintro rfl
    decide

theorem magnitudeUnits_normal {exponent fraction : Nat} (h : fraction < 2 ^ 52) :
    magnitudeUnits ((exponent + 1) * 2 ^ 52 + fraction) = (2 ^ 52 + fraction) * 2 ^ exponent := by
  have e : ((exponent + 1) * 2 ^ 52 + fraction) / 2 ^ 52 = exponent + 1 := by omega
  have f : ((exponent + 1) * 2 ^ 52 + fraction) % 2 ^ 52 = fraction := by omega
  simp only [magnitudeUnits, binade_eq, e, f]
  rfl

theorem magnitudeUnits_small {m : Nat} (h : m < 2 ^ 52) : magnitudeUnits m = m := by
  have e : m / 2 ^ 52 = 0 := by omega
  have f : m % 2 ^ 52 = m := by omega
  simp only [magnitudeUnits, binade_eq, e, f, if_true]

theorem magnitudeUnits_shifted {s q : Nat} (normal : s ≠ 0 → 2 ^ 52 ≤ q) (h : q ≤ 2 ^ 53) :
    magnitudeUnits (s * 2 ^ 52 + q) = q * 2 ^ s := by
  by_cases small : q < 2 ^ 52
  · have : s = 0 := by
      by_contra h
      exact absurd (normal h) (by omega)
    subst this
    simpa using magnitudeUnits_small small
  · by_cases carry : q = 2 ^ 53
    · subst carry
      have : s * 2 ^ 52 + 2 ^ 53 = (s + 1 + 1) * 2 ^ 52 + 0 := by omega
      rw [this, magnitudeUnits_normal (by decide)]
      ring
    · have : s * 2 ^ 52 + q = (s + 1) * 2 ^ 52 + (q - 2 ^ 52) := by omega
      rw [this, magnitudeUnits_normal (by omega), Nat.add_sub_of_le (by omega)]

/-- The magnitude that units are rounded to has the nearest value. A significand that carries leads
to the next exponent. -/
theorem magnitudeUnits_roundUnits {n : Nat} (h : roundUnits n 1 < infinityMagnitude) :
    magnitudeUnits (roundUnits n 1) = nearest n := by
  rw [roundUnits_one] at h ⊢
  rw [min_eq_right (by omega)]
  exact magnitudeUnits_shifted (fun positive => le_significand (by omega)) (significand_le n)

def unitPlace : Nat := 1074

theorem one_eq : one = 2 ^ unitPlace := by decide +kernel

theorem one_pos : 0 < one := by
  rw [one_eq]
  exact Nat.two_pow_pos unitPlace

theorem shift_mul_pow_le {significand : Nat} (h : significand < 2 ^ 53) (place : Nat) :
    shift (significand * 2 ^ place) ≤ place := by
  rcases Nat.eq_zero_or_pos significand with rfl | positive
  · rw [Nat.zero_mul]
    exact Nat.zero_le _
  · have bound : significand * 2 ^ place < 2 ^ (53 + place) := by
      rw [Nat.pow_add]
      exact Nat.mul_lt_mul_of_pos_right h (Nat.two_pow_pos _)
    have := (Nat.log2_lt (Nat.mul_pos positive (Nat.two_pow_pos _)).ne').mpr bound
    unfold shift
    omega

/-- Rounding keeps what has at most fifty-three binary digits before its zeros. -/
theorem nearest_mul_pow {significand : Nat} (h : significand < 2 ^ 53) (place : Nat) :
    nearest (significand * 2 ^ place) = significand * 2 ^ place := by
  have fits := shift_mul_pow_le h place
  generalize shift_eq : shift (significand * 2 ^ place) = s at fits
  have whole : significand * 2 ^ place = significand * 2 ^ (place - s) * 2 ^ s := by
    rw [Nat.mul_assoc, ← Nat.pow_add, Nat.sub_add_cancel fits]
  rw [nearest, shift_eq, whole, divideHalfEven_mul (Nat.two_pow_pos s)]

theorem exists_magnitudeUnits_eq (m : Nat) :
    ∃ significand place, significand < 2 ^ 53 ∧ magnitudeUnits m = significand * 2 ^ place := by
  have fraction : m % 2 ^ 52 < 2 ^ 52 := Nat.mod_lt _ (by decide)
  rcases Nat.eq_zero_or_pos (m / 2 ^ 52) with subnormal | normal
  · have small : m < 2 ^ 52 := by omega
    exact ⟨m, 0, by omega, by rw [magnitudeUnits_small small, Nat.pow_zero, Nat.mul_one]⟩
  · obtain ⟨exponent, hexponent⟩ := Nat.exists_eq_succ_of_ne_zero normal.ne'
    have whole : m = (exponent + 1) * 2 ^ 52 + m % 2 ^ 52 := by omega
    refine ⟨2 ^ 52 + m % 2 ^ 52, exponent, by omega, ?_⟩
    conv_lhs => rw [whole, magnitudeUnits_normal fraction]

/-- A whole number that is the value of some double. -/
def Exact (i : Int) : Prop := ∃ x : Binary64, x.isFinite = true ∧ x.units = i * one

theorem magnitude_ofMagnitude {negative : Bool} {m : Nat} (h : m < signBit) :
    (ofMagnitude negative m).magnitude = m := by
  have sign : signBit = 2 ^ 63 := rfl
  cases negative <;> simp [magnitude, ofMagnitude, sign] at * <;> omega

theorem isNegative_ofMagnitude {negative : Bool} {m : Nat} (h : m < signBit) :
    (ofMagnitude negative m).isNegative = negative := by
  have sign : signBit = 2 ^ 63 := rfl
  cases negative <;> simp [isNegative, ofMagnitude, sign] at * <;> omega

theorem roundUnits_lt {n : Nat} (h : n ≤ 2 ^ 63) :
    roundUnits (n * one) 1 < infinityMagnitude := by
  have few : shift (n * one) ≤ unitPlace + 12 := by
    have bound := shift_mono (Nat.mul_le_mul_right one h)
    have top : 2 ^ 63 * one = 2 ^ 52 * 2 ^ (unitPlace + 11) := by
      rw [one_eq]
      ring
    have := shift_mul_pow_le (by decide : 2 ^ 52 < 2 ^ 53) (unitPlace + 11)
    rw [top] at bound
    omega
  have top : infinityMagnitude = 2047 * 2 ^ 52 := rfl
  have place : unitPlace = 1074 := rfl
  have := significand_le (n * one)
  rw [roundUnits_one]
  omega

theorem units_ofInt {i : Int} (h : i.natAbs ≤ 2 ^ 63) : (ofInt i).isFinite = true ∧
    (ofInt i).units =
      if i < 0 then -(nearest (i.natAbs * one) : Int) else nearest (i.natAbs * one) := by
  have finite := roundUnits_lt h
  have small : roundUnits (i.natAbs * one) 1 < signBit := finite.trans (by decide)
  refine ⟨?_, ?_⟩
  · rw [Binary64.isFinite, ofInt, ofRatio, magnitude_ofMagnitude small]
    simpa using finite
  · simp only [ofInt, ofRatio, units, magnitude_ofMagnitude small, isNegative_ofMagnitude small,
      magnitudeUnits_roundUnits finite, decide_eq_true_eq]

theorem units_ofInt_mono {i j : Int} (hi : i.natAbs ≤ 2 ^ 63) (hj : j.natAbs ≤ 2 ^ 63)
    (h : i ≤ j) : (ofInt i).units ≤ (ofInt j).units := by
  have grow {a b : Nat} (le : a ≤ b) : nearest (a * one) ≤ nearest (b * one) :=
    nearest_mono (Nat.mul_le_mul_right one le)
  rw [(units_ofInt hi).2, (units_ofInt hj).2]
  split <;> split
  · have := grow (a := j.natAbs) (b := i.natAbs) (by omega)
    omega
  · omega
  · omega
  · have := grow (a := i.natAbs) (b := j.natAbs) (by omega)
    omega

theorem units_ofInt_of_nearest {i : Int} (hi : i.natAbs ≤ 2 ^ 63)
    (kept : nearest (i.natAbs * one) = i.natAbs * one) : (ofInt i).units = i * one := by
  rw [(units_ofInt hi).2, kept, Nat.cast_mul]
  split
  · have sign : -(i.natAbs : Int) = i := by omega
    rw [← Int.neg_mul, sign]
  · have sign : (i.natAbs : Int) = i := by omega
    rw [sign]

theorem natAbs_units (x : Binary64) : x.units.natAbs = magnitudeUnits x.magnitude := by
  unfold units
  split <;> simp

theorem units_ofInt_of_exact {i : Int} (hi : i.natAbs ≤ 2 ^ 63) (h : Exact i) :
    (ofInt i).units = i * one := by
  obtain ⟨x, -, value⟩ := h
  refine units_ofInt_of_nearest hi ?_
  have whole : i.natAbs * one = magnitudeUnits x.magnitude := by
    rw [← natAbs_units, value, Int.natAbs_mul, Int.natAbs_natCast]
  obtain ⟨significand, place, bound, split⟩ := exists_magnitudeUnits_eq x.magnitude
  rw [whole, split, nearest_mul_pow bound]

theorem exact_of_natAbs_le {i : Int} (h : i.natAbs ≤ 2 ^ 53) : Exact i := by
  have small : i.natAbs ≤ 2 ^ 63 := h.trans (by decide)
  refine ⟨ofInt i, (units_ofInt small).1, units_ofInt_of_nearest small ?_⟩
  rw [one_eq]
  rcases h.lt_or_eq with less | same
  · exact nearest_mul_pow less unitPlace
  · have whole : i.natAbs * 2 ^ unitPlace = 2 ^ 52 * 2 ^ (unitPlace + 1) := by
      rw [same]
      ring
    rw [whole]
    exact nearest_mul_pow (by decide) _

theorem not_special {x : Binary64} (h : x.isFinite = true) :
    x.isNaN = false ∧ x.isInfinite = false := by
  simp only [isFinite, decide_eq_true_eq] at h
  simp only [isNaN, isInfinite, decide_eq_false_iff_not, beq_eq_false_iff_ne]
  omega

theorem toInt_toInt64 {x : Binary64} (finite : x.isFinite = true) :
    x.toInt64.toInt = max (-2 ^ 63) (min (2 ^ 63 - 1) x.trunc) := by
  simp only [toInt64, not_special finite, Bool.false_eq_true, if_false, Int64.toInt_minValue,
    Int64.toInt_maxValue]
  split
  · rw [Int64.toInt_minValue]
    omega
  · split
    · rw [Int64.toInt_maxValue]
      omega
    · rw [Int64.toInt_ofInt_of_le (by omega) (by omega)]
      omega

theorem toInt64_mono {x y : Binary64} (hx : x.isFinite = true) (hy : y.isFinite = true)
    (h : x.units ≤ y.units) : x.toInt64 ≤ y.toInt64 := by
  have truncs : x.trunc ≤ y.trunc := Int.tdiv_le_tdiv (by exact_mod_cast one_pos) h
  rw [Int64.le_iff_toInt_le, toInt_toInt64 hx, toInt_toInt64 hy]
  omega

theorem toInt64_of_units {x : Binary64} {n : Int64} (finite : x.isFinite = true)
    (h : x.units = n.toInt * one) : x.toInt64 = n := by
  have positive : (one : Int) ≠ 0 := by exact_mod_cast one_pos.ne'
  have lower := Int64.le_toInt n
  have upper := Int64.toInt_lt n
  rw [← Int64.toInt_inj, toInt_toInt64 finite, trunc, h, Int.mul_tdiv_cancel _ positive]
  omega

end Binary64

namespace Value

theorem natAbs_toInt_le (n : Int64) : n.toInt.natAbs ≤ 2 ^ 63 := by
  have lower := Int64.le_toInt n
  have upper := Int64.toInt_lt n
  omega

theorem natAbs_toInt_lt_pow (n : Int64) {k : Nat} (h : 63 ≤ k) : n.toInt.natAbs < 10 ^ k :=
  calc n.toInt.natAbs ≤ 2 ^ 63 := natAbs_toInt_le n
    _ < 10 ^ 63 := Nat.pow_lt_pow_left (by decide) (by decide)
    _ ≤ 10 ^ k := Nat.pow_le_pow_right (by decide) h

theorem toInt64_ofWord_mono {m n : Int64} (h : m ≤ n) :
    (ofWord m).toInt64 ≤ (ofWord n).toInt64 :=
  Binary64.toInt64_mono (Binary64.units_ofInt (natAbs_toInt_le m)).1
    (Binary64.units_ofInt (natAbs_toInt_le n)).1
    (Binary64.units_ofInt_mono (natAbs_toInt_le m) (natAbs_toInt_le n)
      (Int64.le_iff_toInt_le.mp h))

theorem toInt64_ofWord {n : Int64} (h : Binary64.Exact n.toInt) : (ofWord n).toInt64 = n :=
  Binary64.toInt64_of_units (Binary64.units_ofInt (natAbs_toInt_le n)).1
    (Binary64.units_ofInt_of_exact (natAbs_toInt_le n) h)

end Value
end SqlEngine
