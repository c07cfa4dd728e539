import Mathlib.Algebra.Order.Field.Power
import Mathlib.Data.Nat.Cast.Order.Field
import Mathlib.Tactic.FieldSimp
import Mathlib.Tactic.Linarith
import Mathlib.Tactic.Positivity
import SqlEngine.Proofs.Number.Rounding

/-! The shortest digits of a double read back to it, and to no other one. The reals that are rounded
to a double lie around it, half way to its neighbours, so no two doubles share one. Seventeen digits
are enough because the grid of their last place is finer than these gaps. -/

namespace SqlEngine

namespace Binary64

theorem exists_significand (m : Nat) :
    ∃ s q, m = s * 2 ^ 52 + q ∧ (s ≠ 0 → 2 ^ 52 ≤ q) ∧ q < 2 ^ 53 := by
  rcases Nat.lt_or_ge m (2 ^ 53) with small | large
  · exact ⟨0, m, by simp, fun h => absurd rfl h, small⟩
  · refine ⟨m / 2 ^ 52 - 1, 2 ^ 52 + m % 2 ^ 52, ?_, fun _ => Nat.le_add_right _ _, ?_⟩
    · omega
    · omega

theorem magnitudeUnits_next {s q : Nat} (normal : s ≠ 0 → 2 ^ 52 ≤ q) (bound : q < 2 ^ 53) :
    magnitudeUnits (s * 2 ^ 52 + q + 1) = (q + 1) * 2 ^ s := by
  rw [Nat.add_assoc]
  exact magnitudeUnits_shifted (fun h => (normal h).trans (Nat.le_succ q)) bound

theorem magnitudeUnits_lt_succ (m : Nat) : magnitudeUnits m < magnitudeUnits (m + 1) := by
  obtain ⟨s, q, rfl, normal, bound⟩ := exists_significand m
  rw [magnitudeUnits_shifted normal bound.le, magnitudeUnits_next normal bound]
  exact Nat.mul_lt_mul_of_pos_right (Nat.lt_succ_self q) (Nat.two_pow_pos s)

theorem magnitudeUnits_strictMono : StrictMono magnitudeUnits :=
  strictMono_nat_of_lt_succ magnitudeUnits_lt_succ

theorem gap_large {m : Nat} (positive : 0 < m) :
    2 * magnitudeUnits m + 10 ^ 16 * magnitudeUnits (m - 1) < 10 ^ 16 * magnitudeUnits (m + 1) := by
  obtain ⟨s, q, rfl, normal, bound⟩ := exists_significand m
  have power : 0 < 2 ^ s := Nat.two_pow_pos s
  have here : magnitudeUnits (s * 2 ^ 52 + q) = q * 2 ^ s := magnitudeUnits_shifted normal bound.le
  have next := magnitudeUnits_next normal bound
  by_cases least : s ≠ 0 ∧ q = 2 ^ 52
  · -- The gap below is half of the one above, but the significand is the least one.
    have before := magnitudeUnits_strictMono (Nat.sub_lt positive Nat.one_pos)
    rw [here] at before
    rw [here, next, least.2]
    rw [least.2] at before
    generalize magnitudeUnits _ = below at before ⊢
    nlinarith
  · have inside : s ≠ 0 → 2 ^ 52 ≤ q - 1 := fun h => by
      have := normal h
      have : q ≠ 2 ^ 52 := fun same => least ⟨h, same⟩
      omega
    have some : 0 < q := by
      rcases Nat.eq_zero_or_pos s with rfl | exponent
      · simpa using positive
      · have := normal exponent.ne'
        omega
    have previous : s * 2 ^ 52 + q - 1 = s * 2 ^ 52 + (q - 1) := by omega
    rw [here, next, previous, magnitudeUnits_shifted inside (by omega)]
    obtain ⟨p, rfl⟩ := Nat.exists_eq_succ_of_ne_zero some.ne'
    rw [Nat.succ_sub_one]
    nlinarith

end Binary64

namespace Decimal

open Binary64

/-- The real, in units, is half way to the neighbours at most; half way itself counts for even
magnitudes. -/
def Rounds (m : Nat) (u : ℚ) : Prop :=
  let low : ℚ := magnitudeUnits m + magnitudeUnits (m - 1)
  let high : ℚ := magnitudeUnits m + magnitudeUnits (m + 1)
  if m % 2 = 0 then low ≤ 2 * u ∧ 2 * u ≤ high else low < 2 * u ∧ 2 * u < high

theorem Rounds.bounds {m : Nat} {u : ℚ} (h : Rounds m u) :
    (magnitudeUnits m + magnitudeUnits (m - 1) : ℚ) ≤ 2 * u ∧
      2 * u ≤ magnitudeUnits m + magnitudeUnits (m + 1) := by
  unfold Rounds at h
  split at h
  · exact h
  · exact ⟨h.1.le, h.2.le⟩

theorem Rounds.of_lt {m : Nat} {u : ℚ}
    (low : (magnitudeUnits m + magnitudeUnits (m - 1) : ℚ) < 2 * u)
    (high : 2 * u < magnitudeUnits m + magnitudeUnits (m + 1)) : Rounds m u := by
  unfold Rounds
  split
  · exact ⟨low.le, high.le⟩
  · exact ⟨low, high⟩

theorem Rounds.not_of_lt {m n : Nat} {u : ℚ} (less : m < n) (h : Rounds m u) : ¬Rounds n u := by
  intro h'
  have mono := magnitudeUnits_strictMono.monotone
  have here : (magnitudeUnits m : ℚ) ≤ magnitudeUnits (n - 1) := by exact_mod_cast mono (by omega)
  have there : (magnitudeUnits (m + 1) : ℚ) ≤ magnitudeUnits n := by exact_mod_cast mono less
  have high := h.bounds.2
  have low := h'.bounds.1
  -- So the real is half way between neighbours, one of which is odd.
  have same : (magnitudeUnits (m + 1) : ℚ) = magnitudeUnits n := by linarith
  have next : m + 1 = n := magnitudeUnits_strictMono.injective (by exact_mod_cast same)
  by_cases even : m % 2 = 0
  · have low : (magnitudeUnits n + magnitudeUnits (n - 1) : ℚ) < 2 * u := by
      rw [Rounds, if_neg (by omega)] at h'
      exact h'.1
    linarith
  · have high : 2 * u < magnitudeUnits m + magnitudeUnits (m + 1) := by
      rw [Rounds, if_neg even] at h
      exact h.2
    linarith

/-- A real is rounded to one magnitude at most. -/
theorem Rounds.eq {m n : Nat} {u : ℚ} (h : Rounds m u) (h' : Rounds n u) : m = n := by
  rcases lt_trichotomy m n with less | same | greater
  · exact absurd h' (h.not_of_lt less)
  · exact same
  · exact absurd h (h'.not_of_lt greater)

theorem rounds_zero : Rounds 0 0 := by
  have zero : magnitudeUnits 0 = 0 := magnitudeUnits_small (by decide)
  simp [Rounds, zero]

theorem shiftRatio_spec (num : Nat) {den : Nat} (positive : 0 < den) (n : Int) :
    0 < (shiftRatio num den n).2 ∧
      ((shiftRatio num den n).1 : ℚ) / (shiftRatio num den n).2 = num / den * 10 ^ n := by
  unfold shiftRatio
  split
  · next up =>
    obtain ⟨k, rfl⟩ := Int.eq_ofNat_of_zero_le up
    refine ⟨positive, ?_⟩
    simp only [Int.toNat_natCast, zpow_natCast, Nat.pow_eq]
    push_cast
    ring
  · next down =>
    obtain ⟨k, rfl⟩ : ∃ k : Nat, n = -(k : Int) := ⟨n.natAbs, by omega⟩
    refine ⟨Nat.mul_pos positive (Nat.pow_pos (by decide)), ?_⟩
    simp only [Int.natAbs_neg, Int.natAbs_natCast, zpow_neg, zpow_natCast, Nat.pow_eq]
    push_cast
    field_simp

def Digits.units (d : Digits) : ℚ := d.digits * 10 ^ d.exponent * one

theorem readsBack_iff {m d : Nat} {exponent : Int} :
    readsBack m d exponent = true ↔ Rounds m (Digits.units ⟨d, exponent⟩) := by
  have spec := shiftRatio_spec (2 * d * one) Nat.one_pos exponent
  unfold readsBack Rounds
  generalize shiftRatio (2 * d * one) 1 exponent = ratio at spec
  obtain ⟨num, den⟩ := ratio
  obtain ⟨positive, value⟩ := spec
  have positive : (0 : ℚ) < den := by exact_mod_cast positive
  have twice : 2 * Digits.units ⟨d, exponent⟩ = num / den := by
    rw [value, Digits.units]
    push_cast
    ring
  simp only [twice]
  split
  · rw [Bool.and_eq_true, decide_eq_true_eq, decide_eq_true_eq, le_div_iff₀ positive,
      div_le_iff₀ positive]
    norm_cast
  · rw [Bool.and_eq_true, decide_eq_true_eq, decide_eq_true_eq, lt_div_iff₀ positive,
      div_lt_iff₀ positive]
    norm_cast

theorem scaleUp_spec {num den fuel start : Nat} (enough : den ≤ num * 10 ^ (start + fuel)) :
    den ≤ num * 10 ^ scaleUp num den fuel start := by
  induction fuel generalizing start with
  | zero => exact enough
  | succ fuel ih =>
    unfold scaleUp
    split
    · next found => exact found
    · exact ih (by rwa [Nat.add_right_comm, Nat.add_assoc])

theorem pow_digitCount_le {n : Nat} (positive : 0 < n) : 10 ^ (digitCount n - 1) ≤ n := by
  by_contra less
  unfold digitCount at less
  rcases Nat.eq_zero_or_pos ((Nat.toDigits 10 n).length - 1) with one | more
  · rw [one] at less
    omega
  · have shorter := (Nat.length_toDigits_le_iff (by decide) more).mpr (Nat.lt_of_not_le less)
    omega

theorem pow_leadingExponent_le {num den : Nat} (positive : 0 < den) (some : 0 < num)
    (enough : den ≤ 10 ^ (1 + 400)) : (10 : ℚ) ^ leadingExponent num den ≤ num / den := by
  have den_pos : (0 : ℚ) < den := by exact_mod_cast positive
  unfold leadingExponent
  split
  · next large =>
    have whole : 0 < num / den := Nat.div_pos large positive
    have counted : 1 ≤ digitCount (num / den) := Nat.length_toDigits_pos
    have exponent : (digitCount (num / den) : Int) - 1 =
        ((digitCount (num / den) - 1 : Nat) : Int) := by omega
    have power : (10 ^ (digitCount (num / den) - 1) : ℚ) ≤ (num / den : Nat) := by
      exact_mod_cast pow_digitCount_le whole
    rw [exponent, zpow_natCast]
    exact power.trans Nat.cast_div_le
  · have found : den ≤ num * 10 ^ scaleUp num den 400 1 :=
      scaleUp_spec (enough.trans (Nat.le_mul_of_pos_left _ some))
    have found : (den : ℚ) ≤ num * 10 ^ scaleUp num den 400 1 := by exact_mod_cast found
    rw [zpow_neg, zpow_natCast, inv_le_iff_one_le_mul₀ (by positivity), div_mul_eq_mul_div,
      one_le_div den_pos]
    exact found

theorem rounds_below_or_above {m : Nat} (positive : 0 < m) {step below : ℚ}
    (fine : step * 10 ^ 16 ≤ magnitudeUnits m) (lower : below ≤ magnitudeUnits m)
    (upper : (magnitudeUnits m : ℚ) < below + step) : Rounds m below ∨ Rounds m (below + step) := by
  have gap : (2 * magnitudeUnits m + 10 ^ 16 * magnitudeUnits (m - 1) : ℚ) <
      10 ^ 16 * magnitudeUnits (m + 1) := by exact_mod_cast gap_large positive
  have previous : (magnitudeUnits (m - 1) : ℚ) < magnitudeUnits m := by
    exact_mod_cast magnitudeUnits_strictMono (Nat.sub_lt positive Nat.one_pos)
  have next : (magnitudeUnits m : ℚ) < magnitudeUnits (m + 1) := by
    exact_mod_cast magnitudeUnits_lt_succ m
  rcases lt_or_ge (magnitudeUnits m + magnitudeUnits (m - 1) : ℚ) (2 * below) with near | far
  · exact .inl (.of_lt near (by linarith))
  · exact .inr (.of_lt (by linarith) (by linarith))

theorem nearestOnGrid?_isSome {m : Nat} (positive : 0 < m) {exponent : Int}
    (fine : (10 : ℚ) ^ exponent * 10 ^ 16 ≤ magnitudeUnits m / one) :
    (nearestOnGrid? m exponent).isSome = true := by
  have one_pos : (0 : ℚ) < one := by exact_mod_cast Binary64.one_pos
  have step_pos : (0 : ℚ) < 10 ^ exponent := by positivity
  have spec := shiftRatio_spec (magnitudeUnits m) Binary64.one_pos (-exponent)
  unfold nearestOnGrid?
  generalize shiftRatio (magnitudeUnits m) one (-exponent) = ratio at spec
  obtain ⟨num, den⟩ := ratio
  obtain ⟨den_pos, value⟩ := spec
  have den_pos' : (0 : ℚ) < den := by exact_mod_cast den_pos
  have units : (magnitudeUnits m : ℚ) = num / den * (10 ^ exponent * one) := by
    rw [value, zpow_neg]
    field_simp
  have point (d : Nat) : Digits.units ⟨d, exponent⟩ = d * (10 ^ exponent * one) := by
    rw [Digits.units, mul_assoc]
  have lower : ((num / den : Nat) : ℚ) ≤ num / den := Nat.cast_div_le
  have upper : (num : ℚ) / den < ((num / den + 1 : Nat) : ℚ) := by
    rw [div_lt_iff₀ den_pos']
    exact_mod_cast (Nat.div_lt_iff_lt_mul den_pos).mp (Nat.lt_succ_self _)
  have found : readsBack m (num / den) exponent = true ∨
      readsBack m (num / den + 1) exponent = true := by
    have scale_pos : (0 : ℚ) < 10 ^ exponent * one := mul_pos step_pos one_pos
    rw [readsBack_iff, readsBack_iff, point, point, Nat.cast_add, Nat.cast_one, add_mul, one_mul]
    refine rounds_below_or_above positive ?_ ?_ ?_
    · rw [le_div_iff₀ one_pos] at fine
      linarith
    · rw [units]
      exact mul_le_mul_of_nonneg_right lower scale_pos.le
    · rw [Nat.cast_add, Nat.cast_one] at upper
      have scaled := mul_lt_mul_of_pos_right upper scale_pos
      rw [units]
      linarith
  dsimp only
  generalize readsBack m (num / den) exponent = below at found ⊢
  generalize readsBack m (num / den + 1) exponent = above at found ⊢
  cases below <;> cases above <;> simp at found ⊢

theorem nearestOnGrid?_rounds {m d : Nat} {exponent : Int}
    (h : nearestOnGrid? m exponent = some d) : Rounds m (Digits.units ⟨d, exponent⟩) := by
  unfold nearestOnGrid? at h
  generalize shiftRatio (magnitudeUnits m) one (-exponent) = ratio at h
  dsimp only at h
  rw [← readsBack_iff]
  split at h
  · next below above =>
    obtain rfl := Option.some.inj h
    split
    · exact above
    · exact below
  · next below _ => exact Option.some.inj h ▸ below
  · next _ above => exact Option.some.inj h ▸ above
  · cases h

theorem shortestFrom_rounds {m : Nat} {top : Int} {fuel count : Nat}
    (hit : ∃ k < fuel, (nearestOnGrid? m (top - (count + k : Nat))).isSome = true) :
    Rounds m (shortestFrom m top fuel count).units := by
  induction fuel generalizing count with
  | zero =>
    obtain ⟨k, none, -⟩ := hit
    omega
  | succ fuel ih =>
    unfold shortestFrom
    dsimp only
    split
    · next d found =>
      have rounds := nearestOnGrid?_rounds found
      split
      · next zero =>
        -- A last digit that is zero is left out.
        have same : Digits.units ⟨d / 10, top - count + 1⟩ = Digits.units ⟨d, top - count⟩ := by
          have whole : d = d / 10 * 10 := by omega
          have power : (10 : ℚ) ^ (top - count + 1) = 10 ^ (top - count) * 10 :=
            zpow_add_one₀ (by norm_num) _
          conv_rhs => rw [Digits.units, whole]
          rw [Digits.units, power]
          push_cast
          ring
        rwa [same]
      · exact rounds
    · next none =>
      refine ih ?_
      obtain ⟨k, inside, found⟩ := hit
      cases k with
      | zero => simp [none] at found
      | succ k => exact ⟨k, by omega, by rwa [Nat.add_right_comm, Nat.add_assoc]⟩

theorem one_le_pow {k : Nat} (h : unitPlace ≤ 3 * k) : one ≤ 10 ^ k :=
  calc one = 2 ^ unitPlace := one_eq
    _ ≤ 2 ^ (3 * k) := Nat.pow_le_pow_right (by decide) h
    _ = 8 ^ k := Nat.pow_mul ..
    _ ≤ 10 ^ k := Nat.pow_le_pow_left (by decide) k

/-- The shortest digits of a positive double are rounded to it. -/
theorem shortest_rounds {m : Nat} (positive : 0 < m) : Rounds m (shortest m).units := by
  have some : 0 < magnitudeUnits m :=
    (Nat.zero_le _).trans_lt (magnitudeUnits_strictMono (Nat.sub_lt positive Nat.one_pos))
  have top := pow_leadingExponent_le Binary64.one_pos some (one_le_pow (by decide))
  have seventeenth (e : Int) : (10 : ℚ) ^ (e - (0 + 16 : Nat)) * 10 ^ 16 = 10 ^ e := by
    rw [zpow_sub₀ (by norm_num), zpow_natCast]
    exact div_mul_cancel₀ _ (by norm_num)
  exact shortestFrom_rounds ⟨16, by decide,
    nearestOnGrid?_isSome positive ((seventeenth _).trans_le top)⟩

end Decimal
end SqlEngine
