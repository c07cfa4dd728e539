import SqlEngine.Proofs.Number.Shortest

/-! Sums and quotients of doubles. Rounding never leads past the value of a double, so that doubles
bound the rounded result just as they bound the exact one. -/

namespace SqlEngine.Binary64

theorem divideHalfEven_mul_mul {k : Nat} (h : 0 < k) (n d : Nat) :
    divideHalfEven (n * k) (d * k) = divideHalfEven n d := by
  have less : 2 * (n % d * k) < d * k ↔ 2 * (n % d) < d := by
    rw [← Nat.mul_assoc, Nat.mul_lt_mul_right h]
  have more : d * k < 2 * (n % d * k) ↔ d < 2 * (n % d) := by
    rw [← Nat.mul_assoc, Nat.mul_lt_mul_right h]
  simp only [divideHalfEven, Nat.mul_div_mul_right n d h, Nat.mul_mod_mul_right, less, more]

theorem roundUnits_mul {d : Nat} (h : 0 < d) (n : Nat) : roundUnits (n * d) d = roundUnits n 1 := by
  rw [roundUnits_eq, roundUnits_one, Nat.mul_div_cancel n h, Nat.mul_comm d,
    divideHalfEven_mul_mul h]

theorem roundUnits_between {num den low high : Nat} (h : 0 < den) (lower : low * den ≤ num)
    (upper : num ≤ high * den) (lowKept : nearest low = low) (highKept : nearest high = high)
    (finite : roundUnits high 1 < infinityMagnitude) :
    roundUnits num den < infinityMagnitude ∧ low ≤ magnitudeUnits (roundUnits num den) ∧
      magnitudeUnits (roundUnits num den) ≤ high := by
  have above : roundUnits low 1 ≤ roundUnits num den := by
    rw [← roundUnits_mul h]
    exact roundUnits_mono lower
  have below : roundUnits num den ≤ roundUnits high 1 := by
    rw [← roundUnits_mul h]
    exact roundUnits_mono upper
  have lowUnits : magnitudeUnits (roundUnits low 1) = low := by
    rw [magnitudeUnits_roundUnits (by omega), lowKept]
  have highUnits : magnitudeUnits (roundUnits high 1) = high := by
    rw [magnitudeUnits_roundUnits finite, highKept]
  refine ⟨by omega, ?_, ?_⟩
  · rw [← lowUnits]
    exact magnitudeUnits_strictMono.monotone above
  · rw [← highUnits]
    exact magnitudeUnits_strictMono.monotone below

theorem ofMagnitude_finite {negative : Bool} {m : Nat} (h : m < infinityMagnitude) :
    (ofMagnitude negative m).isFinite = true ∧
      (ofMagnitude negative m).units.natAbs = magnitudeUnits m := by
  have small : m < signBit := h.trans (by decide)
  rw [isFinite, natAbs_units, magnitude_ofMagnitude small]
  exact ⟨decide_eq_true h, rfl⟩

theorem units_ofMagnitude {m : Nat} (h : m < infinityMagnitude) :
    (ofMagnitude false m).units = magnitudeUnits m := by
  have small : m < signBit := h.trans (by decide)
  rw [units, isNegative_ofMagnitude small, magnitude_ofMagnitude small]
  rfl

theorem units_ofNat {n : Nat} (h : n ≤ 2 ^ 53) :
    (ofNat n).isFinite = true ∧ (ofNat n).isNegative = false ∧ (ofNat n).units = n * one := by
  have same : ofNat n = ofInt n := by
    rw [ofNat, ofInt, Int.natAbs_natCast, decide_eq_false (by omega)]
  have small : (n : Int).natAbs ≤ 2 ^ 63 := by
    rw [Int.natAbs_natCast]
    omega
  have finite := (roundUnits_lt small).trans (by decide : infinityMagnitude < signBit)
  refine ⟨same ▸ (units_ofInt small).1, isNegative_ofMagnitude finite, ?_⟩
  rw [same, units_ofInt_of_exact small (exact_of_natAbs_le h)]

theorem div_eq {x y : Binary64} (hx : x.isFinite = true) (hy : y.isFinite = true)
    (nonzero : y.magnitude ≠ 0) : x.div y =
      ofRatio (x.isNegative != y.isNegative) x.units.natAbs y.units.natAbs := by
  have different : (y.magnitude == 0) = false := beq_eq_false_iff_ne.mpr nonzero
  simp only [div, not_special hx, not_special hy, different, Bool.false_eq_true, if_false]

theorem magnitude_ne_zero {x : Binary64} (h : x.units ≠ 0) : x.magnitude ≠ 0 := by
  intro zero
  refine h (Int.natAbs_eq_zero.mp ?_)
  rw [natAbs_units, zero, magnitudeUnits_small (by decide)]

/-- The quotient of whole numbers lies between the doubles that the exact one lies between. -/
theorem units_div {a b low high : Nat} (ha : a ≤ 2 ^ 53) (hb : b ≤ 2 ^ 53) (positive : 0 < b)
    (lower : low * b ≤ a * one) (upper : a * one ≤ high * b) (lowKept : nearest low = low)
    (highKept : nearest high = high) (finite : roundUnits high 1 < infinityMagnitude) :
    ∃ n : Nat, ((ofNat a).div (ofNat b)).isFinite = true ∧
      ((ofNat a).div (ofNat b)).units = n ∧ low ≤ n ∧ n ≤ high := by
  obtain ⟨finiteA, plusA, unitsA⟩ := units_ofNat ha
  obtain ⟨finiteB, plusB, unitsB⟩ := units_ofNat hb
  have denominator : 0 < b * one := Nat.mul_pos positive one_pos
  have nonzero : (ofNat b).magnitude ≠ 0 := by
    refine magnitude_ne_zero ?_
    rw [unitsB]
    exact_mod_cast denominator.ne'
  have natAbs (n : Nat) : (n * one : Int).natAbs = n * one := by
    rw [Int.natAbs_mul, Int.natAbs_natCast, Int.natAbs_natCast]
  have quotient : (ofNat a).div (ofNat b) =
      ofMagnitude false (roundUnits (a * one * one) (b * one)) := by
    rw [div_eq finiteA finiteB nonzero, plusA, plusB, unitsA, unitsB, natAbs, natAbs, ofRatio,
      bne_self_eq_false]
  have above : low * (b * one) ≤ a * one * one := by
    rw [← Nat.mul_assoc]
    exact Nat.mul_le_mul_right one lower
  have below : a * one * one ≤ high * (b * one) := by
    rw [← Nat.mul_assoc]
    exact Nat.mul_le_mul_right one upper
  obtain ⟨bound, above, below⟩ :=
    roundUnits_between denominator above below lowKept highKept finite
  rw [quotient]
  exact ⟨_, (ofMagnitude_finite bound).1, units_ofMagnitude bound, above, below⟩

theorem units_add {x y : Binary64} {m n : Nat} (hx : x.isFinite = true) (hy : y.isFinite = true)
    (xUnits : x.units = m) (yUnits : y.units = n)
    (finite : roundUnits (m + n) 1 < infinityMagnitude) : (x.add y).units = nearest (m + n) := by
  simp only [add, not_special hx, not_special hy, Bool.false_eq_true, if_false, xUnits, yUnits]
  split
  · next zero =>
    have nothing : m + n = 0 := by omega
    refine (Int.natAbs_eq_zero.mp ?_).trans (by rw [nothing]; rfl)
    rw [(ofMagnitude_finite (by decide)).2, magnitudeUnits_small (by decide)]
  · have plus : decide ((m : Int) + n < 0) = false := decide_eq_false (by omega)
    have size : ((m : Int) + n).natAbs = m + n := by omega
    rw [plus, size, units_ofMagnitude finite, magnitudeUnits_roundUnits finite]

theorem ceil_eq {x : Binary64} {k : Int} (above : (k - 1) * one < x.units)
    (atMost : x.units ≤ k * one) : x.ceil = k := by
  have positive : (0 : Int) < one := by exact_mod_cast one_pos
  have quotient : -x.units / (one : Int) = -k := by
    refine le_antisymm ?_ ?_
    · refine Int.lt_add_one_iff.mp ((Int.ediv_lt_iff_lt_mul positive).mpr ?_)
      linarith
    · refine (Int.le_ediv_iff_mul_le positive).mpr ?_
      linarith
  rw [ceil, quotient, Int.neg_neg]

end SqlEngine.Binary64
