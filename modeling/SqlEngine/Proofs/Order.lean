import SqlEngine.Proofs.Equality
import SqlEngine.Proofs.Number.Rounding
import SqlEngine.Proofs.Relation.Sorted

/-! The order that sorts values, in two steps. Values are first compared by their standing, in which
a word is as large as the double that it is read as. Two words of equal standing are then compared
exactly. Either step alone is an order. Together they are one on all values among which no double
stands between two words that are read as it. -/

namespace SqlEngine

open Std (TransCmp OrientedCmp)

namespace Binary64

theorem totalRank_injective : Function.Injective totalRank := by
  intro x y same
  have sign : signBit = 2 ^ 63 := rfl
  have hx := x.bits.toNat_lt
  have hy := y.bits.toNat_lt
  suffices x.bits.toNat = y.bits.toNat from congrArg mk (UInt64.toNat_inj.mp this)
  simp only [totalRank, isNegative, magnitude, sign, decide_eq_true_eq] at same
  split at same <;> split at same <;> omega

theorem totalRank_ofInt_mono {i j : Int} (h : i ≤ j) :
    (ofInt i).totalRank ≤ (ofInt j).totalRank := by
  have small (n : Nat) : roundUnits n 1 < signBit := by
    rw [roundUnits_one]
    exact (min_le_left _ _).trans_lt (by decide)
  have grow {m n : Nat} (le : m ≤ n) : roundUnits (m * one) 1 ≤ roundUnits (n * one) 1 :=
    roundUnits_mono (Nat.mul_le_mul_right one le)
  simp only [ofInt, ofRatio, totalRank, isNegative_ofMagnitude (small _),
    magnitude_ofMagnitude (small _), decide_eq_true_eq]
  split <;> split
  · have := grow (m := j.natAbs) (n := i.natAbs) (by omega)
    omega
  · omega
  · omega
  · have := grow (m := i.natAbs) (n := j.natAbs) (by omega)
    omega

theorem totalCompare_eq_eq {x y : Binary64} : x.totalCompare y = .eq ↔ x = y := by
  rw [totalCompare, Std.compare_eq_iff_eq, totalRank_injective.eq_iff]

theorem rank_eq_iff {x y : Binary64} :
    x.rank = y.rank ↔ x = y ∨ x.magnitude = 0 ∧ y.magnitude = 0 := by
  rw [← totalRank_injective.eq_iff]
  simp only [rank, totalRank]
  split <;> split <;> omega

def zerosApart (x y : Binary64) : Bool := x.magnitude == 0 && y.magnitude == 0 && x != y

theorem totalCompare_tie {x y : Binary64} :
    x.totalCompare y = .eq ↔ x.eq y = true ∧ x.zerosApart y = false ∨ x.isNaN = true ∧ x = y := by
  rw [totalCompare_eq_eq, eq_iff, rank_eq_iff]
  constructor
  · rintro rfl
    cases nan : x.isNaN <;> simp [zerosApart]
  · rintro (⟨⟨-, -, rfl | zeros⟩, together⟩ | ⟨-, rfl⟩)
    · rfl
    · simpa [zerosApart, zeros] using together
    · rfl

theorem totalCompare_tie_number {x y : Binary64} (h : x.isNaN = false ∨ y.isNaN = false) :
    x.totalCompare y = .eq ↔ x.eq y = true ∧ x.zerosApart y = false := by
  rw [totalCompare_tie, or_iff_left]
  rintro ⟨nan, rfl⟩
  simp [nan] at h

theorem isNaN_ofInt (i : Int) : (ofInt i).isNaN = false := by
  have finite : roundUnits (i.natAbs * one) 1 ≤ infinityMagnitude := by
    rw [roundUnits_one]
    exact min_le_left _ _
  have small : roundUnits (i.natAbs * one) 1 < signBit := finite.trans_lt (by decide)
  rw [isNaN, ofInt, ofRatio, magnitude_ofMagnitude small]
  simpa using finite

end Binary64

namespace Value

/-- The kind of a value, its truth or its double, and its characters. -/
def standing : Value → Nat × Int × String
  | null => (0, 0, "")
  | boolean b => (1, if b then 1 else 0, "")
  | integer n => (2, (ofWord n).totalRank, "")
  | real x => (2, x.totalRank, "")
  | text s => (3, 0, s)
  | date s => (3, 0, s)

def standingOrder : Value → Value → Ordering :=
  compareLex (compareOn (·.standing.1))
    (compareLex (compareOn (·.standing.2.1)) (compareOn (·.standing.2.2)))

def exactOrder : Value → Value → Ordering
  | integer m, integer n => compare m.toInt n.toInt
  | _, _ => .eq

instance : TransCmp standingOrder :=
  inferInstanceAs (TransCmp (compareLex _ (compareLex _ _)))

theorem standingOrder_eq_eq {a b : Value} :
    standingOrder a b = .eq ↔ a.standing = b.standing := by
  simp only [standingOrder, compareLex, compareOn, Ordering.then_eq_eq, Std.compare_eq_iff_eq,
    Prod.ext_iff]

theorem compare_then_of_monotone {f : Int → Int} (h : ∀ {i j}, i ≤ j → f i ≤ f j) (i j : Int) :
    (compare (f i) (f j)).then (compare i j) = compare i j := by
  rcases lt_trichotomy i j with less | rfl | greater
  · have : (compare (f i) (f j)).isLE = true := Int.isLE_compare.mpr (h less.le)
    rw [compare_lt_iff_lt.mpr less]
    cases same : compare (f i) (f j) <;> simp_all
  · simp
  · have : (compare (f i) (f j)).isGE = true := Int.isGE_compare.mpr (h greater.le)
    rw [compare_gt_iff_gt.mpr greater]
    cases same : compare (f i) (f j) <;> simp_all

/-- Since a smaller word never stands higher, the order is that of the two steps. -/
theorem sortOrder_eq (a b : Value) :
    a.sortOrder b = (standingOrder a b).then (exactOrder a b) := by
  cases a <;> cases b <;>
    simp only [sortOrder, exactOrder, standingOrder, compareLex, compareOn, standing, characters?,
      sortRank, Binary64.totalCompare, Std.ReflOrd.compare_self, Ordering.then_eq, Ordering.eq_then]
  case integer.integer m n =>
    exact (compare_then_of_monotone Binary64.totalRank_ofInt_mono m.toInt n.toInt).symm
  case boolean.boolean a b => cases a <;> cases b <;> rfl
  -- The kinds differ in the rest.
  all_goals rfl

/-- No double among some values stands between two different words among them that are read as
it. -/
def Separate (vs : List Value) : Prop :=
  ∀ m n : Int64, integer m ∈ vs → integer n ∈ vs → real (ofWord m) ∈ vs → ofWord m = ofWord n →
    m = n

theorem eq_ofWord_of_standing {m : Int64} {x : Binary64}
    (h : (integer m).standing = (real x).standing) : x = ofWord m :=
  Binary64.totalRank_injective (congrArg (·.2.1) h).symm

theorem exactOrder_trans {a b c : Value} (separate : Separate [a, b, c])
    (hab : a.standing = b.standing) (hbc : b.standing = c.standing)
    (ab : (exactOrder a b).isLE = true) (bc : (exactOrder b c).isLE = true) :
    (exactOrder a c).isLE = true := by
  cases a with
  | integer m =>
    cases c with
    | integer n =>
      cases b with
      | integer k =>
        exact Int.isLE_compare.mpr ((Int.isLE_compare.mp ab).trans (Int.isLE_compare.mp bc))
      | real x =>
        obtain rfl := eq_ofWord_of_standing hab
        have same : m = n :=
          separate m n (by simp) (by simp) (by simp) (eq_ofWord_of_standing hbc.symm)
        rw [same, exactOrder, Std.ReflOrd.compare_self]
        rfl
      | _ => simp [standing] at hab
    | _ => rfl
  | _ => rfl

theorem Separate.of_subset {vs ws : List Value} (h : Separate ws) (sub : vs ⊆ ws) : Separate vs :=
  fun m n hm hn hx => h m n (sub hm) (sub hn) (sub hx)

/-- The order of sorting is transitive just where no double stands between two words. -/
theorem totallyOrdered_iff {vs : List Value} : TotallyOrdered vs ↔ Separate vs := by
  constructor
  · intro total m n hm hn hx same
    have tie {k : Int64} (h : ofWord k = ofWord m) :
        (integer k).sortOrder (real (ofWord m)) = .eq := by
      rw [sortOrder, h, Binary64.totalCompare, Std.ReflOrd.compare_self]
    have tie' {k : Int64} (h : ofWord k = ofWord m) :
        (real (ofWord m)).sortOrder (integer k) = .eq := OrientedCmp.eq_symm (tie h)
    have le := total _ hm _ hx _ hn (by rw [tie rfl]; rfl) (by rw [tie' same.symm]; rfl)
    have ge := total _ hn _ hx _ hm (by rw [tie same.symm]; rfl) (by rw [tie' rfl]; rfl)
    exact Int64.toInt_inj.mp (le_antisymm (Int.isLE_compare.mp le) (Int.isLE_compare.mp ge))
  · intro separate a ha b hb c hc ab bc
    rw [sortOrder_eq, Ordering.isLE_then_iff_or] at ab bc ⊢
    rcases ab with less | ⟨same, ab⟩ <;> rcases bc with less' | ⟨same', bc⟩
    · exact .inl (TransCmp.lt_trans less less')
    · exact .inl (TransCmp.lt_of_lt_of_eq less same')
    · exact .inl (TransCmp.lt_of_eq_of_lt same less')
    · refine .inr ⟨TransCmp.eq_trans same same', ?_⟩
      rw [standingOrder_eq_eq] at same same'
      exact exactOrder_trans (separate.of_subset (by simp [ha, hb, hc])) same same' ab bc

instance (vs : List Value) : Decidable (Separate vs) := decidable_of_iff _ totallyOrdered_iff

theorem TotallyOrdered.transCmp {vs : List Value} (h : TotallyOrdered vs) :
    TransCmp fun a b : { v // v ∈ vs } => a.1.sortOrder b.1 where
  eq_swap {a b} := (OrientedCmp.eq_swap : a.1.sortOrder b.1 = _)
  isLE_trans {a b c} := h a.1 a.2 b.1 b.2 c.1 c.2

/-- The double that a number is compared as. -/
def double? : Value → Option Binary64
  | integer n => some (ofWord n)
  | real x => some x
  | _ => none

def zerosApart (a b : Value) : Bool :=
  match a.double?, b.double? with
  | some x, some y => x.zerosApart y
  | _, _ => false

/-- Both values are the same double, which is not a number. -/
def sameNaN : Value → Value → Bool
  | real x, real y => x.isNaN && x == y
  | _, _ => false

theorem isNaN_ofWord (n : Int64) : (ofWord n).isNaN = false := Binary64.isNaN_ofInt n.toInt

/-- Besides null, the order ties the equal values, though not the two zeros, and what is not a
number with itself. -/
theorem sortOrder_eq_eq {a b : Value} (h : b ≠ null) : a.sortOrder b = .eq ↔
    a.equals b = true ∧ a.zerosApart b = false ∨ a.sameNaN b = true := by
  cases a <;> cases b
  case null.null => exact absurd rfl h
  case integer.integer m n =>
    have exact : (integer m).sortOrder (integer n) = .eq ↔ m = n := by
      simp [sortOrder, Int64.toInt_inj]
    simp only [exact, equals, beq_iff_eq, zerosApart, double?, sameNaN, Bool.false_eq_true,
      or_false]
    refine ⟨?_, And.left⟩
    rintro rfl
    simp [Binary64.zerosApart]
  case real.real x y =>
    simpa [sortOrder, equals, zerosApart, double?, sameNaN] using Binary64.totalCompare_tie
  case integer.real m x =>
    simpa [sortOrder, equals, zerosApart, double?, sameNaN] using
      Binary64.totalCompare_tie_number (.inl (isNaN_ofWord m))
  case real.integer x m =>
    simpa [sortOrder, equals, zerosApart, double?, sameNaN] using
      Binary64.totalCompare_tie_number (.inr (isNaN_ofWord m))
  all_goals simp [sortOrder, equals, zerosApart, sameNaN, double?, characters?, sortRank]

end Value

/-- Three things are compared without contradiction. -/
structure Coherent {α : Type} (cmp : α → α → Ordering) (a b c : α) : Prop where
  le_trans : (cmp a b).isLE = true → (cmp b c).isLE = true → (cmp a c).isLE = true
  eq_trans : cmp a b = .eq → cmp b c = .eq → cmp a c = .eq

theorem Coherent.of_transCmp {α : Type} {cmp : α → α → Ordering} {xs : List α} {a b c : α}
    (trans : TransCmp fun x y : { x // x ∈ xs } => cmp x y) (ha : a ∈ xs) (hb : b ∈ xs)
    (hc : c ∈ xs) : Coherent cmp a b c :=
  ⟨@trans.isLE_trans ⟨a, ha⟩ ⟨b, hb⟩ ⟨c, hc⟩, @TransCmp.eq_trans _ _ trans ⟨a, ha⟩ ⟨b, hb⟩ ⟨c, hc⟩⟩

end SqlEngine
