import SqlEngine.Condition.Truth
import SqlEngine.Proofs.Order

/-! The operators of conditions on words. Equality and sorting compare words exactly. The other
operators compare the doubles that the words are read as, which keeps the order of words but not
all of their differences. -/

namespace SqlEngine

namespace Binary64

theorem rank_eq_of_totalRank (x : Binary64) :
    x.rank = if x.totalRank < 0 then x.totalRank + 1 else x.totalRank := by
  unfold rank totalRank
  cases x.isNegative
  · simp
  · simp
    omega

theorem rank_ofInt_mono {i j : Int} (h : i ≤ j) : (ofInt i).rank ≤ (ofInt j).rank := by
  have order := totalRank_ofInt_mono h
  rw [rank_eq_of_totalRank, rank_eq_of_totalRank]
  split <;> split <;> omega

theorem compare?_ofInt (i j : Int) :
    (ofInt i).compare? (ofInt j) = some (compare (ofInt i).rank (ofInt j).rank) := by
  rw [compare?, isNaN_ofInt, isNaN_ofInt]
  rfl

theorem magnitude_ofInt_eq_zero {i : Int} : (ofInt i).magnitude = 0 ↔ i = 0 := by
  have small (n : Nat) : roundUnits n 1 < signBit := by
    rw [roundUnits_one]
    exact (min_le_left _ _).trans_lt (by decide)
  rw [ofInt, ofRatio, magnitude_ofMagnitude (small _), roundUnits_eq_zero, Nat.mul_eq_zero,
    or_iff_left one_pos.ne', Int.natAbs_eq_zero]

theorem rank_ofInt_inj {i j : Int} : (ofInt i).rank = (ofInt j).rank ↔ ofInt i = ofInt j := by
  rw [rank_eq_iff, or_iff_left_iff_imp, magnitude_ofInt_eq_zero, magnitude_ofInt_eq_zero]
  rintro ⟨rfl, rfl⟩
  rfl

end Binary64

namespace Value

theorem order?_words (a b : Int64) :
    (integer a).order? (integer b) = some (compare (ofWord a).rank (ofWord b).rank) :=
  Binary64.compare?_ofInt a.toInt b.toInt

theorem rank_ofWord_inj {a b : Int64} : (ofWord a).rank = (ofWord b).rank ↔ ofWord a = ofWord b :=
  Binary64.rank_ofInt_inj

theorem compare_rank_ofWord {a b : Int64} (apart : a = b ∨ ofWord a ≠ ofWord b) :
    compare (ofWord a).rank (ofWord b).rank = compare a.toInt b.toInt := by
  rcases apart with rfl | differ
  · simp
  · have ranks : (ofWord a).rank ≠ (ofWord b).rank := fun same => differ (rank_ofWord_inj.mp same)
    rcases lt_trichotomy a.toInt b.toInt with less | same | greater
    · have mono : (ofWord a).rank ≤ (ofWord b).rank := Binary64.rank_ofInt_mono less.le
      rw [compare_lt_iff_lt.mpr less, compare_lt_iff_lt.mpr (lt_of_le_of_ne mono ranks)]
    · exact absurd (congrArg ofWord (Int64.toInt_inj.mp same)) differ
    · have mono : (ofWord b).rank ≤ (ofWord a).rank := Binary64.rank_ofInt_mono greater.le
      rw [compare_gt_iff_gt.mpr greater, compare_gt_iff_gt.mpr (lt_of_le_of_ne mono ranks.symm)]

theorem ofWord_apart {a b : Int64} (ha : a.toInt.natAbs ≤ 2 ^ 53) (hb : b.toInt.natAbs ≤ 2 ^ 53) :
    a = b ∨ ofWord a ≠ ofWord b := by
  refine or_iff_not_imp_right.mpr fun same => ?_
  rw [← toInt64_ofWord (Binary64.exact_of_natAbs_le ha),
    ← toInt64_ofWord (Binary64.exact_of_natAbs_le hb), not_not.mp same]

end Value

namespace Dialect

namespace Comparison

def Relates (op : Comparison) (i j : Int) : Prop :=
  match op with
  | equal => i = j
  | notEqual => i ≠ j
  | less => i < j
  | greater => i > j
  | lessEqual => i ≤ j
  | greaterEqual => i ≥ j

/-- What an operator says of two things that are compared. -/
def admits (op : Comparison) (order : Ordering) : Bool :=
  match op with
  | equal => order.isEq
  | notEqual => order.isNe
  | less => order.isLT
  | greater => order.isGT
  | lessEqual => order.isLE
  | greaterEqual => order.isGE

theorem admits_compare (op : Comparison) (i j : Int) :
    op.admits (compare i j) = true ↔ op.Relates i j := by
  rcases lt_trichotomy i j with less | rfl | greater
  · rw [compare_lt_iff_lt.mpr less]
    cases op <;> simp [admits, Relates] <;> omega
  · rw [Std.ReflOrd.compare_self]
    cases op <;> simp [admits, Relates]
  · rw [compare_gt_iff_gt.mpr greater]
    cases op <;> simp [admits, Relates] <;> omega

theorem holds_words (op : Comparison) (a b : Int64) :
    op.holds (.integer a) (.integer b) =
      if op = equal ∨ op = notEqual then op.admits (compare a.toInt b.toInt)
      else op.admits (compare (Value.ofWord a).rank (Value.ofWord b).rank) := by
  have exact : (a == b) = (compare a.toInt b.toInt).isEq := by
    rw [Bool.eq_iff_iff, Ordering.isEq_iff_eq_eq, Std.compare_eq_iff_eq, Int64.toInt_inj,
      beq_iff_eq]
  cases op
  case equal => simpa [holds, admits, Value.equals] using exact
  case notEqual =>
    simp only [holds, Value.isNull, Value.equals, exact, admits]
    cases compare a.toInt b.toInt <;> rfl
  all_goals
    simp only [holds, Value.order?_words, admits]
    cases compare (Value.ofWord a).rank (Value.ofWord b).rank <;> rfl

/-- All operators are right about two words just if these are the same or read as different
doubles. -/
theorem holds_words_iff (a b : Int64) :
    (∀ op : Comparison, op.holds (.integer a) (.integer b) = true ↔ op.Relates a.toInt b.toInt) ↔
      a = b ∨ Value.ofWord a ≠ Value.ofWord b := by
  constructor
  · intro all
    refine or_iff_not_imp_right.mpr fun same => ?_
    -- Words that are read as one double are at most as large as each other.
    have ranks : (Value.ofWord a).rank = (Value.ofWord b).rank :=
      congrArg Binary64.rank (not_not.mp same)
    have le := (all lessEqual).mp (by simp [holds_words, ranks, admits])
    have ge := (all greaterEqual).mp (by simp [holds_words, ranks, admits])
    exact Int64.toInt_inj.mp (le_antisymm le ge)
  · intro apart op
    rw [holds_words, Value.compare_rank_ofWord apart, ite_self, admits_compare]

end Comparison

/-- Where a condition compares a column that holds a word with another word, what the operators
should say of the two is what the order of sorting says. They are equal in the condition just if
they are the same. All six operators say what they should just if the words are the same or are read
as different doubles, which is so of all words up to the power of two of the digits of a double. -/
theorem Condition.compares_words {scope : Scope} {row : Row} {column : String} {a : Int64}
    (read : scope.value row column = .integer a) (b : Int64) :
    let meets := fun op : Comparison =>
      satisfies scope (some (.test column (.compare op (.integer b)))) row = true
    (∀ op : Comparison, op.Relates a.toInt b.toInt ↔
      op.admits ((Value.integer a).sortOrder (.integer b)) = true) ∧
    ((meets .equal ↔ a.toInt = b.toInt) ∧ (meets .notEqual ↔ a.toInt ≠ b.toInt)) ∧
    ((∀ op, meets op ↔ op.Relates a.toInt b.toInt) ↔ a = b ∨ Value.ofWord a ≠ Value.ofWord b) ∧
    (a.toInt.natAbs ≤ 2 ^ 53 → b.toInt.natAbs ≤ 2 ^ 53 →
      a = b ∨ Value.ofWord a ≠ Value.ofWord b) := by
  intro meets
  have meets_iff (op : Comparison) : meets op ↔ op.holds (.integer a) (.integer b) = true := by
    simp only [meets, satisfies, holds, Test.holds, read]
  refine ⟨fun op => (op.admits_compare _ _).symm, ⟨?_, ?_⟩, ?_, Value.ofWord_apart⟩
  · rw [meets_iff, Comparison.holds_words, if_pos (.inl rfl), Comparison.admits_compare]
    rfl
  · rw [meets_iff, Comparison.holds_words, if_pos (.inr rfl), Comparison.admits_compare]
    rfl
  · simp only [meets_iff]
    exact Comparison.holds_words_iff a b

/-- Two neighbours beyond the digits of a double, one of which is rounded away from the other. -/
theorem Condition.compares_words_rounded :
    let row := Row.ofEntries [("a", .integer 9007199254740993)]
    ∀ op : Comparison, satisfies (.ofTable "t" none)
        (some (.test "t.a" (.compare op (.integer 9007199254740994)))) row = true ↔
      op.Relates (9007199254740993 : Int64).toInt (9007199254740994 : Int64).toInt := by
  intro row
  have read : (Scope.ofTable "t" none).value row "t.a" = .integer 9007199254740993 := by decide
  exact (compares_words read 9007199254740994).2.2.1.mpr (.inr (by decide +kernel))

/-- Two neighbours that are read as one double: sorting tells them apart, and a condition holds that
the less is as great as the greater. -/
theorem Condition.words_astray :
    let row := Row.ofEntries [("a", .integer 9007199254740992)]
    let meets := fun op : Comparison => satisfies (.ofTable "t" none)
      (some (.test "t.a" (.compare op (.integer 9007199254740993)))) row
    (Value.integer 9007199254740992).sortOrder (.integer 9007199254740993) = .lt ∧
      meets .notEqual = true ∧ meets .less = false ∧ meets .greaterEqual = true := by
  decide +kernel

end Dialect
end SqlEngine
