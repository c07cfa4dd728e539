import SqlEngine.Execution.Selection
import SqlEngine.Proofs.Sorting.Sort

/-! Rows in the order of their sort keys. Values are compared in one order both ways round, so the
keys order any rows on whose values that order is transitive. -/

namespace SqlEngine

open Dialect Sorting

namespace Value

instance : Std.OrientedCmp sortOrder where
  eq_swap {a b} := by
    cases a <;> cases b <;>
      simp only [sortOrder, characters?, sortRank, Binary64.totalCompare] <;>
      exact Std.OrientedCmp.eq_swap

/-- The order of sorting is transitive on some values. It may fail to be on words and other numbers
together, since words are rounded to be compared with the others. -/
def TotallyOrdered (vs : List Value) : Prop :=
  ∀ a ∈ vs, ∀ b ∈ vs, ∀ c ∈ vs,
    (a.sortOrder b).isLE = true → (b.sortOrder c).isLE = true → (a.sortOrder c).isLE = true

instance (vs : List Value) : Decidable (TotallyOrdered vs) :=
  inferInstanceAs (Decidable (∀ a ∈ vs, ∀ b ∈ vs, ∀ c ∈ vs,
    (a.sortOrder b).isLE = true → (b.sortOrder c).isLE = true → (a.sortOrder c).isLE = true))

end Value

namespace Query

/-- How the values of two rows compare under one sort name. -/
def keyOrder (scope : Scope) (key : String × Bool) (a b : Row) : Ordering :=
  let order := (scope.value a key.1).sortOrder (scope.value b key.1)
  if key.2 then order else order.swap

/-- The first name under which two rows differ puts one before the other. -/
def Precedes (scope : Scope) (names : SortNames) (a b : Row) : Prop :=
  ∃ earlier key later, names = earlier ++ key :: later ∧
    (∀ k ∈ earlier, keyOrder scope k a b = .eq) ∧ keyOrder scope key a b = .lt

/-- No name tells two rows apart. -/
def tie (scope : Scope) (names : SortNames) (a b : Row) : Bool :=
  names.all fun key => keyOrder scope key a b == .eq

/-- The same rows in the order of the sort names. Rows that these do not tell apart stand as they
stood. -/
structure SortedBy (scope : Scope) (names : SortNames) (rows sorted : List Row) : Prop where
  perm : sorted.Perm rows
  ordered : sorted.Pairwise fun a b => ¬Precedes scope names b a
  stable : ∀ a ∈ rows, sorted.filter (tie scope names a) = rows.filter (tie scope names a)

variable {scope : Scope} {names : SortNames} {rows : List Row}

theorem compareRows_cons (key : String × Bool) (a b : Row) :
    compareRows scope (key :: names) a b =
      (keyOrder scope key a b).then (compareRows scope names a b) := rfl

theorem compareRows_eq_eq {a b : Row} :
    compareRows scope names a b = .eq ↔ tie scope names a b = true := by
  induction names with
  | nil => simp [compareRows, tie]
  | cons key names ih =>
    rw [compareRows_cons, Ordering.then_eq_eq, ih]
    simp [tie]

theorem compareRows_eq_lt {a b : Row} :
    compareRows scope names a b = .lt ↔ Precedes scope names a b := by
  induction names with
  | nil => simp [compareRows, Precedes]
  | cons key names ih =>
    rw [compareRows_cons, Ordering.then_eq_lt, ih]
    constructor
    · rintro (first | ⟨same, earlier, other, later, rfl, ties, less⟩)
      · exact ⟨[], key, names, rfl, by simp, first⟩
      · exact ⟨key :: earlier, other, later, rfl, List.forall_mem_cons.mpr ⟨same, ties⟩, less⟩
    · rintro ⟨earlier, other, later, split, ties, less⟩
      cases earlier with
      | nil =>
        cases split
        exact .inl less
      | cons k earlier =>
        cases split
        rw [List.forall_mem_cons] at ties
        exact .inr ⟨ties.1, earlier, other, later, rfl, ties.2, less⟩

instance (key : String × Bool) : Std.OrientedCmp (keyOrder scope key) where
  eq_swap {a b} := by
    have swapped : (scope.value a key.1).sortOrder (scope.value b key.1) =
        ((scope.value b key.1).sortOrder (scope.value a key.1)).swap := Std.OrientedCmp.eq_swap
    unfold keyOrder
    split
    · exact swapped
    · rw [swapped]

instance : Std.OrientedCmp (compareRows scope names) where
  eq_swap {a b} := by
    induction names with
    | nil => rfl
    | cons key names ih =>
      rw [compareRows_cons, compareRows_cons, Ordering.swap_then, ← ih]
      congr 1
      exact Std.OrientedCmp.eq_swap

theorem keyOrder_trans {key : String × Bool}
    (total : Value.TotallyOrdered (rows.map (scope.value · key.1))) :
    Std.TransCmp fun a b : { r // r ∈ rows } => keyOrder scope key a b where
  eq_swap {a b} := by
    show keyOrder scope key a b = (keyOrder scope key b a).swap
    exact Std.OrientedCmp.eq_swap
  isLE_trans {a b c} ab bc := by
    have among (r : { r // r ∈ rows }) : scope.value r key.1 ∈ rows.map (scope.value · key.1) :=
      List.mem_map_of_mem r.2
    unfold keyOrder at ab bc ⊢
    cases ascending : key.2 <;> simp only [ascending, if_true, Bool.false_eq_true, if_false] at *
    case true => exact total _ (among a) _ (among b) _ (among c) ab bc
    case false =>
      rw [← Std.OrientedCmp.eq_swap] at ab bc ⊢
      exact total _ (among c) _ (among b) _ (among a) bc ab

theorem compareRows_trans
    (total : ∀ key ∈ names, Value.TotallyOrdered (rows.map (scope.value · key.1))) :
    Std.TransCmp fun a b : { r // r ∈ rows } => compareRows scope names a b := by
  induction names with
  | nil => exact { eq_swap := rfl, isLE_trans := fun _ _ => rfl }
  | cons key names ih =>
    rw [List.forall_mem_cons] at total
    have first := keyOrder_trans total.1
    have rest := ih total.2
    exact inferInstanceAs (Std.TransCmp (compareLex
      (fun a b : { r // r ∈ rows } => keyOrder scope key a b)
      fun a b : { r // r ∈ rows } => compareRows scope names a b))

section

variable {α : Type} {row : α → Row} {xs sorted : List α}

theorem sortBy_eq_ok : sortBy scope names row xs = .ok sorted ↔
    sort (fun a b => compareRows scope names (row a) (row b) == .lt) xs = some sorted := by
  unfold sortBy
  split <;> simp_all

/-- Items are sorted by rows on whose values the order is transitive. -/
theorem sortBy_sorts (total : ∀ key ∈ names,
      Value.TotallyOrdered ((xs.map row).map (scope.value · key.1))) :
    ∃ sorted, sortBy scope names row xs = .ok sorted ∧
      SortOf (fun a b => compareRows scope names (row a) (row b) == .lt) (row · ∈ xs.map row)
        xs sorted := by
  have order := (OrderOn.of_cmp (compareRows_trans total)).comap row
  obtain ⟨sorted, answered, sorts⟩ := sort_sorts order fun x h => List.mem_map_of_mem h
  exact ⟨sorted, sortBy_eq_ok.mpr answered, sorts⟩

theorem sortBy_of_short (short : xs.length ≤ 20) :
    ∃ sorted, sortBy scope names row xs = .ok sorted := by
  simp only [sortBy_eq_ok, sort, if_pos short]
  exact ⟨_, rfl⟩

end

theorem sortBy_sorted
    (total : ∀ key ∈ names, Value.TotallyOrdered (rows.map (scope.value · key.1))) :
    ∃ sorted, sortBy scope names id rows = .ok sorted ∧ SortedBy scope names rows sorted := by
  rw [← List.map_id rows] at total
  obtain ⟨sorted, answered, sorts⟩ := sortBy_sorts total
  have ties (a b : Row) : tied (fun a b => compareRows scope names (id a) (id b) == .lt) a b =
      tie scope names a b := by
    rw [Bool.eq_iff_iff, ← compareRows_eq_eq, tied]
    have swapped : compareRows scope names a b = (compareRows scope names b a).swap :=
      Std.OrientedCmp.eq_swap
    cases ba : compareRows scope names b a <;> simp_all
  refine ⟨sorted, answered, sorts.perm, sorts.ordered.imp fun {a b} notLess => ?_, fun a ha => ?_⟩
  · rw [← compareRows_eq_lt]
    simpa using notLess
  · have same := sorts.stable a (by simpa using ha)
    rwa [funext (ties a)] at same

end Query
end SqlEngine
