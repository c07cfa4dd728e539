import Mathlib.Data.List.Forall2
import SqlEngine.Proofs.Relation.Sorted

/-! What a query without groups makes of its rows: the names by which they are sorted, the tuples
that DISTINCT keeps, and the pages of the result. -/

namespace SqlEngine

open Dialect

section

variable {α κ : Type} [BEq κ] (key : α → κ)

/-- The elements whose key no element before them in the list has. -/
def unrepeated (xs : List α) : List α :=
  (xs.zipIdx.filter fun (x, i) => !((xs.take i).map key).contains (key x)).map (·.1)

variable [LawfulBEq κ]

theorem firstsBeyond_eq (seen : List κ) (xs : List α) :
    firstsBeyond key seen xs =
      (xs.zipIdx.filter fun (x, i) =>
        !(seen ++ (xs.take i).map key).contains (key x)).map (·.1) := by
  induction xs generalizing seen with
  | nil => rfl
  | cons a rest ih =>
    have later (ks : List κ) (same : ∀ k, k ∈ ks ↔ k = key a ∨ k ∈ seen) :
        ((rest.zipIdx 1).filter fun (x, i) =>
          !(seen ++ ((a :: rest).take i).map key).contains (key x)).map (·.1) =
            firstsBeyond key ks rest := by
      rw [ih ks, List.zipIdx_succ, List.filter_map, List.map_map]
      congr 1
      refine List.filter_congr fun (x, i) _ => ?_
      simp only [Function.comp_apply, List.take_succ_cons, List.map_cons]
      rw [Bool.eq_iff_iff]
      simp only [Bool.not_eq_true', List.contains_eq_mem, decide_eq_false_iff_not, List.mem_append,
        List.mem_cons, same]
      tauto
    rw [firstsBeyond, List.zipIdx_cons, List.filter_cons]
    by_cases repeated : key a ∈ seen
    · simp only [List.contains_iff_mem.mpr repeated, if_true, List.take_zero, List.map_nil,
        List.append_nil, Bool.not_true, Bool.false_eq_true, if_false]
      rw [later seen fun k => ⟨.inr, fun h => h.elim (· ▸ repeated) id⟩]
    · have new : seen.contains (key a) = false := by simpa using repeated
      simp only [new, Bool.false_eq_true, if_false, List.take_zero, List.map_nil, List.append_nil,
        Bool.not_false, if_true, List.map_cons]
      rw [later (key a :: seen) fun k => List.mem_cons]

theorem firsts_eq (xs : List α) : firsts key xs = unrepeated key xs := firstsBeyond_eq key [] xs

end

namespace Query

/-- The name of the column that a name stands for: if it is an alias in the select list the column
of the first item of that alias, else itself. -/
inductive StandsFor (items : List SelectItem) (name : String) : String → Prop
  | aliased {before after : List SelectItem} {column : ColumnName}
      (listed : items = before ++ .column column (some name) :: after)
      (first : ∀ c, .column c (some name) ∉ before) : StandsFor items name column.text
  | itself (unlisted : ∀ c, .column c (some name) ∉ items) : StandsFor items name name

theorem behindAlias_standsFor (items : List SelectItem) (name : String) :
    StandsFor items name (behindAlias items name) := by
  unfold behindAlias
  cases found : items.findSome? _ with
  | none =>
    rw [List.findSome?_eq_none_iff] at found
    refine .itself fun c listed => ?_
    simpa using found _ listed
  | some text =>
    obtain ⟨before, item, after, split, here, earlier⟩ := List.findSome?_eq_some_iff.mp found
    have first : ∀ c, .column c (some name) ∉ before := fun c listed => by
      simpa using earlier _ listed
    cases item with
    | aggregate => cases here
    | column column alias? =>
      dsimp only at here
      split at here
      · next named =>
        cases here
        exact .aliased (named ▸ split) first
      · cases here

theorem plainSortNames_standFor (q : Query) :
    List.Forall₂ (fun key entry =>
        StandsFor (q.select.items.getD []) key.column.text entry.1 ∧ entry.2 = key.ascending)
      q.select.orderBy q.plainSortNames := by
  rw [plainSortNames, List.forall₂_map_right_iff, List.forall₂_same]
  exact fun key _ => ⟨behindAlias_standsFor _ _, rfl⟩

theorem flatMap_page {α : Type} (xs : List α) (length count : Nat) :
    (List.range count).flatMap (fun i => page (some (i * length)) (some length) xs) =
      xs.take (count * length) := by
  induction count with
  | zero => simp
  | succ count ih =>
    rw [List.range_succ, List.flatMap_append, ih, List.flatMap_singleton, Nat.succ_mul,
      List.take_add]
    rfl

/-- What the rows of a plain query come to before they are cut to a page: the sorted rows
projected, without repetitions of a tuple if so asked. -/
def wholeResult (q : Query) (distinct : Bool) (sorted : List Row) : List Row :=
  if distinct then unrepeated (tupleText q.plainColumns) (sorted.map q.project)
  else sorted.map q.project

theorem plainRows_eq (q : Query) (rows : List Row) :
    q.plainRows rows = (sortBy q.scope q.plainSortNames id rows).map fun sorted =>
      page q.select.offset q.select.limit (q.wholeResult q.select.distinct sorted) := by
  simp only [plainRows, wholeResult, firsts_eq]
  cases sortBy q.scope q.plainSortNames id rows <;> rfl

end Query
end SqlEngine
