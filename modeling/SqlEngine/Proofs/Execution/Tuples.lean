import Mathlib.Data.List.Induction
import SqlEngine.Proofs.Execution.Joined
import SqlEngine.Proofs.Lists
import SqlEngine.Proofs.Relation.Join

/-! Inner joins as tuples of stored rows, one of each table. Nested loops go over them in the order
of the store, and each merged row is made of one. -/

namespace SqlEngine

open Dialect

namespace Dialect.Join

/-- Whether an ON equality holds of the rows so far, merged into one, and a row of the joined table.
An operand with a qualifier is read from the table that this names. Without one, the right operand
is a column of the joined table if the left one is not. -/
def meets (j : Join) (scope : Scope) (left right : Row) : Bool :=
  if j.owns scope j.right || (j.right.qualifier.isNone && !j.owns scope j.left) then
    (scope.value left j.left.text).equals (right.get j.right.column)
  else if j.owns scope j.left then
    (scope.value left j.right.text).equals (right.get j.left.column)
  else (scope.value left j.left.text).equals (scope.value left j.right.text)

def Crosses (j : Join) (scope : Scope) : Prop :=
  j.owns scope j.left = true ∨ j.owns scope j.right = true ∨ j.right.qualifier = none

end Dialect.Join

theorem JoinPlan.agree_eq_meets {j : Join} {scope : Scope} (crosses : j.Crosses scope)
    (leftColumns rightColumns : List String) (left right : Row) :
    (JoinPlan.ofJoin j scope leftColumns rightColumns).agree left right =
      j.meets scope left right := by
  have bare : j.owns scope j.left = false → j.owns scope j.right = false →
      j.right.qualifier.isNone = true := by
    intro l r
    simpa [Join.Crosses, l, r] using crosses
  simp only [agree, ofJoin, JoinKeys.ofJoin, Join.meets]
  cases l : j.owns scope j.left <;> cases r : j.owns scope j.right <;> simp_all

namespace Query

/-- The rows of a tuple merged into one: first that of the base table, then one for each of the
first joined tables. -/
def merged (q : Query) : List StoredRow → Row
  | [] => .empty
  | base :: rest => (q.joined.zip rest).foldl
      (fun row entry => mergeRows entry.1.1.table.binding row entry.2.data) base.data

def Satisfies (q : Query) (tuple : List StoredRow) : Prop :=
  ∀ i j t r, q.joined[i]? = some (j, t) → tuple[i + 1]? = some r →
    j.meets q.scope (q.merged (tuple.take (i + 1))) r.data = true

variable {q : Query} {before after : List (Join × Table)} {j : Join} {t : Table}
  {tuple : List StoredRow}

theorem merged_concat (split : q.joined = before ++ (j, t) :: after)
    (length : tuple.length = before.length + 1) (r : StoredRow) :
    q.merged (tuple ++ [r]) = mergeRows j.table.binding (q.merged tuple) r.data := by
  cases tuple with
  | nil => cases length
  | cons base rest =>
    have length : before.length = rest.length := by simpa using length.symm
    have all : q.joined.zip (rest ++ [r]) = before.zip rest ++ [((j, t), r)] := by
      rw [split, List.zip_append length, List.zip_cons_cons, List.zip_nil_right]
    have first : q.joined.zip rest = before.zip rest := by
      rw [split, ← List.append_nil rest, List.zip_append length, List.zip_nil_right]
      simp
    rw [List.cons_append, merged, merged, all, first, List.foldl_append]
    rfl

theorem satisfies_concat (split : q.joined = before ++ (j, t) :: after)
    (length : tuple.length = before.length + 1) (r : StoredRow) :
    q.Satisfies (tuple ++ [r]) ↔
      q.Satisfies tuple ∧ j.meets q.scope (q.merged tuple) r.data = true := by
  have here : q.joined[before.length]? = some (j, t) := by simp [split]
  constructor
  · intro all
    refine ⟨fun i k u r' joined listed => ?_, ?_⟩
    · obtain ⟨inside, -⟩ := List.getElem?_eq_some_iff.mp listed
      have met := all i k u r' joined (by rw [List.getElem?_append_left inside, listed])
      rwa [List.take_append_of_le_length (Nat.le_of_lt inside)] at met
    · have met := all before.length j t r here (by simp [← length])
      rwa [← length, List.take_left] at met
  · rintro ⟨first, last⟩ i k u r' joined listed
    rw [List.getElem?_append] at listed
    split at listed
    · next inside =>
      rw [List.take_append_of_le_length (Nat.le_of_lt inside)]
      exact first i k u r' joined listed
    · next outside =>
      have place : i = before.length := by
        obtain ⟨inside, -⟩ := List.getElem?_eq_some_iff.mp listed
        simp at inside
        omega
      subst place
      rw [here] at joined
      cases joined
      have same : r = r' := by simpa [← length] using listed
      subst same
      rwa [← length, List.take_left]

end Query

namespace Store

variable (s : Store) (q : Query)

/-- The tuples of nested loops over the base table and some joined tables. -/
def tuples (joins : List (Join × Table)) : List (List StoredRow) :=
  joins.foldl (fun tuples entry => tuples.flatMap fun tuple =>
      ((s.rowsOf entry.2.id).filter fun r =>
        entry.1.meets q.scope (q.merged tuple) r.data).map fun r => tuple ++ [r])
    ((s.rowsOf q.base.id).map fun r => [r])

theorem tuples_concat (before : List (Join × Table)) (j : Join) (t : Table) :
    s.tuples q (before ++ [(j, t)]) = (s.tuples q before).flatMap fun tuple =>
      ((s.rowsOf t.id).filter fun r => j.meets q.scope (q.merged tuple) r.data).map fun r =>
        tuple ++ [r] := by
  simp [tuples]

variable {s q}

theorem length_of_mem_tuples {joins : List (Join × Table)} {tuple : List StoredRow}
    (h : tuple ∈ s.tuples q joins) : tuple.length = joins.length + 1 := by
  induction joins using List.reverseRecOn generalizing tuple with
  | nil =>
    obtain ⟨r, -, rfl⟩ := List.mem_map.mp h
    rfl
  | append_singleton before entry ih =>
    rw [tuples_concat, List.mem_flatMap] at h
    obtain ⟨first, hfirst, h⟩ := h
    obtain ⟨r, -, rfl⟩ := List.mem_map.mp h
    simp [ih hfirst]

/-- Each merged row is that of a tuple. -/
theorem joinedAfter_eq_map_merged {joins after : List (Join × Table)}
    (split : q.joined = joins ++ after) (inner : ∀ entry ∈ joins, entry.1.kind = .inner)
    (crosses : ∀ entry ∈ joins, entry.1.Crosses q.scope) :
    s.joinedAfter q joins = (s.tuples q joins).map q.merged := by
  induction joins using List.reverseRecOn generalizing after with
  | nil =>
    simp only [joinedAfter, Query.joinAll, tuples, List.foldl_nil, List.map_map, data]
    refine List.map_congr_left fun r _ => ?_
    simp [Query.merged]
  | append_singleton before entry ih =>
    obtain ⟨j, t⟩ := entry
    simp only [List.forall_mem_append, List.forall_mem_singleton] at inner crosses
    rw [List.append_assoc, List.singleton_append] at split
    rw [joinedAfter_concat, ih split inner.1 crosses.1, tuples_concat,
      JoinPlan.rows_of_inner inner.2, List.flatMap_map, List.map_flatMap]
    refine List.flatMap_congr fun tuple htuple => ?_
    have merged (r : StoredRow) := Query.merged_concat split (length_of_mem_tuples htuple) r
    simp only [JoinPlan.matchesOfLeft, data, List.filter_map, List.map_map, Function.comp_def,
      merged, Query.joinPlan, JoinPlan.agree_eq_meets crosses.2]
    rfl

theorem mem_tuples {joins after : List (Join × Table)} (split : q.joined = joins ++ after)
    {tuple : List StoredRow} :
    tuple ∈ s.tuples q joins ↔
      List.Forall₂ (fun t r => r ∈ s.rowsOf t.id) (q.base :: joins.map (·.2)) tuple ∧
        q.Satisfies tuple := by
  induction joins using List.reverseRecOn generalizing after tuple with
  | nil =>
    simp only [tuples, List.foldl_nil, List.mem_map, List.map_nil, List.forall₂_cons_left_iff,
      List.forall₂_nil_left_iff]
    constructor
    · rintro ⟨r, hr, rfl⟩
      refine ⟨⟨r, [], hr, rfl, rfl⟩, fun i j t r' _ listed => ?_⟩
      simp at listed
    · rintro ⟨⟨r, rest, hr, rfl, rfl⟩, -⟩
      exact ⟨r, hr, rfl⟩
  | append_singleton before entry ih =>
    obtain ⟨j, t⟩ := entry
    rw [List.append_assoc, List.singleton_append] at split
    rw [tuples_concat, List.mem_flatMap, List.map_append, List.map_singleton, ← List.cons_append]
    constructor
    · rintro ⟨first, hfirst, h⟩
      obtain ⟨r, hr, rfl⟩ := List.mem_map.mp h
      rw [List.mem_filter] at hr
      have earlier := (ih split).mp hfirst
      rw [Lists.forall₂_concat, Query.satisfies_concat split (length_of_mem_tuples hfirst)]
      exact ⟨⟨earlier.1, hr.1⟩, earlier.2, hr.2⟩
    · rintro ⟨each, satisfied⟩
      rcases tuple.eq_nil_or_concat with rfl | ⟨first, r, rfl⟩
      · cases each
      · rw [List.concat_eq_append] at each satisfied ⊢
        rw [Lists.forall₂_concat] at each
        have length : first.length = before.length + 1 := by
          simpa using each.1.length_eq.symm
        rw [Query.satisfies_concat split length] at satisfied
        refine ⟨first, (ih split).mpr ⟨each.1, satisfied.1⟩, ?_⟩
        exact List.mem_map.mpr ⟨r, List.mem_filter.mpr ⟨each.2, satisfied.2⟩, rfl⟩

/-- The first row stands before the second one in the store. -/
def Before (s : Store) (r r' : StoredRow) : Prop := [r, r'].Sublist s.rows

theorem rowsOf_before (s : Store) (table : Nat) : (s.rowsOf table).Pairwise s.Before :=
  (List.pairwise_iff_forall_sublist.mpr id).sublist List.filter_sublist

theorem Numbered.not_before_self (hs : s.Numbered) (r : StoredRow) : ¬s.Before r r := fun twice => by
  have distinct := (List.Nodup.of_map _ hs.rowIds).sublist twice
  simp at distinct

/-- Nested loops go over the tuples in lexicographic order. -/
theorem tuples_ordered (s : Store) (q : Query) (joins : List (Join × Table)) :
    (s.tuples q joins).Pairwise (List.Lex s.Before) := by
  induction joins using List.reverseRecOn with
  | nil => exact List.pairwise_map.mpr ((s.rowsOf_before q.base.id).imp fun first => .rel first)
  | append_singleton before entry ih =>
    obtain ⟨j, t⟩ := entry
    rw [tuples_concat, List.pairwise_flatMap]
    constructor
    · intro tuple _
      refine List.pairwise_map.mpr ?_
      exact ((s.rowsOf_before t.id).sublist List.filter_sublist).imp fun first =>
        .append_left _ (.rel first) tuple
    · refine ih.imp_of_mem fun {first second} hfirst hsecond less => ?_
      have length := (length_of_mem_tuples hfirst).trans (length_of_mem_tuples hsecond).symm
      intro x hx y hy
      obtain ⟨r, -, rfl⟩ := List.mem_map.mp hx
      obtain ⟨r', -, rfl⟩ := List.mem_map.mp hy
      exact Lists.lex_append less length [r] [r']

theorem Numbered.tuples_nodup (hs : s.Numbered) (q : Query) (joins : List (Join × Table)) :
    (s.tuples q joins).Nodup := by
  refine (s.tuples_ordered q joins).imp fun {first second} less same => ?_
  exact Lists.lex_irrefl hs.not_before_self first (same ▸ less)

end Store
end SqlEngine
