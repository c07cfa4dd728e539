import Mathlib.Data.List.Perm.Basic
import SqlEngine.Proofs.Entries
import SqlEngine.Proofs.Relation.Names

/-! What a join makes of two lists of rows: which rows it merges, which it keeps alone, in which
order they come, and what is read from a merged row. -/

namespace SqlEngine

open Dialect

theorem boundName_injective (binding : String) : Function.Injective (boundName binding) := by
  intro c d same
  have texts := congrArg String.toList same
  simpa [boundName, String.toList_append, String.toList_inj] using texts

section

variable {binding key : String} {left right : Row}

theorem mergeRows_keys : (right.entries.map fun entry => (boundName binding entry.1, entry.2)).map
    (·.1) = right.names.map (boundName binding) := by
  rw [List.map_map, Row.names, List.map_map]
  rfl

theorem get?_mergeRows_of_mem (distinct : right.names.Nodup) {column : String}
    (h : column ∈ right.names) :
    (mergeRows binding left right).get? (boundName binding column) = some (right.get column) := by
  obtain ⟨v, found⟩ := Row.exists_get?_of_mem_names h
  have listed : (boundName binding column, v) ∈
      (right.entries.map fun entry => (boundName binding entry.1, entry.2)).reverse := by
    rw [List.mem_reverse]
    exact List.mem_map.mpr ⟨(column, v), Row.mem_of_find? found, rfl⟩
  rw [mergeRows, Row.get?_putAll, Row.find?_of_mem ?_ listed, Row.get, found]
  · rfl
  · rw [List.map_reverse, List.nodup_reverse, mergeRows_keys]
    exact distinct.map (boundName_injective binding)

theorem get?_mergeRows_of_not_mem (h : key ∉ right.names.map (boundName binding)) :
    (mergeRows binding left right).get? key = left.get? key := by
  have absent : Row.find? key
      (right.entries.map fun entry => (boundName binding entry.1, entry.2)).reverse = none := by
    rw [Row.find?_eq_none, List.map_reverse, List.mem_reverse, mergeRows_keys]
    exact h
  rw [mergeRows, Row.get?_putAll, absent]
  rfl

end

def Unbound (binding : String) (names : List String) : Prop :=
  ∀ column, boundName binding column ∉ names

theorem unbound_iff {binding : String} {names : List String} :
    Unbound binding names ↔ ∀ name ∈ names, ¬(binding.toList ++ ['.']) <+: name.toList := by
  constructor
  · rintro unbound name listed ⟨column, same⟩
    refine unbound (String.ofList column) ?_
    have bound : boundName binding (String.ofList column) = name := by
      rw [← String.toList_inj, ← same]
      simp [boundName, String.toList_append]
    rwa [bound]
  · intro each column listed
    refine each _ listed ⟨column.toList, ?_⟩
    simp [boundName, String.toList_append]

/-- A row reads as one row under the bound names of columns and as another under all other names. -/
structure ReadsAs (binding : String) (left right row : Row) : Prop where
  left : ∀ key, (∀ column, key ≠ boundName binding column) → row.get? key = left.get? key
  right : ∀ column, row.get? (boundName binding column) = right.get? column

theorem mergeRows_readsAs {binding : String} {left right : Row} (unbound : Unbound binding left.names)
    (distinct : right.names.Nodup) : ReadsAs binding left right (mergeRows binding left right) := by
  refine ⟨fun key free => get?_mergeRows_of_not_mem fun listed => ?_, fun column => ?_⟩
  · obtain ⟨column, -, rfl⟩ := List.mem_map.mp listed
    exact free column rfl
  · by_cases listed : column ∈ right.names
    · obtain ⟨v, found⟩ := Row.exists_get?_of_mem_names listed
      rw [get?_mergeRows_of_mem distinct listed, Row.get, found, Option.getD_some]
    · -- Neither row has a value under the bound name.
      have absent : left.get? (boundName binding column) = none :=
        Row.find?_eq_none.mpr (unbound column)
      have absent' : right.get? column = none := Row.find?_eq_none.mpr listed
      rw [get?_mergeRows_of_not_mem, absent, absent']
      rw [List.mem_map_of_injective (boundName_injective binding)]
      exact listed

theorem Row.get?_nulls (names : List String) (name : String) :
    (nulls names).get? name = if name ∈ names then some .null else none := by
  rw [nulls, get?_ofEntries]
  split
  · next listed =>
    cases found : find? name (names.map fun name => (name, Value.null)).reverse with
    | none => simp [find?_eq_none, listed] at found
    | some v =>
      have entry := mem_of_find? found
      simp only [List.mem_reverse, List.mem_map, Prod.mk.injEq] at entry
      obtain ⟨_, -, -, rfl⟩ := entry
      rfl
  · next unlisted => simpa [find?_eq_none] using unlisted

theorem Row.nodup_putAll {r : Row} (distinct : r.names.Nodup) (entries : List (String × Value)) :
    (r.putAll entries).names.Nodup := by
  induction entries generalizing r with
  | nil => exact distinct
  | cons entry rest ih =>
    refine ih (r := r.put entry.1 entry.2) ?_
    by_cases listed : entry.1 ∈ r.names
    · have same : (r.put entry.1 entry.2).names = r.names := map_fst_assign_of_mem listed
      rwa [same]
    · have grown : (r.put entry.1 entry.2).names = r.names ++ [entry.1] :=
        map_fst_assign_of_not_mem listed
      rw [grown, List.nodup_append]
      refine ⟨distinct, List.nodup_singleton _, fun name there other last same => listed ?_⟩
      rwa [← List.mem_singleton.mp last, ← same]

theorem Row.nodup_nulls (names : List String) : (nulls names).names.Nodup :=
  nodup_putAll (r := empty) List.nodup_nil _

/-- Two nested loops come upon the same pairs whichever of them is the outer one. -/
theorem perm_flatMap_filter {α β γ : Type} (p : α → β → Bool) (f : α → β → γ) (as : List α)
    (bs : List β) : (as.flatMap fun a => (bs.filter (p a)).map (f a)).Perm
      (bs.flatMap fun b => (as.filter (p · b)).map (f · b)) := by
  induction as with
  | nil => simp
  | cons a as ih =>
    have first : (bs.filter (p a)).map (f a) = bs.flatMap fun b => if p a b then [f a b] else [] := by
      clear ih
      induction bs with
      | nil => rfl
      | cons b bs ih =>
        rw [List.flatMap_cons, ← ih, List.filter_cons]
        split <;> rfl
    have each (b : β) : ((a :: as).filter (p · b)).map (f · b) =
        (if p a b then [f a b] else []) ++ (as.filter (p · b)).map (f · b) := by
      rw [List.filter_cons]
      split <;> rfl
    simp only [List.flatMap_cons, first, each]
    exact (ih.append_left _).trans (List.flatMap_append_perm bs _ _)

namespace JoinPlan

variable (p : JoinPlan) (lefts rights : List Row)

def matchesOfLeft (left : Row) : List Row := (rights.filter (p.agree left)).map (p.merge left)

def matchesOfRight (right : Row) : List Row := (lefts.filter (p.agree · right)).map (p.merge · right)

def lonelyRights : List Row := rights.filter fun right => !lefts.any (p.agree · right)

variable {p lefts rights}

theorem ofLeft_of_not_left (other : p.kind ≠ .left) (left : Row) :
    p.ofLeft rights left = p.matchesOfLeft rights left := by
  simp [ofLeft, matchesOfLeft, other]

theorem ofLeft_of_left (isLeft : p.kind = .left) (left : Row) : p.ofLeft rights left =
    p.matchesOfLeft rights left ++
      if rights.any (p.agree left) then [] else [p.merge left (.nulls p.rightColumns)] := by
  simp only [ofLeft, matchesOfLeft, isLeft, beq_self_eq_true, Bool.and_true]
  cases found : rights.filter (p.agree left) with
  | nil =>
    have none : rights.any (p.agree left) = false := by
      simpa [List.filter_eq_nil_iff] using found
    simp [none]
  | cons right rest =>
    have some : rights.any (p.agree left) = true := by
      have listed : right ∈ rights.filter (p.agree left) := found ▸ List.mem_cons_self
      rw [List.mem_filter] at listed
      exact List.any_eq_true.mpr ⟨right, listed⟩
    simp [some]

theorem ofRight_eq (right : Row) : p.ofRight lefts right = p.matchesOfRight lefts right ++
    if lefts.any (p.agree · right) then [] else [p.merge (.nulls p.leftColumns) right] := by
  simp only [ofRight, matchesOfRight]
  cases found : lefts.filter (p.agree · right) with
  | nil =>
    have none : lefts.any (p.agree · right) = false := by
      simpa [List.filter_eq_nil_iff] using found
    simp [none]
  | cons left rest =>
    have some : lefts.any (p.agree · right) = true := by
      have listed : left ∈ lefts.filter (p.agree · right) := found ▸ List.mem_cons_self
      rw [List.mem_filter] at listed
      exact List.any_eq_true.mpr ⟨left, listed⟩
    simp [some]

theorem rows_of_inner (inner : p.kind = .inner) (lefts rights : List Row) :
    p.rows lefts rights = lefts.flatMap (p.matchesOfLeft rights) := by
  have each : p.ofLeft rights = p.matchesOfLeft rights :=
    funext (ofLeft_of_not_left (by simp [inner]))
  simp only [rows, inner, each]

theorem rows_of_left (left : p.kind = .left) : p.rows lefts rights = lefts.flatMap fun l =>
    p.matchesOfLeft rights l ++
      if rights.any (p.agree l) then [] else [p.merge l (.nulls p.rightColumns)] := by
  simp only [rows, left, funext (ofLeft_of_left left)]

theorem rows_of_right (right : p.kind = .right) : p.rows lefts rights = rights.flatMap fun r =>
    p.matchesOfRight lefts r ++
      if lefts.any (p.agree · r) then [] else [p.merge (.nulls p.leftColumns) r] := by
  simp only [rows, right, funext ofRight_eq]

/-- As a whole a right join merges what an inner join does, and keeps what no left row agrees
with. -/
theorem rows_of_right_perm (right : p.kind = .right) : (p.rows lefts rights).Perm
    (lefts.flatMap (p.matchesOfLeft rights) ++
      (p.lonelyRights lefts rights).map (p.merge (.nulls p.leftColumns))) := by
  have lonely : (rights.flatMap fun r =>
      if lefts.any (p.agree · r) then [] else [p.merge (.nulls p.leftColumns) r]) =
        (p.lonelyRights lefts rights).map (p.merge (.nulls p.leftColumns)) := by
    induction rights with
    | nil => rfl
    | cons r rights ih =>
      rw [List.flatMap_cons, ih, lonelyRights, lonelyRights, List.filter_cons]
      cases lefts.any (p.agree · r) <;> rfl
  rw [rows_of_right right]
  refine (List.flatMap_append_perm rights _ _).symm.trans ?_
  rw [lonely]
  exact (perm_flatMap_filter p.agree p.merge lefts rights).symm.append_right _

end JoinPlan

namespace Dialect.Join

/-- The name is qualified by a name of the joined table: by its alias, or by its table name if that
is no name of the base table too. -/
def Claims (j : Join) (scope : Scope) (c : ColumnName) : Prop :=
  ∃ q, c.qualifier = some q ∧
    (j.table.alias? = some q ∨ q = j.table.name ∧ q ∉ scope.baseNames)

theorem owns_iff {j : Join} {scope : Scope} {c : ColumnName} :
    j.owns scope c = true ↔ j.Claims scope c := by
  unfold owns Claims
  cases c.qualifier <;> simp [Scope.namesBase]

def swapped (j : Join) : Join := { j with left := j.right, right := j.left }

theorem keys_swapped {j : Join} {scope : Scope}
    (one : j.Claims scope j.left ↔ ¬j.Claims scope j.right) :
    JoinKeys.ofJoin j.swapped scope = JoinKeys.ofJoin j scope := by
  have own (c : ColumnName) : j.swapped.owns scope c = j.owns scope c := rfl
  have sides : j.swapped.left = j.right ∧ j.swapped.right = j.left := ⟨rfl, rfl⟩
  rw [← owns_iff, ← owns_iff] at one
  simp only [JoinKeys.ofJoin, own, sides]
  cases l : j.owns scope j.left <;> cases r : j.owns scope j.right <;> simp_all

/-- While there is time, an inner join merges each left row in order with each right row in order
whose ON value is equal. A left join keeps besides, in its place, each left row without a match,
with nulls for the joined columns. A right join merges the same pairs and keeps each right row
without a match, with nulls for the columns before, all in the order of the right rows. From a
merged row its right row is read under the binding, and its left row under all other names, if none
of these is bound. Which operand of the ON equality is written first does not matter if just one is
qualified by a name of the joined table. -/
theorem run_rows (j : Join) (scope : Scope) {deadline : Deadline} (opened : deadline.passed = false)
    {lefts rights : List Row} {leftColumns : List String} (rightColumns : List String)
    (unboundRows : ∀ left ∈ lefts, Unbound j.table.binding left.names)
    (unboundColumns : Unbound j.table.binding leftColumns)
    (distinct : ∀ right ∈ rights, right.names.Nodup) :
    let p := JoinPlan.ofJoin j scope leftColumns rightColumns
    let run := fun (j : Join) (kind : JoinKind) =>
      (JoinPlan.ofJoin { j with kind } scope leftColumns rightColumns).run deadline lefts rights
    run j .inner = .ok (lefts.flatMap (p.matchesOfLeft rights)) ∧
    run j .left = .ok (lefts.flatMap fun left => p.matchesOfLeft rights left ++
      if rights.any (p.agree left) then [] else [p.merge left (.nulls rightColumns)]) ∧
    (∃ rows, run j .right = .ok rows ∧
      rows.Perm (lefts.flatMap (p.matchesOfLeft rights) ++
        (p.lonelyRights lefts rights).map (p.merge (.nulls leftColumns))) ∧
      rows = rights.flatMap fun right => p.matchesOfRight lefts right ++
        if lefts.any (p.agree · right) then [] else [p.merge (.nulls leftColumns) right]) ∧
    (∀ left, left ∈ lefts ∨ left = .nulls leftColumns →
      ∀ right, right ∈ rights ∨ right = .nulls rightColumns →
        ReadsAs j.table.binding left right (p.merge left right)) ∧
    (∀ columns name, (Row.nulls columns).get? name = if name ∈ columns then some .null else none) ∧
    ((j.Claims scope j.left ↔ ¬j.Claims scope j.right) →
      ∀ kind, run j.swapped kind = run j kind) := by
  intro p run
  have ran (kind : JoinKind) : run j kind =
      .ok ((JoinPlan.ofJoin { j with kind } scope leftColumns rightColumns).rows lefts rights) :=
    JoinPlan.run_of_open _ opened lefts rights
  refine ⟨?_, ?_, ⟨_, ran .right, ?_, ?_⟩, ?_, Row.get?_nulls, ?_⟩
  · rw [ran, JoinPlan.rows_of_inner rfl]
    rfl
  · rw [ran, JoinPlan.rows_of_left rfl]
    rfl
  · exact JoinPlan.rows_of_right_perm rfl
  · exact JoinPlan.rows_of_right rfl
  · intro left isLeft right isRight
    refine mergeRows_readsAs ?_ ?_
    · rcases isLeft with listed | rfl
      · exact unboundRows left listed
      · exact fun column listed => unboundColumns column ((Row.hasKeys_nulls _ _).mp listed)
    · rcases isRight with listed | rfl
      · exact distinct right listed
      · exact Row.nodup_nulls rightColumns
  · intro one kind
    have keys := keys_swapped one
    simp only [run, JoinPlan.ofJoin]
    exact congrArg (fun keys => (JoinPlan.mk kind scope keys _ _ _).run deadline lefts rights) keys

/-- A user without orders, and orders of no user. -/
theorem run_rows_withOrphans :
    let users := [Row.ofEntries [("id", .integer 1), ("name", .text "a")],
      Row.ofEntries [("id", .integer 2), ("name", .text "b")]]
    let orders := [Row.ofEntries [("user_id", .integer 1)], Row.ofEntries [("user_id", .null)],
      Row.ofEntries [("user_id", .integer 1)]]
    let j : Join := ⟨.left, ⟨"orders", some "o"⟩, ⟨some "o", "user_id"⟩, ⟨some "users", "id"⟩⟩
    let run := fun (j : Join) (kind : JoinKind) => (JoinPlan.ofJoin { j with kind }
      (.ofTable "users" none) ["id", "name"] ["user_id"]).run (.starting 5000) users orders
    (run j .inner).toOption.map (·.length) = some 2 ∧
      (run j .left).toOption.map (·.length) = some 3 ∧
      (∃ rows, run j .right = .ok rows ∧ rows.length = 3) ∧ run j.swapped .right = run j .right := by
  intro users orders j run
  have claims : j.Claims (.ofTable "users" none) j.left ↔
      ¬j.Claims (.ofTable "users" none) j.right := by
    rw [← owns_iff, ← owns_iff]
    decide
  have opened : (Deadline.starting 5000).passed = false := by decide
  have unboundRows : ∀ left ∈ users, Unbound "o" left.names := fun left listed =>
    unbound_iff.mpr (by revert left; decide)
  have unboundColumns : Unbound "o" ["id", "name"] := unbound_iff.mpr (by decide)
  have distinct : ∀ right ∈ orders, right.names.Nodup := by decide
  obtain ⟨inner, left, ⟨rows, right, kept, -⟩, -, -, exchanged⟩ :=
    run_rows j (.ofTable "users" none) opened ["user_id"] unboundRows unboundColumns distinct
  refine ⟨?_, ?_, ⟨rows, right, ?_⟩, exchanged claims .right⟩
  · rw [show run j .inner = _ from inner]
    decide
  · rw [show run j .left = _ from left]
    decide
  · rw [kept.length_eq]
    decide

end Dialect.Join
end SqlEngine
