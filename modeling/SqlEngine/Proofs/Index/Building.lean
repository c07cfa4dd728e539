import SqlEngine.Condition.Truth
import SqlEngine.Proofs.Index.Catalog
import SqlEngine.Proofs.Index.Dictionary
import SqlEngine.Proofs.Index.Key
import SqlEngine.Proofs.Index.Mapping

/-! What an index finds that is built over some rows. The tree is an insertion of the keys of these
rows. Where their order is total it follows a dictionary, and so a search finds the rows of one key
in the order of the rows. -/

namespace SqlEngine.Index

open Std (TransCmp)
open Dialect

abbrev Among (ks : List Key) : Type := { k : Key // k ∈ ks }

namespace Among

variable {ks : List Key}

abbrev order (k l : Among ks) : Ordering := Key.order k l

def index (t : Tree (Among ks) Nat) : RowIndex := t.map Subtype.val id

theorem insert_index (t : Tree (Among ks) Nat) (key : Among ks) (n : Nat) :
    Tree.insert Key.order (index t) key.1 n =
      ((t.insert order key n).1, index (t.insert order key n).2) :=
  t.insert_map (fun _ _ => rfl) key Function.injective_id n

theorem search_index (t : Tree (Among ks) Nat) (key : Among ks) :
    (index t).search key = t.search order key :=
  (t.search_map (fun _ _ => rfl) key).trans (List.map_id _)

end Among

namespace RowIndex

variable {d : IndexDefinition} {ks : List Key}

theorem addRow_index [TransCmp (@Among.order ks)] {t : Tree (Among ks) Nat}
    {entries : List (Entry (Among ks) Nat)} {rules : Rules} (plain : d.unique = false)
    (several : rules.unique = false) (h : Tree.Holds Among.order rules t entries)
    {row : StoredRow} {key : Among ks} (keyed : Key.ofRow d.columns row.data = key) :
    addRow d (Among.index t) row = .ok (Among.index (t.insert Among.order key row.id).2) := by
  have answer : (t.insert Among.order key row.id).1 = .ok () := by
    rw [(h.insert key row.id).1, put_answer, several]
    rfl
  simp only [addRow, plain, Bool.false_and, Bool.false_eq_true, if_false, keyed,
    Among.insert_index, answer]

theorem addRows_index [TransCmp (@Among.order ks)] (plain : d.unique = false)
    {rows : List StoredRow} {calls : List (Among ks × Nat)}
    (called : rows.map (fun r => (Key.ofRow d.columns r.data, r.id)) =
      calls.map fun call => (call.1.1, call.2))
    {t : Tree (Among ks) Nat} {entries : List (Entry (Among ks) Nat)} {rules : Rules}
    (several : rules.unique = false) (h : Tree.Holds Among.order rules t entries) :
    rows.foldlM (addRow d) (Among.index t) = .ok (Among.index (t.insertAll Among.order calls)) := by
  induction calls generalizing rows t entries with
  | nil =>
    rw [List.map_eq_nil_iff.mp called]
    rfl
  | cons call calls ih =>
    obtain _ | ⟨row, rows⟩ := rows
    · cases called
    simp only [List.map_cons, List.cons.injEq, Prod.mk.injEq] at called
    obtain ⟨⟨keyed, numbered⟩, called⟩ := called
    rw [List.foldlM_cons, addRow_index plain several h keyed, numbered]
    exact ih called (h.insert call.1 call.2).2

/-- Nothing hinders the building of an index that is not unique. -/
theorem build_index [TransCmp (@Among.order ks)] (plain : d.unique = false)
    {rows : List StoredRow} {calls : List (Among ks × Nat)}
    (called : rows.map (fun r => (Key.ofRow d.columns r.data, r.id)) =
      calls.map fun call => (call.1.1, call.2)) :
    build d rows = .ok (Among.index
      (Tree.insertAll Among.order (.empty (.default false)) calls)) := by
  have start : Tree.Holds (@Among.order ks) (.default false)
      (.empty (.default false) : Tree (Among ks) Nat) [] := Tree.holds_insertAll 64 false []
  have built := addRows_index plain called rfl start
  rw [Among.index, Tree.map_empty] at built
  rw [build, plain]
  exact built

def keysMet (d : IndexDefinition) (rows : List StoredRow) (key : Key) : List Key :=
  key :: rows.map fun r => Key.ofRow d.columns r.data

def calls (d : IndexDefinition) (rows : List StoredRow) (key : Key) :
    List (Among (keysMet d rows key) × Nat) :=
  rows.attach.map fun r =>
    (⟨Key.ofRow d.columns r.1.data, List.mem_cons_of_mem _ (List.mem_map_of_mem r.2)⟩, r.1.id)

theorem map_calls (d : IndexDefinition) (rows : List StoredRow) (key : Key) :
    rows.map (fun r => (Key.ofRow d.columns r.data, r.id)) =
      (calls d rows key).map fun call => (call.1.1, call.2) := by
  rw [calls, List.map_map]
  exact List.attach_map_val.symm

theorem filter_calls (d : IndexDefinition) (rows : List StoredRow) (key : Key) (p : Key → Bool) :
    ((calls d rows key).filter fun call => p call.1.1).map (·.2) =
      (rows.filter fun r => p (Key.ofRow d.columns r.data)).map (·.id) := by
  have same := congrArg (fun pairs => (pairs.filter fun call => p call.1).map (·.2))
    (map_calls d rows key)
  simp only [List.filter_map, List.map_map] at same
  exact same.symm

/-- A key finds the rows that have it, each number once. -/
theorem search_build {rows : List StoredRow} {key : Key} (plain : d.unique = false)
    (total : ∀ i, Value.TotallyOrdered (Key.partsAt (keysMet d rows key) i)) :
    ∃ tree, build d rows = .ok tree ∧ tree.search key =
      ((rows.filter fun r => Key.order (Key.ofRow d.columns r.data) key == .eq).map
        (·.id)).eraseDups := by
  have trans : TransCmp (@Among.order (keysMet d rows key)) := Key.order_trans total
  let sought : Among (keysMet d rows key) := ⟨key, List.mem_cons_self⟩
  refine ⟨_, build_index plain (map_calls d rows key), ?_⟩
  have follows : Tree.Follows Among.order false _ _ :=
    Tree.insertAll_follows 64 false (calls d rows key)
  have search := follows.search sought
  rw [lookup_putAll] at search
  have same := filter_calls d rows key fun k => Key.order k key == .eq
  exact (Among.search_index _ sought).trans (search.trans (congrArg List.eraseDups same))

end RowIndex

namespace Catalog

variable {scope : Scope} {c : String} {v : Value} {rows : List StoredRow}

/-- The rows that a value finds in an index over a column: those whose column equals it, if these
are not zeros of different signs, and those whose column is the same double, if that is not a
number. -/
def finds (scope : Scope) (c : String) (v : Value) (r : StoredRow) : Bool :=
  (Condition.test c (.compare .equal v)).holds scope r.data && !(r.data.get c).zerosApart v ||
    (r.data.get c).sameNaN v

theorem finds_eq {r : StoredRow} (literal : v ≠ .null)
    (reads : r.data.get? c = none → scope.value r.data c = .null) :
    finds scope c v r = (Key.order [r.data.get c] [v] == .eq) := by
  have read : scope.value r.data c = r.data.get c := by
    unfold Row.get
    cases stored : r.data.get? c with
    | none => exact reads stored
    | some x => simp [Scope.value, stored]
  have tie : Key.order [r.data.get c] [v] = (r.data.get c).sortOrder v := Ordering.then_eq
  rw [Bool.eq_iff_iff, beq_iff_eq, tie, Value.sortOrder_eq_eq literal]
  simp [finds, Condition.holds, Test.holds, Comparison.holds, read]

theorem totallyOrdered_singletons {vs : List Value} (separate : Value.Separate vs) (i : Nat) :
    Value.TotallyOrdered (Key.partsAt (vs.map ([·])) i) := by
  rw [Value.totallyOrdered_iff]
  cases i with
  | zero => simpa [Key.partsAt, List.filterMap_map, Function.comp_def] using separate
  | succ i => simp [Key.partsAt, List.filterMap_map, Value.Separate]

/-- An index over one column that is not unique finds what the equality with the column finds, in
the order of the rows. It tells the two zeros apart, and it finds what is not a number. -/
theorem lookup_built {d : IndexDefinition} (single : d.columns = [c]) (plain : d.unique = false)
    (literal : v ≠ .null) (reads : ∀ r ∈ rows, r.data.get? c = none → scope.value r.data c = .null)
    (separate : Value.Separate (v :: rows.map (·.data.get c))) :
    ∃ tree, RowIndex.build d rows = .ok tree ∧ ∀ (catalog : Catalog) (table index : String),
      (catalog.put table index tree).lookup table index [v] =
        some ((rows.filter (finds scope c v)).map (·.id)).eraseDups ∧
      ((rows.map (·.id)).Nodup → (catalog.put table index tree).lookup table index [v] =
        some ((rows.filter (finds scope c v)).map (·.id))) := by
  have keyed (r : StoredRow) : Key.ofRow d.columns r.data = [r.data.get c] := by
    rw [single]
    rfl
  have met : RowIndex.keysMet d rows [v] = (v :: rows.map (·.data.get c)).map ([·]) := by
    simp only [RowIndex.keysMet, keyed, List.map_cons, List.map_map, Function.comp_def]
  have total (i : Nat) : Value.TotallyOrdered (Key.partsAt (RowIndex.keysMet d rows [v]) i) := by
    rw [met]
    exact totallyOrdered_singletons separate i
  obtain ⟨tree, built, search⟩ := RowIndex.search_build plain total
  have found : (rows.filter fun r => Key.order (Key.ofRow d.columns r.data) [v] == .eq) =
      rows.filter (finds scope c v) := by
    refine List.filter_congr fun r hr => ?_
    rw [keyed, finds_eq literal (reads r hr)]
  rw [found] at search
  refine ⟨tree, built, fun catalog table index => ?_⟩
  have looked : (catalog.put table index tree).lookup table index [v] =
      some ((rows.filter (finds scope c v)).map (·.id)).eraseDups := by
    rw [lookup, get?_put, if_pos ⟨rfl, rfl⟩, Option.map_some, search]
  refine ⟨looked, fun distinct => ?_⟩
  have once : ((rows.filter (finds scope c v)).map (·.id)).Nodup :=
    distinct.sublist (List.filter_sublist.map _)
  rw [looked, Lists.eraseDups_of_nodup once]

def numberedRows : List StoredRow :=
  [⟨4, 1, .ofEntries [("x", .real ⟨0x4000000000000000⟩)]⟩, ⟨5, 1, .ofEntries [("x", .integer 7)]⟩,
    ⟨9, 1, .ofEntries [("x", .integer 2)]⟩]

theorem lookup_built_numbers :
    Value.Separate (.integer 2 :: numberedRows.map (·.data.get "x")) ∧
    ∃ tree, RowIndex.build ⟨"i", ["x"], false⟩ numberedRows = .ok tree ∧
      (empty.put "t" "i" tree).lookup "t" "i" [.integer 2] = some [4, 9] := by
  have separate : Value.Separate (.integer 2 :: numberedRows.map (·.data.get "x")) := by
    decide +kernel
  obtain ⟨tree, built, looked⟩ := @lookup_built .unqualified "x" (.integer 2) numberedRows
    ⟨"i", ["x"], false⟩ rfl rfl (by decide) (by decide +kernel) separate
  refine ⟨separate, tree, built, ?_⟩
  rw [(looked empty "t" "i").2 (by decide +kernel)]
  decide +kernel

/-- The index tells the two zeros apart, which are equal. -/
theorem lookup_astray :
    let rows : List StoredRow :=
      [⟨1, 1, .ofEntries [("x", .real .zero)]⟩, ⟨2, 1, .ofEntries [("x", .real .negativeZero)]⟩]
    (RowIndex.build ⟨"i", ["x"], false⟩ rows).toOption.bind (fun tree =>
      (empty.put "t" "i" tree).lookup "t" "i" [.real .zero]) = some [1] ∧
    ∀ r ∈ rows,
      (Condition.test "x" (.compare .equal (.real .zero))).holds .unqualified r.data = true := by
  decide +kernel

end Catalog
end SqlEngine.Index
