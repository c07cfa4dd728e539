import Mathlib.Data.Finset.Card
import SqlEngine.Proofs.Json.Scalar
import SqlEngine.Proofs.Relation.Group
import SqlEngine.Proofs.Relation.Plain
import SqlEngine.Proofs.Relation.Resolution

/-! Which rows are told apart where rows are compared by JSON texts: by the keys of groups, by the
tuples of DISTINCT, and by the values under COUNT(DISTINCT). Rows of the same typed columns have
values of one type wherever a name or an output column is read from both. -/

namespace SqlEngine

open Dialect

section

variable {α κ : Type} [BEq κ] [LawfulBEq κ] {key : α → κ}

theorem mem_map_firstsBeyond {seen : List κ} {xs : List α} {k : κ} :
    k ∈ (firstsBeyond key seen xs).map key ↔ k ∈ xs.map key ∧ k ∉ seen := by
  induction xs generalizing seen with
  | nil => simp [firstsBeyond]
  | cons x xs ih =>
    unfold firstsBeyond
    split
    · next repeated =>
      rw [ih, List.map_cons, List.mem_cons]
      have repeated : key x ∈ seen := by simpa using repeated
      refine ⟨fun h => ⟨.inr h.1, h.2⟩, fun h => ⟨h.1.resolve_left ?_, h.2⟩⟩
      rintro rfl
      exact h.2 repeated
    · next new =>
      have new : key x ∉ seen := by simpa using new
      rw [List.map_cons, List.mem_cons, ih, List.map_cons, List.mem_cons, List.mem_cons]
      by_cases same : k = key x
      · simp [same, new]
      · simp [same]

theorem nodup_map_firstsBeyond {seen : List κ} {xs : List α} :
    ((firstsBeyond key seen xs).map key).Nodup := by
  induction xs generalizing seen with
  | nil => exact List.nodup_nil
  | cons x xs ih =>
    unfold firstsBeyond
    split
    · exact ih
    · rw [List.map_cons, List.nodup_cons]
      exact ⟨fun listed => (mem_map_firstsBeyond.mp listed).2 List.mem_cons_self, ih⟩

theorem length_firsts [DecidableEq α] {xs : List α}
    (apart : ∀ x ∈ xs, ∀ y ∈ xs, key x = key y → x = y) :
    (firsts key xs).length = xs.toFinset.card := by
  have nodup : (firsts key xs).Nodup := .of_map key nodup_map_firstsBeyond
  rw [← List.toFinset_card_of_nodup nodup]
  congr 1
  ext x
  rw [List.mem_toFinset, List.mem_toFinset]
  refine ⟨fun listed => (firsts_sublist key xs).mem listed, fun listed => ?_⟩
  have kept : key x ∈ (firsts key xs).map key :=
    mem_map_firstsBeyond.mpr ⟨List.mem_map_of_mem listed, List.not_mem_nil⟩
  obtain ⟨y, hy, same⟩ := List.mem_map.mp kept
  rwa [← apart y ((firsts_sublist key xs).mem hy) x listed same]

end

namespace Row

/-- The row has a value of its type in each of these columns, and no other columns. -/
structure Fits (row : Row) (types : List (String × ColumnType)) : Prop where
  keys : row.HasKeys (types.map (·.1))
  admits : ∀ column ∈ types, column.2.admits (row.get column.1) = true

end Row

/-- There is a type to which both values belong. -/
def OneType (v w : Value) : Prop := ∃ type : ColumnType, type.admits v = true ∧ type.admits w = true

theorem oneType_null : OneType .null .null := ⟨.integer, rfl, rfl⟩

theorem OneType.eq {v w : Value} (h : OneType v w) (same : v.json = w.json) (finite : v.IsFinite)
    (finite' : w.IsFinite) : v = w := by
  obtain ⟨type, hv, hw⟩ := h
  exact Value.json_inj hv hw finite finite' same

/-- A name is read under one key from all rows of the same keys, if it has any. -/
theorem Scope.value_shared (s : Scope) (name : String) {available : List String} {a b : Row}
    (ha : a.HasKeys available) (hb : b.HasKeys available) :
    (s.value a name = .null ∧ s.value b name = .null) ∨
      ∃ key, s.value a name = a.get key ∧ s.value b name = b.get key := by
  cases found : s.key? available name with
  | none =>
    have absent {r : Row} (keys : r.HasKeys available) : s.value r name = .null :=
      value_of_not_finds ((key?_eq_none keys).mp found)
    exact .inl ⟨absent ha, absent hb⟩
  | some key =>
    right
    cases keyed_of_key? found with
    | own listed =>
      have read {r : Row} (keys : r.HasKeys available) : s.value r name = r.get name := by
        obtain ⟨v, there⟩ := keys.exists_get? listed
        simp [value, Row.get, there]
      exact ⟨name, read ha, read hb⟩
    | base unlisted split named listed =>
      have read {r : Row} (keys : r.HasKeys available) : s.value r name = r.get key := by
        have none : r.get? name = Option.none := keys.get?_eq_none.mpr unlisted
        simp [value, none, split, named]
      exact ⟨key, read ha, read hb⟩
    | joined unlisted bare listed ends =>
      obtain ⟨least, isLeast, there⟩ := value_of_bare (s := s) ha bare unlisted listed ends
      obtain ⟨least', isLeast', there'⟩ := value_of_bare (s := s) hb bare unlisted listed ends
      obtain rfl := isLeast.eq isLeast'
      exact ⟨least, by simp [Row.get, there], by simp [Row.get, there']⟩

namespace Row

section

variable {types : List (String × ColumnType)} {a b : Row} (ha : a.Fits types) (hb : b.Fits types)
include ha hb

theorem Fits.oneType_get (key : String) : OneType (a.get key) (b.get key) := by
  by_cases listed : key ∈ types.map (·.1)
  · obtain ⟨column, hcolumn, rfl⟩ := List.mem_map.mp listed
    exact ⟨column.2, ha.admits column hcolumn, hb.admits column hcolumn⟩
  · rw [get, get, ha.keys.get?_eq_none.mpr listed, hb.keys.get?_eq_none.mpr listed]
    exact oneType_null

theorem Fits.oneType_value (s : Scope) (name : String) :
    OneType (s.value a name) (s.value b name) := by
  rcases s.value_shared name ha.keys hb.keys with ⟨none, none'⟩ | ⟨key, here, there⟩
  · rw [none, none']
    exact oneType_null
  · rw [here, there]
    exact ha.oneType_get hb key

end

theorem find?_map {α : Type} (xs : List α) (name : α → String) (f : α → Value) (column : String) :
    find? column (xs.map fun x => (name x, f x)) = (xs.find? (column = name ·)).map f := by
  induction xs with
  | nil => rfl
  | cons x xs ih =>
    rw [List.map_cons, find?, List.find?_cons]
    by_cases same : column = name x
    · simp [same]
    · simp [same, ih]

theorem get_ofEntries_map {α : Type} (xs : List α) (name : α → String) (column : String) :
    (∀ f : α → Value, (ofEntries (xs.map fun x => (name x, f x))).get column = .null) ∨
      ∃ x, ∀ f : α → Value, (ofEntries (xs.map fun x => (name x, f x))).get column = f x := by
  have read (f : α → Value) : (ofEntries (xs.map fun x => (name x, f x))).get column =
      ((xs.reverse.find? (column = name ·)).map f).getD .null := by
    rw [get, get?_ofEntries, ← List.map_reverse, find?_map]
  cases found : xs.reverse.find? (column = name ·) with
  | none => exact .inl fun f => by simp [read, found]
  | some x => exact .inr ⟨x, fun f => by simp [read, found]⟩

end Row

namespace Query

def plainItem? : SelectItem → Option (String × String)
  | .column name alias? => some ((SelectItem.column name alias?).outputName, name.text)
  | .aggregate _ _ => none

theorem project_of_items {q : Query} {items : List SelectItem}
    (listed : q.select.items = some items) (row : Row) :
    q.project row = .ofEntries ((items.filterMap plainItem?).map fun item =>
      (item.1, q.scope.value row item.2)) := by
  rw [project, listed, List.map_filterMap]
  dsimp only
  congr 2
  funext item
  cases item <;> rfl

theorem oneType_project {q : Query} {types : List (String × ColumnType)} {a b : Row}
    (ha : a.Fits types) (hb : b.Fits types) (column : String) :
    OneType ((q.project a).get column) ((q.project b).get column) := by
  cases listed : q.select.items with
  | none =>
    have made (row : Row) : q.project row =
        .ofEntries (q.available.map fun key => (id key, row.get key)) := by
      rw [project, listed]
      rfl
    rw [made, made]
    rcases Row.get_ofEntries_map q.available id column with absent | ⟨key, source⟩
    · rw [absent, absent]
      exact oneType_null
    · rw [source, source]
      exact ha.oneType_get hb key
  | some items =>
    rw [project_of_items listed, project_of_items listed]
    rcases Row.get_ofEntries_map (items.filterMap plainItem?) (·.1) column with
      absent | ⟨item, source⟩
    · rw [absent, absent]
      exact oneType_null
    · rw [source, source]
      exact ha.oneType_value hb q.scope item.2

end Query

section

variable {scope : Scope} {types : List (String × ColumnType)} {rows : List Row}
  (fits : ∀ row ∈ rows, row.Fits types)
include fits

theorem eq_of_mem_group {groupBy : List ColumnName} {group : List Row}
    (made : group ∈ groupRows scope groupBy rows) {a b : Row} (ha : a ∈ group) (hb : b ∈ group)
    {name : ColumnName} (listed : name ∈ groupBy) (finite : (scope.value a name.text).IsFinite)
    (finite' : (scope.value b name.text).IsFinite) :
    scope.value a name.text = scope.value b name.text := by
  obtain ⟨_, partitioned⟩ := groupRows_partitioned scope groupBy rows
  have keys := partitioned.key_eq made ha hb
  have texts := Value.jsonTuple_inj keys name.text (List.mem_map_of_mem listed)
  have fit := (fits a (partitioned.mem_of_mem_group made ha)).oneType_value
    (fits b (partitioned.mem_of_mem_group made hb)) scope name.text
  exact fit.eq texts finite finite'

theorem evaluate_countDistinct {column : ColumnName}
    (finite : ∀ row ∈ rows, (scope.value row column.text).IsFinite) :
    AggregateCall.evaluate ⟨.count, some column, true⟩ scope rows = .ok (.integer (.ofNat
      ((rows.map (scope.value · column.text)).toFinset.erase .null).card)) := by
  let values := (rows.map (scope.value · column.text)).filter fun v => !v.isNull
  have apart : ∀ v ∈ values, ∀ w ∈ values, v.json = w.json → v = w := by
    intro v hv w hw same
    obtain ⟨a, ha, rfl⟩ := List.mem_map.mp (List.mem_filter.mp hv).1
    obtain ⟨b, hb, rfl⟩ := List.mem_map.mp (List.mem_filter.mp hw).1
    exact ((fits a ha).oneType_value (fits b hb) scope column.text).eq same (finite a ha)
      (finite b hb)
  have some : (firsts Value.json values).filter (fun v => !v.isNull) =
      firsts Value.json values := by
    rw [List.filter_eq_self]
    intro v hv
    exact (List.mem_filter.mp ((firsts_sublist Value.json values).mem hv)).2
  have different : values.toFinset =
      (rows.map (scope.value · column.text)).toFinset.erase .null := by
    ext v
    have kept : v.isNull = false ↔ v ≠ .null := by cases v <;> simp [Value.isNull]
    simp [values, kept, and_comm]
  show Except.ok (countOf (firsts Value.json values)) = _
  rw [countOf, some, length_firsts apart, different]

end

end SqlEngine
