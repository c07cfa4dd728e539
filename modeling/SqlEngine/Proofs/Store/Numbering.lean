import Mathlib.Data.List.Nodup
import SqlEngine.Proofs.Script.Trace

/-! The numbers of tables and rows. Each is handed out once, so no two tables and no two rows share
one, and every row belongs to a table that is there. Every call of the store keeps this. -/

namespace SqlEngine.Store

structure Numbered (s : Store) : Prop where
  tableIds : (s.tables.map (·.id)).Nodup
  names : (s.tables.map (·.name)).Nodup
  rowIds : (s.rows.map (·.id)).Nodup
  tableBound : ∀ t ∈ s.tables, t.id < s.nextTable
  rowBound : ∀ r ∈ s.rows, r.id < s.nextRow
  owned : ∀ r ∈ s.rows, ∃ t ∈ s.tables, t.id = r.table

theorem mem_of_tableNamed? {s : Store} {name : String} {t : Table}
    (h : s.tableNamed? name = some t) : t ∈ s.tables ∧ t.name = name :=
  ⟨List.mem_of_find?_eq_some h, by simpa using List.find?_some h⟩

theorem tableNamed?_eq_none {s : Store} {name : String} :
    s.tableNamed? name = none ↔ ∀ t ∈ s.tables, t.name ≠ name := by
  simp [tableNamed?]

@[simp] theorem hasTable_iff {s : Store} {id : Nat} :
    s.hasTable id = true ↔ ∃ t ∈ s.tables, t.id = id := by
  simp [hasTable, table?]

theorem hasTable_of_mem {s : Store} {t : Table} (h : t ∈ s.tables) : s.hasTable t.id = true :=
  hasTable_iff.mpr ⟨t, h, rfl⟩

@[simp] theorem mem_rowsOf {s : Store} {table : Nat} {r : StoredRow} :
    r ∈ s.rowsOf table ↔ r ∈ s.rows ∧ r.table = table := by
  simp [rowsOf]

namespace Numbered

variable {s : Store}

theorem table_ext (h : s.Numbered) {t u : Table} (ht : t ∈ s.tables) (hu : u ∈ s.tables)
    (same : t.id = u.id) : t = u :=
  List.inj_on_of_nodup_map h.tableIds ht hu same

theorem table_ext_name (h : s.Numbered) {t u : Table} (ht : t ∈ s.tables) (hu : u ∈ s.tables)
    (same : t.name = u.name) : t = u :=
  List.inj_on_of_nodup_map h.names ht hu same

theorem id_eq_iff (h : s.Numbered) {t u : Table} (ht : t ∈ s.tables) (hu : u ∈ s.tables) :
    t.id = u.id ↔ t.name = u.name :=
  ⟨fun same => by rw [h.table_ext ht hu same], fun same => by rw [h.table_ext_name ht hu same]⟩

theorem row_ext (h : s.Numbered) {r q : StoredRow} (hr : r ∈ s.rows) (hq : q ∈ s.rows)
    (same : r.id = q.id) : r = q :=
  List.inj_on_of_nodup_map h.rowIds hr hq same

theorem rowsOf_ids (h : s.Numbered) (table : Nat) : ((s.rowsOf table).map (·.id)).Nodup :=
  h.rowIds.sublist (List.filter_sublist.map _)

theorem empty : Store.empty.Numbered := by
  constructor <;> simp [Store.empty]

theorem createTable (h : s.Numbered) {t : Store} {name : String} {columns : List Column}
    {indexes : List IndexDefinition} {id : Nat}
    (ok : s.createTable name columns indexes = .ok (id, t)) : t.Numbered := by
  unfold Store.createTable at ok
  split at ok
  · cases ok
  · next fresh =>
    have fresh : ∀ u ∈ s.tables, u.name ≠ name := by
      rw [← tableNamed?_eq_none]
      simpa using fresh
    cases ok
    constructor
    · simp only [List.map_append, List.map_cons, List.map_nil, List.nodup_append]
      refine ⟨h.tableIds, by simp, ?_⟩
      rintro i hi j hj rfl
      obtain ⟨u, hu, rfl⟩ := List.mem_map.mp hi
      have below := h.tableBound u hu
      simp only [List.mem_singleton] at hj
      omega
    · simp only [List.map_append, List.map_cons, List.map_nil, List.nodup_append]
      refine ⟨h.names, by simp, ?_⟩
      rintro n hn m hm rfl
      obtain ⟨u, hu, rfl⟩ := List.mem_map.mp hn
      exact fresh u hu (List.mem_singleton.mp hm)
    · exact h.rowIds
    · intro u hu
      rcases List.mem_append.mp hu with hu | hu
      · exact Nat.lt_succ_of_lt (h.tableBound u hu)
      · rw [List.mem_singleton.mp hu]
        exact Nat.lt_succ_self _
    · exact h.rowBound
    · intro r hr
      obtain ⟨u, hu, owns⟩ := h.owned r hr
      exact ⟨u, List.mem_append_left _ hu, owns⟩

theorem dropTable (h : s.Numbered) {t : Store} {id : Nat} (ok : s.dropTable id = .ok t) :
    t.Numbered := by
  unfold Store.dropTable at ok
  split at ok
  · cases ok
    constructor
    · exact h.tableIds.sublist (List.filter_sublist.map _)
    · exact h.names.sublist (List.filter_sublist.map _)
    · exact h.rowIds.sublist (List.filter_sublist.map _)
    · exact fun u hu => h.tableBound u (List.mem_filter.mp hu).1
    · exact fun r hr => h.rowBound r (List.mem_filter.mp hr).1
    · intro r hr
      simp only [List.mem_filter, bne_iff_ne] at hr
      obtain ⟨u, hu, owns⟩ := h.owned r hr.1
      exact ⟨u, by simp [hu, owns, hr.2], owns⟩
  · cases ok

theorem insertRow (h : s.Numbered) {t : Store} {table id : Nat} {data : Row}
    (ok : s.insertRow table data = .ok (id, t)) : t.Numbered := by
  unfold Store.insertRow at ok
  split at ok
  · next there =>
    cases ok
    constructor
    · exact h.tableIds
    · exact h.names
    · simp only [List.map_append, List.map_cons, List.map_nil, List.nodup_append]
      refine ⟨h.rowIds, by simp, ?_⟩
      rintro i hi j hj rfl
      obtain ⟨r, hr, rfl⟩ := List.mem_map.mp hi
      have below := h.rowBound r hr
      simp only [List.mem_singleton] at hj
      omega
    · exact h.tableBound
    · intro r hr
      rcases List.mem_append.mp hr with hr | hr
      · exact Nat.lt_succ_of_lt (h.rowBound r hr)
      · rw [List.mem_singleton.mp hr]
        exact Nat.lt_succ_self _
    · intro r hr
      rcases List.mem_append.mp hr with hr | hr
      · exact h.owned r hr
      · rw [List.mem_singleton.mp hr]
        exact hasTable_iff.mp there
  · cases ok

theorem updateRow (h : s.Numbered) {t : Store} {id : Nat} {data : Row}
    (ok : s.updateRow id data = .ok t) : t.Numbered := by
  unfold Store.updateRow at ok
  split at ok
  · cases ok
    have kept : ∀ r : StoredRow, (if r.id = id then { r with data } else r).id = r.id := by
      intro r
      split <;> rfl
    constructor
    · exact h.tableIds
    · exact h.names
    · simpa [Function.comp_def, kept] using h.rowIds
    · exact h.tableBound
    · intro r hr
      obtain ⟨q, hq, rfl⟩ := List.mem_map.mp hr
      rw [kept]
      exact h.rowBound q hq
    · intro r hr
      obtain ⟨q, hq, rfl⟩ := List.mem_map.mp hr
      obtain ⟨u, hu, owns⟩ := h.owned q hq
      exact ⟨u, hu, by rw [owns]; split <;> rfl⟩
  · cases ok

theorem deleteRow (h : s.Numbered) {t : Store} {id : Nat} (ok : s.deleteRow id = .ok t) :
    t.Numbered := by
  unfold Store.deleteRow at ok
  split at ok
  · cases ok
    constructor
    · exact h.tableIds
    · exact h.names
    · exact h.rowIds.sublist (List.filter_sublist.map _)
    · exact h.tableBound
    · exact fun r hr => h.rowBound r (List.mem_filter.mp hr).1
    · exact fun r hr => h.owned r (List.mem_filter.mp hr).1
  · cases ok

theorem setIndexes (h : s.Numbered) {t : Store} {table : Nat} {indexes : List IndexDefinition}
    (ok : s.setIndexes table indexes = .ok t) : t.Numbered := by
  unfold Store.setIndexes at ok
  split at ok
  · cases ok
    have kept : ∀ u : Table, (if u.id = table then { u with indexes } else u).id = u.id ∧
        (if u.id = table then { u with indexes } else u).name = u.name := by
      intro u
      split <;> exact ⟨rfl, rfl⟩
    constructor
    · simpa [Function.comp_def, kept] using h.tableIds
    · simpa [Function.comp_def, kept] using h.names
    · exact h.rowIds
    · intro u hu
      obtain ⟨v, hv, rfl⟩ := List.mem_map.mp hu
      rw [(kept v).1]
      exact h.tableBound v hv
    · exact h.rowBound
    · intro r hr
      obtain ⟨u, hu, owns⟩ := h.owned r hr
      exact ⟨_, List.mem_map_of_mem hu, by rw [(kept u).1, owns]⟩
  · cases ok

theorem answer (h : s.Numbered) {t : Store} {c : StoreCall} {a : c.Answer}
    (ok : s.answer c = .ok (a, t)) : t.Numbered := by
  have mapped : ∀ {r : Except StoreFault Store} {x : Unit},
      r.map (fun u => ((), u)) = .ok (x, t) → r = .ok t := by
    intro r x hr
    cases r with
    | error e => cases hr
    | ok u => cases hr; rfl
  cases c with
  | tableNamed name => cases ok; exact h
  | tableNames => cases ok; exact h
  | createTable name columns indexes => exact h.createTable ok
  | dropTable table => exact h.dropTable (mapped ok)
  | tableCount => cases ok; exact h
  | insertRow table data => exact h.insertRow ok
  | selectRows table =>
    simp only [Store.answer, selectRows] at ok
    split at ok <;> cases ok
    exact h
  | updateRow row data => exact h.updateRow (mapped ok)
  | deleteRow row => exact h.deleteRow (mapped ok)
  | setIndexes table indexes => exact h.setIndexes (mapped ok)

theorem afterCall (h : s.Numbered) (c : StoreCall) : (s.afterCall c).Numbered := by
  unfold Store.afterCall
  split
  · next answered => exact h.answer answered
  · exact h

theorem afterCalls (h : s.Numbered) (calls : List StoreCall) : (s.afterCalls calls).Numbered := by
  induction calls generalizing s with
  | nil => exact h
  | cons c rest ih => exact ih (h.afterCall c)

end Numbered
end SqlEngine.Store
