import SqlEngine.Proofs.Execution.Change
import SqlEngine.Proofs.Index.Catalog

/-! What a statement leaves alone. The rows of all tables stand in one list, and rows are changed and
deleted by their numbers only; a table that the statement does not name is kept all the same, with
its rows and its indexes. -/

namespace SqlEngine

open Dialect Execution Script Store

namespace Dialect.Statement

def tables : Statement → List String
  | select s => s.source.name :: s.joins.map (·.table.name)
  | insert s => [s.table]
  | update s => [s.table]
  | delete s => [s.table]
  | createTable s => [s.table]
  | createIndex s => [s.table]
  | dropTable s => [s.table]
  | showTables => []
  | describe table => [table]

/-- Whether a statement only lists something. -/
def isQuery : Statement → Bool
  | select _ => true
  | showTables => true
  | describe _ => true
  | _ => false

end Dialect.Statement

namespace Execution

variable {b : Bounds} {s after : Store} {st : Statement}

theorem id_ne_of_named (hs : s.Numbered) {t u : Table} {name : String} (ht : t ∈ s.tables)
    (named : s.named name = .ok u) (differs : t.name ≠ name) : t.id ≠ u.id := by
  obtain ⟨hu, isNamed⟩ := mem_of_tableNamed? (named_eq_ok.mp named)
  rw [Ne, hs.id_eq_iff ht hu, isNamed]
  exact differs

theorem Change.mem_tables_of_unnamed (h : Change s st after) (hs : s.Numbered) {t : Table}
    (unnamed : t.name ∉ st.tables) : t ∈ after.tables ↔ t ∈ s.tables := by
  cases h with
  | same => rfl
  | @created c columns absent settled =>
    have differs : t ≠ ⟨s.nextTable, c.table, columns, []⟩ := by
      rintro rfl
      simp [Statement.tables] at unnamed
    simp [differs]
  | dropped named =>
    simp only [List.mem_filter, bne_iff_ne, and_iff_left_iff_imp]
    exact fun ht => id_ne_of_named hs ht named (by simpa [Statement.tables] using unnamed)
  | @indexed c of named allowed =>
    have other : t.name ≠ c.table := by simpa [Statement.tables] using unnamed
    constructor
    · intro ht
      obtain ⟨u, hu, rfl⟩ := List.mem_map.mp ht
      split
      · next same =>
        rw [if_pos same, ← (mem_of_tableNamed? (named_eq_ok.mp named)).2,
          hs.table_ext hu (s.mem_of_named named) same] at other
        exact absurd rfl other
      · exact hu
    · intro ht
      exact List.mem_map.mpr ⟨t, ht, if_neg (id_ne_of_named hs ht named other)⟩
  | inserted n named staged => rfl
  | updated n named converted passed => rfl
  | deleted named there => rfl

theorem Change.rowsOf_of_unnamed (h : Change s st after) (hs : s.Numbered) {t : Table}
    (ht : t ∈ s.tables) (unnamed : t.name ∉ st.tables) : after.rowsOf t.id = s.rowsOf t.id := by
  cases h with
  | same => rfl
  | created absent settled => rfl
  | dropped named =>
    have differs := id_ne_of_named hs ht named (by simpa [Statement.tables] using unnamed)
    rw [rowsOf_filter, filter_dropped_other differs]
  | indexed named allowed => rfl
  | inserted n named staged =>
    have differs := id_ne_of_named hs ht named (by simpa [Statement.tables] using unnamed)
    rw [rowsOf_insertRows, if_neg differs]
  | updated n named converted passed =>
    have differs := id_ne_of_named hs ht named (by simpa [Statement.tables] using unnamed)
    rw [rowsOf_updateRows]
    refine map_putStaged_other hs (fun e he => ?_) differs
    exact (staged_there hs passed).2 e (List.mem_of_mem_take he)
  | deleted named there =>
    have differs := id_ne_of_named hs ht named (by simpa [Statement.tables] using unnamed)
    rw [rowsOf_filter, filter_deleted_other hs there differs]

theorem Change.of_query (h : Change s st after) (query : st.isQuery = true) : after = s := by
  cases h <;> first | rfl | cases query

theorem Settled.get?_of_unnamed {p : Plan} (h : Settled b s st p) {name : String}
    (unnamed : name ∉ st.tables) (c : Index.Catalog) (index : String) :
    (p.change.apply c).get? name index = c.get? name index := by
  cases h with
  | @dropTable d t output named =>
    have isNamed := (mem_of_tableNamed? (named_eq_ok.mp named)).2
    have differs : name ≠ t.name := by simpa [Statement.tables, isNamed] using unnamed
    rw [IndexChange.apply, Index.Catalog.get?_evict, if_neg differs]
  | @createIndex d t tree output named allowed built =>
    have isNamed := (mem_of_tableNamed? (named_eq_ok.mp named)).2
    have differs : name ≠ t.name := by simpa [Statement.tables, isNamed] using unnamed
    rw [IndexChange.apply, Index.Catalog.get?_put, if_neg fun same => differs same.1]
  | _ => rfl

theorem Settled.apply_of_query {p : Plan} (h : Settled b s st p) (query : st.isQuery = true)
    (c : Index.Catalog) : p.change.apply c = c := by
  cases h <;> first | rfl | cases query

end Execution
end SqlEngine
