import SqlEngine.Proofs.Execution.Settled
import SqlEngine.Proofs.Execution.Staging

/-! What a statement does to the rows of a table, whether all writes of its plan are made or only a
first part of them. -/

namespace SqlEngine.Execution

open Dialect Script Store

variable {b : Bounds} {s : Store}

/-- The rows of a table before and after some first part of a statement's writes. -/
inductive RowsStep (t : Table) : List StoredRow → List StoredRow → Prop where
  | same {rows : List StoredRow} : RowsStep t rows rows
  | inserted {rows : List StoredRow} {columns : List Column} {values : List (List Value)}
      {staged : List Row} (next n : Nat)
      (passed : insertedRows t columns (rows.map (·.data)) values = .ok staged) :
      RowsStep t rows (rows ++ numbered t.id next (staged.take n))
  | updated {rows : List StoredRow} {scope : Scope} {condition : Option Condition}
      {assignments : List (String × Value)} {changes : List (Column × Value)}
      {staged : List (Nat × Row)} (n : Nat)
      (converted : conversions t assignments = .ok changes)
      (passed : updatedRows t changes (partitionRows scope condition rows).1
        (partitionRows scope condition rows).2 = .ok staged) :
      RowsStep t rows (rows.map (putStaged (staged.take n)))
  | deleted {rows rest : List StoredRow} (kept : rest.Sublist rows) : RowsStep t rows rest

theorem partitionRows_fst (scope : Scope) (condition : Option Condition) (rows : List StoredRow) :
    (partitionRows scope condition rows).1 =
      rows.filter fun r => satisfies scope condition r.data := by
  simp [partitionRows, List.partition_eq_filter_filter]

theorem partitionRows_snd (scope : Scope) (condition : Option Condition) (rows : List StoredRow) :
    (partitionRows scope condition rows).2 =
      rows.filter fun r => !satisfies scope condition r.data := by
  simp [partitionRows, List.partition_eq_filter_filter, Function.comp_def]

theorem mem_meant {scope : Scope} {condition : Option Condition} {rows : List StoredRow}
    {r : StoredRow} (h : r ∈ (partitionRows scope condition rows).1) : r ∈ rows := by
  rw [partitionRows_fst] at h
  exact (List.mem_filter.mp h).1

theorem mem_partitionRows {scope : Scope} {condition : Option Condition} {rows : List StoredRow}
    {r : StoredRow} (h : r ∈ rows) :
    r ∈ (partitionRows scope condition rows).1 ∨ r ∈ (partitionRows scope condition rows).2 := by
  rw [partitionRows_fst, partitionRows_snd, List.mem_filter, List.mem_filter]
  cases satisfies scope condition r.data <;> simp [h]

theorem meant_ids {scope : Scope} {condition : Option Condition} {rows : List StoredRow}
    (distinct : (rows.map (·.id)).Nodup) :
    ((partitionRows scope condition rows).1.map (·.id)).Nodup := by
  rw [partitionRows_fst]
  exact distinct.sublist (List.filter_sublist.map _)

theorem staged_ids {t : Table} {changes : List (Column × Value)} {meant others : List StoredRow}
    {staged : List (Nat × Row)} (ok : updatedRows t changes meant others = .ok staged) :
    staged.map (·.1) = meant.map (·.id) := by
  obtain ⟨⟨entries, -, rfl⟩, -⟩ := updatedRows_ok ok
  simp [Function.comp_def]

/-- The rows after the first writes of an UPDATE: some of those that it means hold their new values,
all others are as before. -/
theorem putStaged_meant {rows meant : List StoredRow} (distinct : (rows.map (·.id)).Nodup)
    (among : ∀ q ∈ meant, q ∈ rows) (entries : List (String × Value)) (n : Nat) :
    ∀ r ∈ rows, putStaged ((meant.map fun q => (q.id, q.data.putAll entries)).take n) r = r ∨
      r ∈ meant ∧ putStaged ((meant.map fun q => (q.id, q.data.putAll entries)).take n) r =
        { r with data := r.data.putAll entries } := by
  intro r hr
  rw [← List.map_take, putStaged]
  cases found : ((meant.take n).map fun q => (q.id, q.data.putAll entries)).lookup r.id with
  | none => exact .inl rfl
  | some data =>
    obtain ⟨before, after, split, -⟩ := List.lookup_eq_some_iff.mp found
    have listed : (r.id, data) ∈ (meant.take n).map fun q => (q.id, q.data.putAll entries) := by
      simp [split]
    obtain ⟨q, hq, same⟩ := List.mem_map.mp listed
    simp only [Prod.mk.injEq] at same
    have hq := List.mem_of_mem_take hq
    have : q = r := List.inj_on_of_nodup_map distinct (among q hq) hr same.1
    subst this
    exact .inr ⟨hq, by rw [← same.2]⟩

theorem get_putStaged_meant {rows meant : List StoredRow} {entries : List (String × Value)}
    (distinct : (rows.map (·.id)).Nodup) (among : ∀ q ∈ meant, q ∈ rows) (n : Nat) {name : String}
    (unassigned : name ∉ entries.map (·.1)) {r : StoredRow} (hr : r ∈ rows) :
    (putStaged ((meant.map fun q => (q.id, q.data.putAll entries)).take n) r).data.get name =
      r.data.get name := by
  rcases putStaged_meant distinct among entries n r hr with same | ⟨-, changed⟩
  · rw [same]
  · rw [changed, Row.get_putAll_of_not_mem unassigned]

theorem accepts_single {c : StoreCall} {a : c.Answer} {t : Store}
    (answered : s.answer c = .ok (a, t)) : s.Accepts [c] :=
  ⟨a, t, answered, trivial⟩

theorem answer_createTable {name : String} {columns : List Column}
    {indexes : List IndexDefinition} (absent : s.tableNamed? name = none) :
    s.answer (.createTable name columns indexes) = .ok (s.nextTable,
      { s with tables := s.tables ++ [⟨s.nextTable, name, columns, indexes⟩],
               nextTable := s.nextTable + 1 }) := by
  show s.createTable name columns indexes = _
  rw [Store.createTable, absent]
  rfl

theorem answer_dropTable {id : Nat} (there : s.hasTable id = true) :
    s.answer (.dropTable id) = .ok ((),
      { s with tables := s.tables.filter (·.id != id)
               rows := s.rows.filter (·.table != id) }) := by
  show (s.dropTable id).map _ = _
  rw [Store.dropTable, if_pos there]
  rfl

theorem answer_setIndexes {id : Nat} {indexes : List IndexDefinition}
    (there : s.hasTable id = true) :
    s.answer (.setIndexes id indexes) = .ok ((),
      { s with tables := s.tables.map fun t => if t.id = id then { t with indexes } else t }) := by
  show (s.setIndexes id indexes).map _ = _
  rw [Store.setIndexes, if_pos there]
  rfl

theorem hasTable_of_named {name : String} {t : Table} (named : s.named name = .ok t) :
    s.hasTable t.id = true :=
  hasTable_of_mem (s.mem_of_named named)

theorem staged_there (hs : s.Numbered) {id : Nat} {t : Table} {changes : List (Column × Value)}
    {scope : Scope} {condition : Option Condition} {staged : List (Nat × Row)}
    (ok : updatedRows t changes (partitionRows scope condition (s.rowsOf id)).1
      (partitionRows scope condition (s.rowsOf id)).2 = .ok staged) :
    (staged.map (·.1)).Nodup ∧ ∀ e ∈ staged, ∃ r ∈ s.rowsOf id, r.id = e.1 := by
  have ids := staged_ids ok
  refine ⟨ids ▸ meant_ids (hs.rowsOf_ids id), fun e he => ?_⟩
  have listed : e.1 ∈ staged.map (·.1) := List.mem_map_of_mem he
  rw [ids] at listed
  obtain ⟨r, hr, same⟩ := List.mem_map.mp listed
  exact ⟨r, mem_meant hr, same⟩

theorem Settled.accepts {st : Statement} {p : Plan} (h : Settled b s st p) (hs : s.Numbered) :
    s.Accepts p.writes := by
  cases h with
  | nothing => trivial
  | createTable absent settled quota => exact accepts_single (answer_createTable absent)
  | dropTable named => exact accepts_single (answer_dropTable (hasTable_of_named named))
  | createIndex named allowed built =>
    exact accepts_single (answer_setIndexes (hasTable_of_named named))
  | insert named received quota staged => exact (insertRows (hasTable_of_named named) _).1
  | update named converted readable passed =>
    obtain ⟨distinct, there⟩ := staged_there hs passed
    refine (updateRows distinct fun e he => ?_).1
    obtain ⟨r, hr, same⟩ := there e he
    exact ⟨r, (mem_rowsOf.mp hr).1, same⟩
  | delete named readable chosen =>
    subst chosen
    exact (deleteRows (meant_ids (hs.rowsOf_ids _)) fun r hr => (mem_rowsOf.mp (mem_meant hr)).1).1

end SqlEngine.Execution
