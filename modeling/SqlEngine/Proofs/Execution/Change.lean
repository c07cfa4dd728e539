import SqlEngine.Proofs.Execution.Effect

/-! What the writes of a statement make of the store, whether all of them are made or only a first
part, and where the tables come from that are there afterwards. -/

namespace SqlEngine.Execution

open Dialect Script Store

variable {b : Bounds} {s after : Store} {st : Statement}

/-- The store after some first part of the writes of a statement. -/
inductive Change (s : Store) : Statement → Store → Prop where
  | same {st : Statement} : Change s st s
  | created {c : CreateTable} {columns : List Column} (absent : s.tableNamed? c.table = none)
      (settled : settleColumns c.columns = .ok columns) :
      Change s (.createTable c) { s with
        tables := s.tables ++ [⟨s.nextTable, c.table, columns, []⟩]
        nextTable := s.nextTable + 1 }
  | dropped {d : DropTable} {t : Table} (named : s.named d.table = .ok t) :
      Change s (.dropTable d) { s with
        tables := s.tables.filter (·.id != t.id)
        rows := s.rows.filter (·.table != t.id) }
  | indexed {c : CreateIndex} {t : Table} (named : s.named c.table = .ok t)
      (allowed : checkIndex t c.index = .ok ()) :
      Change s (.createIndex c) { s with
        tables := s.tables.map fun u =>
          if u.id = t.id then { u with indexes := t.indexes ++ [c.index] } else u }
  | inserted {i : Insert} {t : Table} {columns : List Column} {rows : List Row} (n : Nat)
      (named : s.named i.table = .ok t)
      (staged : insertedRows t columns ((s.rowsOf t.id).map (·.data)) i.values = .ok rows) :
      Change s (.insert i) { s with
        rows := s.rows ++ numbered t.id s.nextRow (rows.take n)
        nextRow := s.nextRow + (rows.take n).length }
  | updated {u : Update} {t : Table} {changes : List (Column × Value)}
      {staged : List (Nat × Row)} (n : Nat) (named : s.named u.table = .ok t)
      (converted : conversions t u.assignments = .ok changes)
      (passed : updatedRows t changes
        (partitionRows (.ofTable t.name none) u.condition (s.rowsOf t.id)).1
        (partitionRows (.ofTable t.name none) u.condition (s.rowsOf t.id)).2 = .ok staged) :
      Change s (.update u) { s with rows := s.rows.map (putStaged (staged.take n)) }
  | deleted {d : Delete} {t : Table} {doomed : List StoredRow} (named : s.named d.table = .ok t)
      (there : ∀ r ∈ doomed, r ∈ s.rowsOf t.id) :
      Change s (.delete d) { s with
        rows := s.rows.filter fun r => !(doomed.map (·.id)).contains r.id }

theorem change_single {c : StoreCall} (written : Change s st (s.afterCall c)) (n : Nat) :
    Change s st (s.afterCalls ([c].take n)) := by
  cases n with
  | zero => exact .same
  | succ n => simpa using written

theorem Settled.change {p : Plan} (h : Settled b s st p) (hs : s.Numbered) (n : Nat) :
    Change s st (s.afterCalls (p.writes.take n)) := by
  cases h with
  | nothing =>
    rw [List.take_nil]
    exact .same
  | createTable absent settled quota =>
    refine change_single ?_ n
    rw [afterCall_of_answer (answer_createTable absent)]
    exact .created absent settled
  | dropTable named =>
    refine change_single ?_ n
    rw [afterCall_of_answer (answer_dropTable (hasTable_of_named named))]
    exact .dropped named
  | createIndex named allowed built =>
    refine change_single ?_ n
    rw [afterCall_of_answer (answer_setIndexes (hasTable_of_named named))]
    exact .indexed named allowed
  | @insert i t columns rows named received quota staged =>
    rw [← List.map_take, (insertRows (hasTable_of_named named) (rows.take n)).2]
    exact .inserted n named staged
  | @update u t changes staged named converted readable passed =>
    obtain ⟨distinct, there⟩ := staged_there hs passed
    have first : ∀ e ∈ staged.take n, ∃ r ∈ s.rows, r.id = e.1 := by
      intro e he
      obtain ⟨r, hr, found⟩ := there e (List.mem_of_mem_take he)
      exact ⟨r, (mem_rowsOf.mp hr).1, found⟩
    rw [← List.map_take,
      (updateRows (distinct.sublist ((List.take_sublist n staged).map _)) first).2]
    exact .updated n named converted passed
  | @delete d t meant named readable chosen =>
    have there : ∀ r ∈ meant.take n, r ∈ s.rowsOf t.id := by
      intro r hr
      subst chosen
      exact mem_meant (List.mem_of_mem_take hr)
    have distinct : ((meant.take n).map (·.id)).Nodup := by
      subst chosen
      exact (meant_ids (hs.rowsOf_ids _)).sublist ((List.take_sublist n _).map _)
    rw [← List.map_take, (deleteRows distinct fun r hr => (mem_rowsOf.mp (there r hr)).1).2]
    exact .deleted named there

theorem rowsOf_insertRows {s : Store} (table next id : Nat) (rows : List Row) (limit : Nat) :
    ({ s with rows := s.rows ++ numbered table next rows, nextRow := limit } : Store).rowsOf id =
      if id = table then s.rowsOf id ++ numbered table next rows else s.rowsOf id := by
  simp only [rowsOf, List.filter_append, rowsOf_numbered]
  split <;> simp

theorem rowsOf_updateRows {s : Store} (staged : List (Nat × Row)) (id : Nat) :
    ({ s with rows := s.rows.map (putStaged staged) } : Store).rowsOf id =
      (s.rowsOf id).map (putStaged staged) :=
  filter_putStaged staged s.rows id

theorem rowsOf_filter {s : Store} (tables : List Table) (keep : StoredRow → Bool) (id : Nat) :
    ({ s with tables, rows := s.rows.filter keep } : Store).rowsOf id =
      (s.rowsOf id).filter keep := by
  simp only [rowsOf, List.filter_filter, Bool.and_comm]

theorem map_putStaged_other (hs : s.Numbered) {staged : List (Nat × Row)} {table other : Nat}
    (there : ∀ e ∈ staged, ∃ r ∈ s.rowsOf table, r.id = e.1) (differs : other ≠ table) :
    (s.rowsOf other).map (putStaged staged) = s.rowsOf other := by
  have passed : ∀ r ∈ s.rowsOf other, putStaged staged r = r := by
    intro r hr
    refine putStaged_of_not_mem fun e he same => ?_
    obtain ⟨q, hq, found⟩ := there e he
    rw [mem_rowsOf] at hq hr
    have : q = r := hs.row_ext hq.1 hr.1 (found.trans same)
    exact differs (by rw [← hr.2, ← hq.2, this])
  calc (s.rowsOf other).map (putStaged staged)
      = (s.rowsOf other).map id := List.map_congr_left passed
    _ = s.rowsOf other := List.map_id _

theorem filter_dropped_other {table other : Nat} (differs : other ≠ table) :
    (s.rowsOf other).filter (·.table != table) = s.rowsOf other := by
  rw [List.filter_eq_self]
  intro r hr
  rw [mem_rowsOf] at hr
  simpa [hr.2] using differs

theorem filter_deleted_other (hs : s.Numbered) {doomed : List StoredRow} {table other : Nat}
    (there : ∀ r ∈ doomed, r ∈ s.rowsOf table) (differs : other ≠ table) :
    (s.rowsOf other).filter (fun r => !(doomed.map (·.id)).contains r.id) = s.rowsOf other := by
  rw [List.filter_eq_self]
  intro r hr
  simp only [Bool.not_eq_true', List.contains_eq_mem, decide_eq_false_iff_not, List.mem_map,
    not_exists, not_and]
  intro q hq same
  have hq := mem_rowsOf.mp (there q hq)
  rw [mem_rowsOf] at hr
  have : q = r := hs.row_ext hq.1 hr.1 same
  exact differs (by rw [← hr.2, ← hq.2, this])

/-- A table after some writes of a statement: the statement has created it, or it was there before
with the same columns, and its rows have made a step. -/
inductive Origin (s after : Store) (st : Statement) (t : Table) : Prop where
  | created {c : CreateTable} (is : st = .createTable c)
      (settled : settleColumns c.columns = .ok t.columns) (empty : after.rowsOf t.id = [])
  | kept {old : Table} (was : old ∈ s.tables) (id : old.id = t.id) (name : old.name = t.name)
      (columns : old.columns = t.columns)
      (step : RowsStep old (s.rowsOf old.id) (after.rowsOf old.id))

theorem Origin.same {after : Store} {st : Statement} {t : Table} (ht : t ∈ s.tables)
    (rows : after.rowsOf t.id = s.rowsOf t.id) : Origin s after st t :=
  .kept ht rfl rfl rfl (rows ▸ .same)

theorem rowsOf_nextTable (hs : s.Numbered) : s.rowsOf s.nextTable = [] := by
  rw [List.eq_nil_iff_forall_not_mem]
  intro r hr
  rw [mem_rowsOf] at hr
  obtain ⟨u, hu, owns⟩ := hs.owned r hr.1
  have below := hs.tableBound u hu
  omega

theorem Change.origin (h : Change s st after) (hs : s.Numbered) :
    ∀ t ∈ after.tables, Origin s after st t := by
  intro t ht
  cases h with
  | same => exact .same ht rfl
  | created absent settled =>
    rcases List.mem_append.mp ht with ht | ht
    · exact .same ht rfl
    · rw [List.mem_singleton] at ht
      subst ht
      exact .created rfl settled (rowsOf_nextTable hs)
  | dropped named =>
    simp only [List.mem_filter, bne_iff_ne] at ht
    exact .same ht.1 (by rw [rowsOf_filter, filter_dropped_other ht.2])
  | indexed named allowed =>
    obtain ⟨old, hold, rfl⟩ := List.mem_map.mp ht
    refine .kept hold ?_ ?_ ?_ .same <;> split <;> rfl
  | @inserted i into columns rows n named staged =>
    by_cases same : t.id = into.id
    · have := hs.table_ext ht (s.mem_of_named named) same
      subst this
      refine .kept ht rfl rfl rfl ?_
      rw [rowsOf_insertRows, if_pos rfl]
      exact .inserted _ n staged
    · exact .same ht (by rw [rowsOf_insertRows, if_neg same])
  | @updated u of changes staged n named converted passed =>
    by_cases same : t.id = of.id
    · have := hs.table_ext ht (s.mem_of_named named) same
      subst this
      refine .kept ht rfl rfl rfl ?_
      rw [rowsOf_updateRows]
      exact .updated n converted passed
    · have first : ∀ e ∈ staged.take n, ∃ r ∈ s.rowsOf of.id, r.id = e.1 :=
        fun e he => (staged_there hs passed).2 e (List.mem_of_mem_take he)
      exact .same ht (by rw [rowsOf_updateRows, map_putStaged_other hs first same])
  | deleted named there =>
    refine .kept ht rfl rfl rfl (.deleted ?_)
    rw [rowsOf_filter]
    exact List.filter_sublist

theorem checkIndex_eq_ok {t : Table} {d : IndexDefinition} {u : Unit} :
    checkIndex t d = .ok u ↔
      d.name ∉ t.indexes.map (·.name) ∧ ∀ name ∈ d.columns, name ∈ t.columnNames := by
  unfold checkIndex
  split
  · next taken =>
    simp only [Table.index?, List.find?_isSome, beq_iff_eq] at taken
    simp [taken]
  · next fresh =>
    split
    · next c missing =>
      have listed := List.mem_of_find?_eq_some missing
      have absent : c ∉ t.columnNames := by
        rw [← Table.hasColumn_iff]
        simpa using List.find?_some missing
      exact ⟨nofun, fun passed => absurd (passed.2 c listed) absent⟩
    · next complete =>
      simp only [Table.index?, List.find?_isSome, beq_iff_eq, not_exists, not_and] at fresh
      simp only [List.find?_eq_none, Bool.not_eq_true', Bool.not_eq_false,
        Table.hasColumn_iff] at complete
      simpa using ⟨fresh, complete⟩

/-- A statement leaves a table as it was defined, or gives it one more index, or makes it without
any. -/
theorem Change.table (h : Change s st after) (hs : s.Numbered) {t : Table}
    (ht : t ∈ after.tables) :
    t ∈ s.tables ∨ t.indexes = [] ∨
      ∃ u ∈ s.tables, ∃ d, checkIndex u d = .ok () ∧ t = { u with indexes := u.indexes ++ [d] } := by
  cases h with
  | same => exact .inl ht
  | created absent settled =>
    rcases List.mem_append.mp ht with ht | ht
    · exact .inl ht
    · rw [List.mem_singleton] at ht
      exact .inr (.inl (ht ▸ rfl))
  | dropped named => exact .inl (List.mem_filter.mp ht).1
  | indexed named allowed =>
    obtain ⟨u, hu, rfl⟩ := List.mem_map.mp ht
    split
    · next same =>
      have := hs.table_ext hu (s.mem_of_named named) same
      subst this
      exact .inr (.inr ⟨u, hu, _, allowed, rfl⟩)
    · exact .inl hu
  | inserted n named staged => exact .inl ht
  | updated n named converted passed => exact .inl ht
  | deleted named there => exact .inl ht

theorem Change.tables_eq (h : Change s st after) (noTable : ∀ c, st ≠ .createTable c)
    (noDrop : ∀ d, st ≠ .dropTable d) (noIndex : ∀ c, st ≠ .createIndex c) :
    after.tables = s.tables := by
  cases h with
  | created => exact absurd rfl (noTable _)
  | dropped => exact absurd rfl (noDrop _)
  | indexed => exact absurd rfl (noIndex _)
  | _ => rfl

end SqlEngine.Execution
