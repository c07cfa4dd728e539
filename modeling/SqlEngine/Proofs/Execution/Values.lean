import SqlEngine.Proofs.Execution.Effect

/-! The values that the rows of a table hold. A statement gives a column only values that have
passed the rules of that column. -/

namespace SqlEngine.Execution

open Store

def Passes (c : Column) (w : Value) : Prop :=
  ∃ omitted v, ((∃ u, c.coerce u = .ok v) ∨ c.autoIncrement = true ∧ ∃ n, v = .integer n) ∧
    fillMissing c omitted v = .ok w

theorem passes_columnValue {given : List (String × Value)} {next : Option Int64} {c : Column}
    {w : Value} (ok : columnValue given next c = .ok w) : Passes c w := by
  simp only [columnValue, Success.bind_eq_ok] at ok
  obtain ⟨v, converted, ok⟩ := ok
  refine ⟨_, _, ?_, ok⟩
  cases next with
  | none => exact .inl ⟨_, converted⟩
  | some n =>
    by_cases generated : v.isNull && c.autoIncrement
    · simp only [generated, if_true]
      rw [Bool.and_eq_true] at generated
      exact .inr ⟨generated.2, n, rfl⟩
    · simp only [generated]
      exact .inl ⟨_, converted⟩

variable {t : Table} {c : Column} {rows rows' : List StoredRow}

/-- Where the data of a row come from after a step: they were there before, or they are those of a
new row, or assigned entries were put into those of an old row. -/
inductive DataOrigin (t : Table) (rows : List StoredRow) (data : Row) : Prop where
  | kept {r : StoredRow} (was : r ∈ rows) (same : data = r.data)
  | made {given : List (String × Value)} {next : Option Int64}
      (ok : newRow t given next = .ok data)
  | assigned {r : StoredRow} {assignments : List (String × Value)}
      {changes : List (Column × Value)} {entries : List (String × Value)} (was : r ∈ rows)
      (converted : conversions t assignments = .ok changes) (settled : filled changes = .ok entries)
      (put : data = r.data.putAll entries)

theorem RowsStep.dataOrigin (step : RowsStep t rows rows') (ids : (rows.map (·.id)).Nodup) :
    ∀ r' ∈ rows', DataOrigin t rows r'.data := by
  intro r' hr'
  cases step with
  | same => exact .kept hr' rfl
  | deleted kept => exact .kept (kept.subset hr') rfl
  | @inserted columns values staged next n passed =>
    rcases List.mem_append.mp hr' with hr' | hr'
    · exact .kept hr' rfl
    · have new : r'.data ∈ staged.take n := by
        rw [← map_data_numbered t.id next (staged.take n)]
        exact List.mem_map_of_mem hr'
      obtain ⟨origin, -, -⟩ := insertedRows_ok passed
      obtain ⟨given, -, -, number, ok⟩ :=
        Success.exists_left_of_mem origin (List.mem_of_mem_take new)
      exact .made ok
  | @updated scope condition assignments changes staged n converted passed =>
    obtain ⟨⟨entries, settled, rfl⟩, -, -⟩ := updatedRows_ok passed
    obtain ⟨r, hr, rfl⟩ := List.mem_map.mp hr'
    rcases putStaged_meant ids (fun _ => mem_meant) entries n r hr with same | ⟨meant, changed⟩
    · exact .kept hr (by rw [same])
    · exact .assigned hr converted (settled (List.ne_nil_of_mem meant)) (by rw [changed])

theorem passes_assigned (distinct : (t.columns.map (·.name)).Nodup) (hc : c ∈ t.columns)
    {assignments : List (String × Value)} {changes : List (Column × Value)}
    {entries : List (String × Value)} (converted : conversions t assignments = .ok changes)
    (settled : filled changes = .ok entries) {v : Value} (assigned : (c.name, v) ∈ entries) :
    Passes c v := by
  obtain ⟨change, hchange, name, filled⟩ := filled_ok settled _ assigned
  obtain ⟨listed, u, coerced⟩ := conversions_ok converted change hchange
  have same : change.1 = c := List.inj_on_of_nodup_map distinct listed hc name.symm
  rw [same] at coerced filled
  exact ⟨_, _, .inl ⟨u, coerced⟩, filled⟩

/-- After a step, a column of a row holds what it has held before in some row, or what its rules
have let pass. -/
theorem RowsStep.values (step : RowsStep t rows rows')
    (distinct : (t.columns.map (·.name)).Nodup) (ids : (rows.map (·.id)).Nodup)
    (hc : c ∈ t.columns) : ∀ r' ∈ rows',
      (∃ r ∈ rows, r'.data.get c.name = r.data.get c.name) ∨ Passes c (r'.data.get c.name) := by
  intro r' hr'
  cases step.dataOrigin ids r' hr' with
  | kept was same => exact .inl ⟨_, was, by rw [same]⟩
  | made ok => exact .inr (passes_columnValue (get_newRow distinct ok hc))
  | @assigned r assignments changes entries was converted settled put =>
    rw [put]
    by_cases assigned : c.name ∈ entries.map (·.1)
    · obtain ⟨v, listed, fixed⟩ := Row.exists_get_putAll assigned
      rw [fixed]
      exact .inr (passes_assigned distinct hc converted settled listed)
    · exact .inl ⟨r, was, Row.get_putAll_of_not_mem assigned⟩

theorem RowsStep.names (step : RowsStep t rows rows') (distinct : t.columnNames.Nodup)
    (ids : (rows.map (·.id)).Nodup) (h : ∀ r ∈ rows, r.data.names = t.columnNames) :
    ∀ r ∈ rows', r.data.names = t.columnNames := by
  intro r' hr'
  cases step.dataOrigin ids r' hr' with
  | kept was same => rw [same, h _ was]
  | made ok => exact newRow_names distinct ok
  | @assigned r assignments changes entries was converted settled put =>
    rw [put, ← h r was]
    refine Row.names_putAll_of_subset fun entry hentry => ?_
    obtain ⟨change, hchange, name, -⟩ := filled_ok settled entry hentry
    rw [h r was, name]
    exact List.mem_map_of_mem (conversions_ok converted change hchange).1

end SqlEngine.Execution
