import SqlEngine.Proofs.Store.Numbering

/-! What a run of writes of one kind makes of a store. -/

namespace SqlEngine.Store

variable {s : Store}

def numbered (table : Nat) : (next : Nat) → List Row → List StoredRow
  | _, [] => []
  | next, data :: rest => ⟨next, table, data⟩ :: numbered table (next + 1) rest

@[simp] theorem map_data_numbered (table next : Nat) (rows : List Row) :
    (numbered table next rows).map (·.data) = rows := by
  induction rows generalizing next with
  | nil => rfl
  | cons data rest ih => simp [numbered, ih]

theorem table_of_mem_numbered {table next : Nat} {rows : List Row} {r : StoredRow}
    (h : r ∈ numbered table next rows) : r.table = table := by
  induction rows generalizing next with
  | nil => cases h
  | cons data rest ih =>
    rcases List.mem_cons.mp h with rfl | h
    · rfl
    · exact ih h

theorem rowsOf_numbered {table next id : Nat} {rows : List Row} :
    (numbered table next rows).filter (·.table == id) =
      if id = table then numbered table next rows else [] := by
  split
  · next same =>
    rw [List.filter_eq_self]
    intro r hr
    simp [table_of_mem_numbered hr, same]
  · next differs =>
    rw [List.filter_eq_nil_iff]
    intro r hr
    simpa [table_of_mem_numbered hr] using Ne.symm differs

theorem insertRows {table : Nat} (there : s.hasTable table = true) (rows : List Row) :
    s.Accepts (rows.map (.insertRow table)) ∧
    s.afterCalls (rows.map (.insertRow table)) =
      { s with rows := s.rows ++ numbered table s.nextRow rows,
               nextRow := s.nextRow + rows.length } := by
  induction rows generalizing s with
  | nil => exact ⟨trivial, by simp [numbered]⟩
  | cons data rest ih =>
    have answered : s.answer (.insertRow table data) = .ok (s.nextRow,
        { s with rows := s.rows ++ [⟨s.nextRow, table, data⟩], nextRow := s.nextRow + 1 }) := by
      show s.insertRow table data = _
      rw [insertRow, if_pos there]
      rfl
    have inner := ih (s := { s with rows := s.rows ++ [⟨s.nextRow, table, data⟩],
                                    nextRow := s.nextRow + 1 }) there
    refine ⟨⟨_, _, answered, inner.1⟩, ?_⟩
    rw [List.map_cons, afterCalls_cons, afterCall_of_answer answered, inner.2]
    simp [numbered, Nat.add_assoc, Nat.add_comm 1]

def putStaged (staged : List (Nat × Row)) (r : StoredRow) : StoredRow :=
  match staged.lookup r.id with
  | some data => { r with data }
  | none => r

@[simp] theorem putStaged_table (staged : List (Nat × Row)) (r : StoredRow) :
    (putStaged staged r).table = r.table := by
  unfold putStaged
  split <;> rfl

theorem putStaged_of_not_mem {staged : List (Nat × Row)} {r : StoredRow}
    (h : ∀ e ∈ staged, e.1 ≠ r.id) : putStaged staged r = r := by
  have absent : staged.lookup r.id = none := by
    rw [List.lookup_eq_none_iff]
    intro e he
    simpa using Ne.symm (h e he)
  simp [putStaged, absent]

theorem map_putStaged_filter {rows : List StoredRow} (distinct : (rows.map (·.id)).Nodup)
    (meant : StoredRow → Bool) (data : StoredRow → Row) :
    rows.map (putStaged ((rows.filter meant).map fun q => (q.id, data q))) =
      rows.map fun r => if meant r then { r with data := data r } else r := by
  refine List.map_congr_left fun r hr => ?_
  rw [putStaged]
  cases found : ((rows.filter meant).map fun q => (q.id, data q)).lookup r.id with
  | none =>
    rw [List.lookup_eq_none_iff] at found
    have unmeant : ¬meant r = true := fun isMeant => by
      simpa using found _ (List.mem_map_of_mem (List.mem_filter.mpr ⟨hr, isMeant⟩))
    rw [if_neg unmeant]
  | some new =>
    obtain ⟨before, after, split, -⟩ := List.lookup_eq_some_iff.mp found
    have listed : (r.id, new) ∈ (rows.filter meant).map fun q => (q.id, data q) := by simp [split]
    obtain ⟨q, hq, same⟩ := List.mem_map.mp listed
    obtain ⟨hq, isMeant⟩ := List.mem_filter.mp hq
    simp only [Prod.mk.injEq] at same
    have : q = r := List.inj_on_of_nodup_map distinct hq hr same.1
    subst this
    rw [← same.2, if_pos isMeant]

theorem map_putStaged_all {rows : List StoredRow} (distinct : (rows.map (·.id)).Nodup)
    (data : StoredRow → Row) :
    rows.map (putStaged (rows.map fun q => (q.id, data q))) =
      rows.map fun r => { r with data := data r } := by
  simpa using map_putStaged_filter distinct (fun _ => true) data

theorem filter_putStaged (staged : List (Nat × Row)) (rows : List StoredRow) (table : Nat) :
    (rows.map (putStaged staged)).filter (·.table == table) =
      (rows.filter (·.table == table)).map (putStaged staged) := by
  simp [List.filter_map, Function.comp_def]

theorem putStaged_cons {id : Nat} {data : Row} {staged : List (Nat × Row)}
    (h : ∀ e ∈ staged, e.1 ≠ id) (r : StoredRow) :
    putStaged staged (if r.id = id then { r with data } else r) =
      putStaged ((id, data) :: staged) r := by
  by_cases same : r.id = id
  · subst same
    have rest : putStaged staged { r with data } = { r with data } := putStaged_of_not_mem h
    simp only [if_true, rest]
    simp [putStaged]
  · have differs : (r.id == id) = false := by simpa using same
    simp [putStaged, same, List.lookup_cons, differs]

theorem updateRows {staged : List (Nat × Row)} (distinct : (staged.map (·.1)).Nodup)
    (there : ∀ e ∈ staged, ∃ r ∈ s.rows, r.id = e.1) :
    s.Accepts (staged.map fun e => .updateRow e.1 e.2) ∧
    s.afterCalls (staged.map fun e => .updateRow e.1 e.2) =
      { s with rows := s.rows.map (putStaged staged) } := by
  induction staged generalizing s with
  | nil =>
    have still : putStaged [] = id := rfl
    exact ⟨trivial, by simp [still]⟩
  | cons entry rest ih =>
    obtain ⟨id, data⟩ := entry
    simp only [List.map_cons, List.nodup_cons, List.mem_map, not_exists, not_and] at distinct
    let t : Store := { s with rows := s.rows.map fun r => if r.id = id then { r with data } else r }
    have answered : s.answer (.updateRow id data) = .ok ((), t) := by
      obtain ⟨r, hr, found⟩ := there _ List.mem_cons_self
      have present : s.rows.any (·.id == id) = true := by
        simpa using ⟨r, hr, found⟩
      simp only [answer, updateRow, present]
      rfl
    have inner := ih (s := t) distinct.2 fun e he => by
      obtain ⟨r, hr, found⟩ := there e (List.mem_cons_of_mem _ he)
      refine ⟨_, List.mem_map_of_mem hr, ?_⟩
      rw [← found]
      split <;> rfl
    refine ⟨⟨(), t, answered, inner.1⟩, ?_⟩
    rw [List.map_cons, afterCalls_cons, afterCall_of_answer answered, inner.2]
    simp only [t, List.map_map, Function.comp_def, putStaged_cons distinct.1]

theorem filter_not_doomed {rows : List StoredRow} (distinct : (rows.map (·.id)).Nodup)
    (meant : StoredRow → Bool) :
    (rows.filter fun r => !((rows.filter meant).map (·.id)).contains r.id) =
      rows.filter fun r => !meant r := by
  refine List.filter_congr fun r hr => ?_
  rw [Bool.eq_iff_iff, Bool.not_eq_true', Bool.not_eq_true', ← Bool.not_eq_true, ← Bool.not_eq_true,
    List.contains_iff_mem, List.mem_map]
  refine not_congr ⟨?_, fun isMeant => ⟨r, List.mem_filter.mpr ⟨hr, isMeant⟩, rfl⟩⟩
  rintro ⟨q, hq, same⟩
  obtain ⟨hq, isMeant⟩ := List.mem_filter.mp hq
  rwa [List.inj_on_of_nodup_map distinct hq hr same] at isMeant

theorem deleteRows {doomed : List StoredRow} (distinct : (doomed.map (·.id)).Nodup)
    (there : ∀ d ∈ doomed, d ∈ s.rows) :
    s.Accepts (doomed.map fun d => .deleteRow d.id) ∧
    s.afterCalls (doomed.map fun d => .deleteRow d.id) =
      { s with rows := s.rows.filter fun r => !(doomed.map (·.id)).contains r.id } := by
  induction doomed generalizing s with
  | nil => exact ⟨trivial, by simp⟩
  | cons d rest ih =>
    rw [List.map_cons, List.nodup_cons] at distinct
    rw [List.forall_mem_cons] at there
    let t : Store := { s with rows := s.rows.filter (·.id != d.id) }
    have answered : s.answer (.deleteRow d.id) = .ok ((), t) := by
      have present : s.rows.any (·.id == d.id) = true := by
        simpa using ⟨d, there.1, rfl⟩
      simp only [answer, deleteRow, present]
      rfl
    have inner := ih (s := t) distinct.2 fun r hr => by
      have differs : r.id ≠ d.id := by
        intro same
        exact distinct.1 (same ▸ List.mem_map_of_mem hr)
      simp [t, there.2 r hr, differs]
    refine ⟨⟨(), t, answered, inner.1⟩, ?_⟩
    rw [List.map_cons, afterCalls_cons, afterCall_of_answer answered, inner.2]
    simp only [t, List.map_cons, List.filter_filter, List.contains_cons, Bool.not_or, bne,
      Bool.and_comm]

end SqlEngine.Store
