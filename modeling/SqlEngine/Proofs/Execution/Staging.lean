import SqlEngine.Execution.Modification
import SqlEngine.Proofs.Entries
import SqlEngine.Proofs.Equality
import SqlEngine.Proofs.Success

/-! What rows have passed when they are staged: which rows they have been compared with, and where
their values come from. -/

namespace SqlEngine

open Execution

/-- Two rows that share no value of a unique column. -/
def Table.Apart (t : Table) (a b : Row) : Prop :=
  ∀ c ∈ t.uniqueColumns, (a.get c.name).equals (b.get c.name) = false

theorem Table.Apart.symm {t : Table} {a b : Row} (h : t.Apart a b) : t.Apart b a := by
  intro c hc
  rw [Value.equals_comm]
  exact h c hc

theorem Table.mem_uniqueColumns {t : Table} {c : Column} :
    c ∈ t.uniqueColumns ↔ c ∈ t.columns ∧ c.isUnique = true := by
  simp [uniqueColumns]

namespace Execution

theorem checkUnique_eq_ok {t : Table} {others : List Row} {row : Row} {u : Unit} :
    checkUnique t others row = .ok u ↔ ∀ other ∈ others, t.Apart other row := by
  have found : checkUnique t others row = .ok u ↔
      t.uniqueColumns.find? (fun c => collides c (row.get c.name) others) = none := by
    unfold checkUnique
    split <;> simp_all
  rw [found, List.find?_eq_none]
  simp only [collides, List.any_eq_true, not_exists, not_and, Bool.not_eq_true]
  exact ⟨fun h other ho c hc => h c hc other ho, fun h c hc other ho => h other ho c hc⟩

theorem checkStaged_eq_ok {t : Table} {staying before rows : List Row} {u : Unit} :
    checkStaged t staying before rows = .ok u ↔
      (∀ row ∈ rows, ∀ other ∈ staying, t.Apart other row) ∧
      (∀ row ∈ rows, ∀ other ∈ before, t.Apart other row) ∧ rows.Pairwise t.Apart := by
  induction rows generalizing before with
  | nil => simp [checkStaged]
  | cons row rest ih =>
    simp only [checkStaged, Success.bind_eq_ok, checkUnique_eq_ok, ih, List.forall_mem_cons,
      List.pairwise_cons, List.mem_append, or_imp, forall_and, List.mem_singleton, forall_eq]
    constructor
    · rintro ⟨⟨⟩, hstay, ⟨⟩, hbefore, hrest, ⟨hrest', hrow⟩, apart⟩
      exact ⟨⟨hstay, hrest⟩, ⟨hbefore, hrest'⟩, hrow, apart⟩
    · rintro ⟨⟨hstay, hrest⟩, ⟨hbefore, hrest'⟩, hrow, apart⟩
      exact ⟨(), hstay, (), hbefore, hrest, ⟨hrest', hrow⟩, apart⟩

/-- Each row is made of its values, and stands apart from the rows that are there, from those staged
before it and from those after it. -/
theorem stageRows_ok {t : Table} {columns : List Column} {existing : List Row} {number : Nat}
    {next : Option Int64} {staged : List Row} {values : List (List Value)} {all : List Row}
    (ok : stageRows t columns existing number next staged values = .ok all) :
    ∃ rows, all = staged ++ rows ∧
      List.Forall₂ (fun given row => given.length = columns.length ∧
        ∃ n, newRow t ((columns.map (·.name)).zip given) n = .ok row) values rows ∧
      (∀ row ∈ rows, ∀ other ∈ existing, t.Apart other row) ∧
      (∀ row ∈ rows, ∀ other ∈ staged, t.Apart other row) ∧ rows.Pairwise t.Apart := by
  induction values generalizing number next staged with
  | nil =>
    cases ok
    exact ⟨[], by simp⟩
  | cons given rest ih =>
    simp only [stageRows] at ok
    split at ok
    · cases ok
    · next fits =>
      simp only [Success.bind_eq_ok, checkUnique_eq_ok] at ok
      obtain ⟨row, made, ⟨⟩, fromExisting, ⟨⟩, fromStaged, ok⟩ := ok
      obtain ⟨rows, rfl, origin, hexisting, hstaged, apart⟩ := ih ok
      simp only [List.mem_append, or_imp, forall_and, List.mem_singleton, forall_eq] at hstaged
      refine ⟨row :: rows, by simp, .cons ⟨by simpa using fits, next, made⟩ origin, ?_, ?_, ?_⟩
      · exact List.forall_mem_cons.mpr ⟨fromExisting, hexisting⟩
      · exact List.forall_mem_cons.mpr ⟨fromStaged, hstaged.1⟩
      · exact List.pairwise_cons.mpr ⟨hstaged.2, apart⟩

theorem insertedRows_ok {t : Table} {columns : List Column} {existing : List Row}
    {values : List (List Value)} {rows : List Row}
    (ok : insertedRows t columns existing values = .ok rows) :
    List.Forall₂ (fun given row => given.length = columns.length ∧
      ∃ n, newRow t ((columns.map (·.name)).zip given) n = .ok row) values rows ∧
    (∀ row ∈ rows, ∀ other ∈ existing, t.Apart other row) ∧ rows.Pairwise t.Apart := by
  obtain ⟨all, rfl, origin, hexisting, -, apart⟩ := stageRows_ok ok
  exact ⟨origin, hexisting, apart⟩

theorem newRow_ok {t : Table} {given : List (String × Value)} {next : Option Int64} {row : Row}
    (ok : newRow t given next = .ok row) :
    ∃ entries, row = .ofEntries entries ∧ t.columns.map (·.name) = entries.map (·.1) ∧
      List.Forall₂ (fun c entry => entry.1 = c.name ∧ columnValue given next c = .ok entry.2)
        t.columns entries := by
  simp only [newRow, Success.bind_eq_ok, Success.pure_eq_ok, Success.mapM_eq_ok] at ok
  obtain ⟨entries, made, rfl⟩ := ok
  have each : List.Forall₂ (fun c entry => entry.1 = c.name ∧
      columnValue given next c = .ok entry.2) t.columns entries := by
    refine made.imp ?_
    rintro c entry ⟨v, hv, rfl⟩
    exact ⟨rfl, hv⟩
  refine ⟨entries, rfl, ?_, each⟩
  rw [← List.forall₂_eq_eq_eq, List.forall₂_map_left_iff, List.forall₂_map_right_iff]
  exact each.imp fun c entry made => made.1.symm

theorem get_newRow {t : Table} (distinct : (t.columns.map (·.name)).Nodup)
    {given : List (String × Value)} {next : Option Int64} {row : Row}
    (ok : newRow t given next = .ok row) {c : Column} (hc : c ∈ t.columns) :
    columnValue given next c = .ok (row.get c.name) := by
  obtain ⟨entries, rfl, names, each⟩ := newRow_ok ok
  obtain ⟨⟨_, v⟩, listed, rfl, computed⟩ := Success.exists_right_of_mem each hc
  rw [names] at distinct
  rw [computed, Row.get_ofEntries distinct listed]

theorem newRow_names {t : Table} (distinct : t.columnNames.Nodup) {given : List (String × Value)}
    {next : Option Int64} {row : Row} (ok : newRow t given next = .ok row) :
    row.names = t.columnNames := by
  obtain ⟨entries, rfl, names, -⟩ := newRow_ok ok
  rw [Table.columnNames, names] at distinct ⊢
  exact Row.names_ofEntries distinct

theorem columnNamed_of_mem {t : Table} (distinct : (t.columns.map (·.name)).Nodup) {c : Column}
    (hc : c ∈ t.columns) : t.columnNamed c.name = .ok c := by
  unfold Table.columnNamed Table.column?
  cases found : t.columns.find? (·.name == c.name) with
  | none =>
    rw [List.find?_eq_none] at found
    simpa using found c hc
  | some d =>
    have same : d.name = c.name := by simpa using List.find?_some found
    rw [List.inj_on_of_nodup_map distinct (List.mem_of_find?_eq_some found) hc same]

theorem conversions_ok {t : Table} {assignments : List (String × Value)}
    {changes : List (Column × Value)} (ok : conversions t assignments = .ok changes) :
    ∀ change ∈ changes, change.1 ∈ t.columns ∧ ∃ v, change.1.coerce v = .ok change.2 := by
  intro change hchange
  obtain ⟨⟨name, v⟩, -, made⟩ := Success.exists_left_of_mem (Success.mapM_eq_ok.mp ok) hchange
  simp only [Success.bind_eq_ok, Success.pure_eq_ok] at made
  obtain ⟨c, named, w, coerced, rfl⟩ := made
  refine ⟨?_, v, coerced⟩
  unfold Table.columnNamed at named
  split at named
  · next found =>
    cases named
    exact List.mem_of_find?_eq_some found
  · cases named

def filled (changes : List (Column × Value)) : Except Failure (List (String × Value)) :=
  changes.mapM fun (c, v) => return (c.name, ← fillMissing c false v)

theorem filled_ok {changes : List (Column × Value)} {entries : List (String × Value)}
    (ok : filled changes = .ok entries) : ∀ entry ∈ entries, ∃ change ∈ changes,
      entry.1 = change.1.name ∧ fillMissing change.1 false change.2 = .ok entry.2 := by
  intro entry hentry
  obtain ⟨⟨c, v⟩, listed, made⟩ := Success.exists_left_of_mem (Success.mapM_eq_ok.mp ok) hentry
  simp only [Success.bind_eq_ok, Success.pure_eq_ok] at made
  obtain ⟨w, passed, rfl⟩ := made
  exact ⟨(c, v), listed, rfl, passed⟩

theorem assignAll_eq (changes : List (Column × Value)) (row : Row) :
    assignAll changes row = (filled changes).map row.putAll := by
  unfold assignAll filled
  induction changes generalizing row with
  | nil => rfl
  | cons change rest ih =>
    obtain ⟨c, v⟩ := change
    simp only [List.foldlM_cons, List.mapM_cons]
    cases fillMissing c false v with
    | error e => rfl
    | ok w =>
      show (rest.foldlM _ (row.put c.name w)) = _
      rw [ih]
      cases rest.mapM (fun (c, v) => return (c.name, ← fillMissing c false v) :
        Column × Value → Except Failure (String × Value)) <;> rfl

/-- A row that an UPDATE means is staged under its number, with the same entries put into it as into
every other. -/
theorem updatedRows_ok {t : Table} {changes : List (Column × Value)}
    {meant others : List StoredRow} {staged : List (Nat × Row)}
    (ok : updatedRows t changes meant others = .ok staged) :
    (∃ entries, (meant ≠ [] → filled changes = .ok entries) ∧
      staged = meant.map fun r => (r.id, r.data.putAll entries)) ∧
    (∀ e ∈ staged, ∀ other ∈ others, t.Apart other.data e.2) ∧
    (staged.map (·.2)).Pairwise t.Apart := by
  simp only [updatedRows, Success.bind_eq_ok, Success.pure_eq_ok] at ok
  obtain ⟨made, mapped, ⟨⟩, checked, rfl⟩ := ok
  rw [checkStaged_eq_ok] at checked
  refine ⟨?_, ?_, checked.2.2⟩
  · cases settled : filled changes with
    | error e =>
      cases meant with
      | nil => exact ⟨[], by simp, by simpa [pure, Except.pure, eq_comm] using mapped⟩
      | cons r rest => simp [assignAll_eq, settled, Except.map, bind, Except.bind] at mapped
    | ok entries =>
      refine ⟨entries, fun _ => rfl, ?_⟩
      have each := Success.mapM_eq_ok.mp mapped
      clear checked mapped
      induction each with
      | nil => rfl
      | cons head _ ih =>
        rw [assignAll_eq, settled] at head
        cases head
        rw [List.map_cons, ih]
  · intro e he other ho
    exact checked.1 e.2 (List.mem_map_of_mem he) other.data (List.mem_map_of_mem ho)

theorem updatedRows_of_apart {t : Table} {changes : List (Column × Value)}
    {entries : List (String × Value)} (settled : filled changes = .ok entries)
    {meant others : List StoredRow}
    (fromOthers : ∀ r ∈ meant, ∀ q ∈ others, t.Apart q.data (r.data.putAll entries))
    (among : (meant.map fun r => r.data.putAll entries).Pairwise t.Apart) :
    updatedRows t changes meant others =
      .ok (meant.map fun r => (r.id, r.data.putAll entries)) := by
  have made : meant.mapM (fun r => return (r.id, ← assignAll changes r.data) :
      StoredRow → Except Failure (Nat × Row)) =
      .ok (meant.map fun r => (r.id, r.data.putAll entries)) := by
    refine Success.mapM_of_ok fun r _ => ?_
    rw [assignAll_eq, settled]
    rfl
  have checked : checkStaged t (others.map (·.data)) []
      ((meant.map fun r => (r.id, r.data.putAll entries)).map (·.2)) = .ok () := by
    rw [checkStaged_eq_ok]
    exact ⟨by simpa using fromOthers, by simp, by simpa [Function.comp_def] using among⟩
  simp only [updatedRows, Success.bind_eq_ok, Success.pure_eq_ok]
  exact ⟨_, made, (), checked, rfl⟩

end Execution
end SqlEngine
