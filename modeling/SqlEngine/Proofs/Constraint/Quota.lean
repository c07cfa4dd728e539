import SqlEngine.Proofs.Engine.Reachable

/-! Quotas. A statement counts what is there before it writes anything, and it writes no more than
it has counted on, so no reachable state exceeds the quotas. -/

namespace SqlEngine

open Dialect Execution Script Store

/-- A store within the quotas. A count beyond the largest word counts as that word. -/
structure Store.Within (q : Quotas) (s : Store) : Prop where
  tables : s.tableCount ≤ q.maxTables
  rows : ∀ id, min (s.rowsOf id).length maxWord ≤ q.maxRowsPerTable

theorem Store.Within.empty (q : Quotas) : Store.empty.Within q :=
  ⟨Nat.zero_le _, fun _ => by simp [Store.empty, rowsOf]⟩

theorem Quotas.checkTables_eq_ok {q : Quotas} {present : Nat} {u : Unit} :
    q.checkTables present = .ok u ↔ present < q.maxTables := by
  unfold checkTables
  split
  · next full => exact ⟨nofun, fun room => absurd room (Nat.not_lt.mpr full)⟩
  · next room => exact ⟨fun _ => Nat.lt_of_not_le room, fun _ => rfl⟩

theorem Quotas.checkRows_eq_ok {q : Quotas} {table : String} {present requested : Nat} {u : Unit} :
    q.checkRows table present requested = .ok u ↔
      min (present + requested) maxWord ≤ q.maxRowsPerTable := by
  unfold checkRows
  split
  · next beyond => exact ⟨nofun, fun room => absurd room (Nat.not_le.mpr beyond)⟩
  · next room => exact ⟨fun _ => Nat.le_of_not_lt room, fun _ => rfl⟩

namespace Execution

variable {b : Bounds} {s after : Store} {st : Statement}

theorem Change.tableCount_le (h : Change s st after) (noTable : ∀ c, st ≠ .createTable c) :
    after.tableCount ≤ s.tableCount := by
  cases h with
  | created => exact absurd rfl (noTable _)
  | dropped named => exact List.length_filter_le _ _
  | indexed named allowed => exact Nat.le_of_eq (List.length_map _)
  | _ => exact Nat.le_refl _

theorem Change.tableCount_le_succ (h : Change s st after) :
    after.tableCount ≤ s.tableCount + 1 := by
  by_cases creates : ∃ c, st = .createTable c
  · obtain ⟨c, rfl⟩ := creates
    cases h with
    | same => exact Nat.le_succ _
    | created absent settled => simp [tableCount]
  · exact Nat.le_succ_of_le (h.tableCount_le (not_exists.mp creates))

theorem Change.rowCount_le (h : Change s st after) (noInsert : ∀ i, st ≠ .insert i) (id : Nat) :
    (after.rowsOf id).length ≤ (s.rowsOf id).length := by
  cases h with
  | inserted => exact absurd rfl (noInsert _)
  | dropped named =>
    rw [rowsOf_filter]
    exact List.length_filter_le _ _
  | updated n named converted passed =>
    rw [rowsOf_updateRows]
    exact Nat.le_of_eq (List.length_map _)
  | deleted named there =>
    rw [rowsOf_filter]
    exact List.length_filter_le _ _
  | _ => exact Nat.le_refl _

theorem Change.rowCount_insert {i : Insert} (h : Change s (.insert i) after) {t : Table}
    (named : s.named i.table = .ok t) (id : Nat) :
    (after.rowsOf id).length ≤
      (s.rowsOf id).length + if id = t.id then i.values.length else 0 := by
  cases h with
  | same => exact Nat.le_add_right _ _
  | @inserted _ u columns rows n named' staged =>
    cases named.symm.trans named'
    have given : rows.length = i.values.length := (insertedRows_ok staged).1.length_eq.symm
    have counted := congrArg List.length (map_data_numbered t.id s.nextRow (rows.take n))
    rw [List.length_map, List.length_take] at counted
    rw [rowsOf_insertRows]
    split
    · rw [List.length_append]
      omega
    · exact Nat.le_refl _

/-- Whatever part of its writes a statement makes, it keeps to the quotas. -/
theorem Settled.within {p : Plan} (h : Settled b s st p) (hs : s.Numbered)
    (inside : s.Within b.quotas) (n : Nat) :
    (s.afterCalls (p.writes.take n)).Within b.quotas := by
  have change := h.change hs n
  have kept {id : Nat} (fewer : ((s.afterCalls (p.writes.take n)).rowsOf id).length ≤
      (s.rowsOf id).length) : min ((s.afterCalls (p.writes.take n)).rowsOf id).length maxWord ≤
        b.quotas.maxRowsPerTable := by
    have before := inside.rows id
    omega
  cases h with
  | nothing =>
    rw [List.take_nil]
    exact inside
  | createTable absent settled quota =>
    rw [Quotas.checkTables_eq_ok] at quota
    refine ⟨?_, fun id => kept (change.rowCount_le nofun id)⟩
    exact Nat.le_trans change.tableCount_le_succ quota
  | @insert i t columns rows named received quota staged =>
    rw [Quotas.checkRows_eq_ok] at quota
    refine ⟨Nat.le_trans (change.tableCount_le nofun) inside.tables, fun id => ?_⟩
    have added := change.rowCount_insert named id
    by_cases own : id = t.id
    · subst own
      rw [if_pos rfl] at added
      omega
    · rw [if_neg own] at added
      exact kept added
  | dropTable | createIndex | update | delete =>
    refine ⟨?_, fun id => kept (change.rowCount_le nofun id)⟩
    exact Nat.le_trans (change.tableCount_le nofun) inside.tables

theorem Ran.within {r : Except Halt Plan} (h : Ran b s st r after) (hs : s.Numbered)
    (inside : s.Within b.quotas) : after.Within b.quotas := by
  cases h with
  | refused | unread => exact inside
  | cut f settled short => exact settled.within hs inside _
  | @complete p settled =>
    have whole := settled.within hs inside p.writes.length
    rwa [List.take_length] at whole

end Execution

namespace Engine

variable {e : Engine}

theorem Executed.within {after : Engine} {sql : String} {r : Response}
    (h : Executed e sql r after) (hs : e.store.Numbered)
    (inside : e.store.Within e.configuration.quotas) :
    after.store.Within e.configuration.quotas := by
  cases h with
  | turnedAway _ store _ => rwa [store]
  | failed _ ran _ _ => exact ran.within hs inside
  | done _ ran _ _ => exact ran.within hs inside

theorem Reachable.within (h : Reachable e) : e.store.Within e.configuration.quotas := by
  induction h with
  | start c remote => exact .empty _
  | @execute e h outage now caller sql ih =>
    rw [execute_configuration]
    exact (executed e outage now caller sql h.numbered).within h.numbered ih
  | surrounded _ _ _ ih => exact ih

/-- No reachable state has more tables than the quotas allow, or a table with more rows. The largest
word as the limit allows as many rows as a word can count. -/
theorem Reachable.counts_le (h : Reachable e) :
    e.store.tableCount ≤ e.configuration.quotas.maxTables ∧
      ∀ t ∈ e.store.tables,
        e.configuration.quotas.maxRowsPerTable < maxWord ∨
          (e.store.rowsOf t.id).length ≤ maxWord →
        (e.store.rowsOf t.id).length ≤ e.configuration.quotas.maxRowsPerTable := by
  refine ⟨h.within.tables, fun t _ countable => ?_⟩
  have bounded := h.within.rows t.id
  omega

def withTwoRows : Engine :=
  (ofConfiguration { Configuration.testing with quotas := ⟨1, 2⟩ } noRemoteLimiter).afterTexts [
    "CREATE TABLE t (a INTEGER PRIMARY KEY)", "CREATE TABLE u (a INTEGER)",
    "INSERT INTO t VALUES (1)", "INSERT INTO t VALUES (2), (3)", "INSERT INTO t VALUES (4)"]

theorem withTwoRows_store : withTwoRows.store = {
    tables := [⟨1, "t", [.asPrimaryKey { name := "a", type := .integer }], []⟩]
    rows := [⟨1, 1, .ofEntries [("a", .integer 1)]⟩, ⟨2, 1, .ofEntries [("a", .integer 4)]⟩]
    nextTable := 2
    nextRow := 3 } := by
  decide +kernel

theorem counts_le_withTwoRows :
    withTwoRows.store.tableCount ≤ 1 ∧ (withTwoRows.store.rowsOf 1).length ≤ 2 := by
  have limits : withTwoRows.configuration.quotas = ⟨1, 2⟩ :=
    congrArg Configuration.quotas (afterTexts_configuration _ _)
  have there : ⟨1, "t", [.asPrimaryKey { name := "a", type := .integer }], []⟩ ∈
      withTwoRows.store.tables := by
    rw [withTwoRows_store]
    exact List.mem_singleton.mpr rfl
  have reachable : Reachable withTwoRows := (Reachable.start _ _).afterTexts _
  have bounds := reachable.counts_le
  rw [limits] at bounds
  exact ⟨bounds.1, bounds.2 _ there (.inl (by decide))⟩

end Engine
end SqlEngine
