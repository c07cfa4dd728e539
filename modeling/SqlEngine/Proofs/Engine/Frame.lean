import SqlEngine.Proofs.Engine.Reachable
import SqlEngine.Proofs.Execution.Frame

/-! What executing a text leaves alone: the tables that its statement does not name, and everything
if the statement is a query. -/

namespace SqlEngine.Engine

open Dialect Execution Script Store

variable {e after : Engine} {sql : String} {r : Response} {st : Statement}

theorem Executed.change_of_spelled (h : Executed e sql r after) (hs : e.store.Numbered)
    (spelled : Statement.ofText sql = .ok st) : Change e.store st after.store := by
  rcases h.change hs with same | ⟨st', spelled', change⟩
  · exact same ▸ .same
  · rw [spelled] at spelled'
    cases spelled'
    exact change

theorem Executed.indexes_cases (h : Executed e sql r after)
    (spelled : Statement.ofText sql = .ok st) :
    after.indexes = e.indexes ∨
      ∃ p, Settled e.bounds e.store st p ∧ after.indexes = p.change.apply e.indexes := by
  cases h with
  | turnedAway _ _ indexes => exact .inl indexes
  | failed _ _ _ indexes => exact .inl indexes
  | done spelled' ran _ indexes =>
    rw [spelled] at spelled'
    cases spelled'
    exact .inr ⟨_, ran.settled.1, indexes⟩

/-- Whatever comes of a statement: the tables that it does not name stay with their numbers,
columns, indexes and rows, and so do the indexes built for them. A query changes nothing at all. -/
theorem Reachable.unnamed_unchanged (h : Reachable e) (outage : Outage) (now : Nat)
    (caller sql : String) {st : Statement} (spelled : Statement.ofText sql = .ok st) :
    let after := (e.execute outage now caller sql).engine
    (∀ name, name ∉ st.tables →
      (∀ t : Table, t.name = name → (t ∈ after.store.tables ↔ t ∈ e.store.tables)) ∧
      (∀ t ∈ e.store.tables, t.name = name → after.store.rowsOf t.id = e.store.rowsOf t.id) ∧
      ∀ index, after.indexes.get? name index = e.indexes.get? name index) ∧
    (st.isQuery = true → after.store = e.store ∧ after.indexes = e.indexes) := by
  intro after
  have done := executed e outage now caller sql h.numbered
  have change : Change e.store st after.store := done.change_of_spelled h.numbered spelled
  refine ⟨fun name unnamed => ⟨?_, ?_, fun index => ?_⟩, fun query => ⟨change.of_query query, ?_⟩⟩
  · rintro t rfl
    exact change.mem_tables_of_unnamed h.numbered unnamed
  · rintro t ht rfl
    exact change.rowsOf_of_unnamed h.numbered ht unnamed
  · rcases done.indexes_cases spelled with same | ⟨p, settled, applied⟩
    · exact same ▸ rfl
    · rw [applied, settled.get?_of_unnamed unnamed]
  · rcases done.indexes_cases spelled with same | ⟨p, settled, applied⟩
    · exact same
    · rw [applied, settled.apply_of_query query]

def withNeighbour : Engine := (ofConfiguration .testing noRemoteLimiter).afterTexts [
  "CREATE TABLE a (id INTEGER PRIMARY KEY)",
  "CREATE TABLE b (id INTEGER PRIMARY KEY)",
  "INSERT INTO a VALUES (1), (2)",
  "INSERT INTO b VALUES (1)",
  "CREATE INDEX i ON b (id)"]

def neighbour : Table :=
  ⟨2, "b", [.asPrimaryKey { name := "id", type := .integer }], [⟨"i", ["id"], false⟩]⟩

theorem withNeighbour_holds : neighbour ∈ withNeighbour.store.tables ∧
    (withNeighbour.store.rowsOf 1).length = 2 ∧
    Statement.ofText "DELETE FROM a" = .ok (.delete ⟨"a", none⟩) ∧
    Statement.ofText "DESCRIBE a" = .ok (.describe "a") := by
  decide +kernel

/-- The second row of `a` is not deleted any more because the store fails. -/
theorem unnamed_unchanged_withNeighbour :
    (let after := (withNeighbour.execute (failingCall 4 (.backend "gone")) 0 "ann"
      "DELETE FROM a").engine
    neighbour ∈ after.store.tables ∧ after.store.rowsOf 2 = withNeighbour.store.rowsOf 2 ∧
      after.indexes.get? "b" "i" = withNeighbour.indexes.get? "b" "i") ∧
    let after := (withNeighbour.execute noOutage 0 "ann" "DESCRIBE a").engine
    after.store = withNeighbour.store ∧ after.indexes = withNeighbour.indexes := by
  obtain ⟨there, -, deleted, described⟩ := withNeighbour_holds
  have reachable : Reachable withNeighbour := (Reachable.start _ _).afterTexts _
  have kept := (reachable.unnamed_unchanged (failingCall 4 (.backend "gone")) 0 "ann" _ deleted).1
    "b" (by decide)
  exact ⟨⟨(kept.1 neighbour rfl).mpr there, kept.2.1 neighbour there rfl, kept.2.2 "i"⟩,
    (reachable.unnamed_unchanged noOutage 0 "ann" _ described).2 rfl⟩

end SqlEngine.Engine
