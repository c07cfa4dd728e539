import SqlEngine.Proofs.Dialect.Declaration
import SqlEngine.Proofs.Engine.Execute

/-! The states of an engine that alone uses its store, and how to show that all of their tables have
a property. -/

namespace SqlEngine.Engine

open Dialect Execution Script Store

/-- An engine starts over an empty store. Texts may come from any caller at any time, and any call
of the store may fail. In between, the shared limiter and the log may change. -/
inductive Reachable : Engine → Prop where
  | start (c : Configuration) (remote : RemoteLimiter) : Reachable (ofConfiguration c remote)
  | execute {e : Engine} (h : Reachable e) (outage : Outage) (now : Nat) (caller sql : String) :
      Reachable (e.execute outage now caller sql).engine
  | surrounded {e : Engine} (h : Reachable e) (remote : RemoteLimiter) (log : AuditLog) :
      Reachable { e with remote, log }

def afterTexts (e : Engine) (texts : List String) : Engine :=
  texts.foldl (fun e sql => (e.execute noOutage 0 anonymous sql).engine) e

theorem afterTexts_configuration (e : Engine) (texts : List String) :
    (e.afterTexts texts).configuration = e.configuration := by
  induction texts generalizing e with
  | nil => rfl
  | cons sql rest ih => exact (ih _).trans (execute_configuration e noOutage 0 anonymous sql)

theorem Reachable.afterTexts {e : Engine} (h : Reachable e) (texts : List String) :
    Reachable (e.afterTexts texts) := by
  induction texts generalizing e with
  | nil => exact h
  | cons sql rest ih => exact ih (h.execute noOutage 0 anonymous sql)

variable {e after : Engine} {sql : String} {r : Response}

theorem Executed.numbered (h : Executed e sql r after) (hs : e.store.Numbered) :
    after.store.Numbered := by
  cases h with
  | turnedAway _ store _ => rwa [store]
  | failed _ ran _ _ => exact ran.numbered hs
  | done _ ran _ _ => exact ran.numbered hs

theorem Reachable.numbered (h : Reachable e) : e.store.Numbered := by
  induction h with
  | start c remote => exact .empty
  | execute _ outage now caller sql ih => exact (executed _ outage now caller sql ih).numbered ih
  | surrounded _ _ _ ih => exact ih

/-- A text either leaves the store as it is or has the effect of a statement that it spells. -/
theorem Executed.change (h : Executed e sql r after) (hs : e.store.Numbered) :
    after.store = e.store ∨
      ∃ st, Statement.ofText sql = .ok st ∧ Change e.store st after.store := by
  cases h with
  | turnedAway _ store _ => exact .inl store
  | failed spelled ran _ _ => exact .inr ⟨_, spelled, ran.change hs⟩
  | done spelled ran _ _ => exact .inr ⟨_, spelled, ran.change hs⟩

theorem Executed.origin (h : Executed e sql r after) (hs : e.store.Numbered) {t : Table}
    (ht : t ∈ after.store.tables) :
    ∃ st, Origin e.store after.store st t ∧
      ∀ c, st = .createTable c → Statement.ofText sql = .ok (.createTable c) := by
  rcases h.change hs with same | ⟨st, spelled, change⟩
  · rw [same] at ht ⊢
    exact ⟨.showTables, .same ht rfl, nofun⟩
  · exact ⟨st, change.origin hs t ht, fun c is => is ▸ spelled⟩

def Declared (columns : List Column) : Prop :=
  ∃ sql c, Statement.ofText sql = .ok (.createTable c) ∧ settleColumns c.columns = .ok columns

theorem Declared.names {columns : List Column} (h : Declared columns) :
    (columns.map (·.name)).Nodup := by
  obtain ⟨sql, c, spelled, settled⟩ := h
  exact settleColumns_names settled

theorem Declared.keyMarked {columns : List Column} (h : Declared columns) :
    ∀ c ∈ columns, c.KeyMarked := by
  obtain ⟨sql, c, spelled, settled⟩ := h
  exact settleColumns_keyMarked settled (Statement.keyMarked_ofText spelled)

theorem Reachable.declared (h : Reachable e) {t : Table} (ht : t ∈ e.store.tables) :
    Declared t.columns := by
  induction h generalizing t with
  | start c remote => cases ht
  | execute h outage now caller sql ih =>
    obtain ⟨st, origin, spelled⟩ :=
      (executed _ outage now caller sql h.numbered).origin h.numbered ht
    cases origin with
    | created is settled _ => exact ⟨sql, _, spelled _ is, settled⟩
    | kept was _ _ columns _ => exact columns ▸ ih was
  | surrounded _ _ _ ih => exact ih ht

/-- What holds of a declared table without rows, and stays true when its rows make a step, holds of
all tables of all reachable states. -/
theorem Reachable.rows_induction {P : List Column → List StoredRow → Prop}
    (created : ∀ columns, Declared columns → P columns [])
    (step : ∀ (t : Table) (rows rows' : List StoredRow), Declared t.columns →
      (rows.map (·.id)).Nodup → RowsStep t rows rows' → P t.columns rows → P t.columns rows')
    (h : Reachable e) {t : Table} (ht : t ∈ e.store.tables) :
    P t.columns (e.store.rowsOf t.id) := by
  -- By induction on how the state was reached; a table of the last state is traced back to the
  -- state before it.
  induction h generalizing t with
  | start c remote => cases ht
  | execute h outage now caller sql ih =>
    obtain ⟨st, origin, -⟩ := (executed _ outage now caller sql h.numbered).origin h.numbered ht
    cases origin with
    | created _ _ empty =>
      rw [empty]
      exact created _ ((h.execute outage now caller sql).declared ht)
    | @kept old was id _ columns made =>
      rw [← columns, ← id]
      exact step old _ _ (h.declared was) (h.numbered.rowsOf_ids _) made (ih was)
  | surrounded _ _ _ ih => exact ih ht

end SqlEngine.Engine
