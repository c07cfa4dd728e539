import SqlEngine.Proofs.Constraint.Typed
import SqlEngine.Proofs.Execution.Agreement

/-! Two engines of one configuration answer a statement alike if they hold the same in the tables
that it names. What else they hold, how they number tables and rows, and what has been executed
before, makes no difference. -/

namespace SqlEngine

open Dialect Execution Script Store

/-- Both stores have a table of that name, with the same columns, the same indexes and rows of the
same data in the same order. -/
def Store.Share (s s' : Store) (name : String) : Prop :=
  ∃ t ∈ s.tables, ∃ u ∈ s'.tables, t.name = name ∧ u.name = name ∧ t.columns = u.columns ∧
    t.indexes = u.indexes ∧
    List.Forall₂ (fun r q => ∀ column, r.data.get? column = q.data.get? column)
      (s.rowsOf t.id) (s'.rowsOf u.id)

theorem Store.Agree.share {s s' : Store} {name : String} (h : s.Agree s' name) :
    s.Share s' name := by
  obtain ⟨t, u, twins, rfl⟩ := h
  refine ⟨t, twins.left, u, twins.right, rfl, twins.alike.name.symm, twins.alike.columns,
    twins.alike.indexes, ?_⟩
  have same := twins.data
  rw [← List.forall₂_eq_eq_eq, List.forall₂_map_left_iff, List.forall₂_map_right_iff] at same
  exact same.imp fun r q equal column => by rw [equal]

theorem map_data_eq_of_get? {rows rows' : List StoredRow} {names : List String}
    (distinct : names.Nodup) (lists : ∀ r ∈ rows, r.data.names = names)
    (lists' : ∀ q ∈ rows', q.data.names = names)
    (same : List.Forall₂ (fun r q => ∀ column, r.data.get? column = q.data.get? column)
      rows rows') :
    rows.map (·.data) = rows'.map (·.data) := by
  induction same with
  | nil => rfl
  | cons head _ ih =>
    rw [List.forall_mem_cons] at lists lists'
    have equal := Row.eq_of_get? (lists.1.trans lists'.1.symm) (lists.1 ▸ distinct) head
    rw [List.map_cons, List.map_cons, equal, ih lists.2 lists'.2]

namespace Engine

variable {e e' : Engine} {st : Statement}

/-- All rows of a table list its columns in the same order. -/
theorem Reachable.agree_of_share (h : Reachable e) (h' : Reachable e') {name : String}
    (shared : e.store.Share e'.store name) : e.store.Agree e'.store name := by
  obtain ⟨t, ht, u, hu, rfl, named, columns, indexes, same⟩ := shared
  refine ⟨t, u, ⟨ht, hu, ⟨named.symm, columns, indexes⟩, ?_⟩, rfl⟩
  have lists' : ∀ q ∈ e'.store.rowsOf u.id, q.data.names = t.columnNames := by
    rw [Table.columnNames, columns]
    exact h'.names hu
  exact map_data_eq_of_get? (h.declared ht).names (h.names ht) lists' same

/-- A statement about tables that two engines share has the same result in both, and leaves the
tables in both with rows of the same data in the same order. -/
theorem Reachable.same_result (h : Reachable e) (h' : Reachable e')
    (configured : e.configuration = e'.configuration) {now now' : Nat}
    {caller caller' sql sql' : String}
    (admitted : (e.limiter.chargeThrough e.remote caller now).1 = .ok ())
    (admitted' : (e'.limiter.chargeThrough e'.remote caller' now').1 = .ok ())
    (spelled : Statement.ofText sql = .ok st) (spelled' : Statement.ofText sql' = .ok st)
    (isLocal : st.isLocal = true) (shared : ∀ name ∈ st.tables, e.store.Share e'.store name) :
    let step := e.execute noOutage now caller sql
    let step' := e'.execute noOutage now' caller' sql'
    step.result = step'.result ∧
      ∀ name ∈ st.tables, step.engine.store.Share step'.engine.store name := by
  intro step step'
  have bounds : e.bounds = e'.bounds := by
    rw [Engine.bounds, Engine.deadline, configured, Engine.bounds, Engine.deadline]
  have compared := plan_agrees (b := e'.bounds) h.numbered h'.numbered isLocal fun name hname =>
    h.agree_of_share h' (shared name hname)
  generalize settled : (plan e'.bounds st).eval e.store = x at compared
  rw [← bounds] at settled
  generalize settled' : (plan e'.bounds st).eval e'.store = y at compared
  cases compared with
  | error failure =>
    obtain ⟨result, store⟩ := execute_of_refused admitted spelled settled
    obtain ⟨result', store'⟩ := execute_of_refused admitted' spelled' settled'
    rw [result, result', store, store']
    exact ⟨rfl, shared⟩
  | ok agree =>
    obtain ⟨result, store⟩ := execute_of_settled admitted spelled h.numbered settled
    obtain ⟨result', store'⟩ := execute_of_settled admitted' spelled' h'.numbered settled'
    rw [result, result', store, store', agree.output]
    exact ⟨rfl, fun name hname => (agree.after name hname).share⟩

def alone : Engine := (ofConfiguration .testing noRemoteLimiter).afterTexts [
  "CREATE TABLE t (id INTEGER PRIMARY KEY)",
  "INSERT INTO t VALUES (1), (2)"]

def amongOthers : Engine := (ofConfiguration .testing noRemoteLimiter).afterTexts [
  "CREATE TABLE s (id INTEGER PRIMARY KEY)",
  "CREATE TABLE t (id INTEGER PRIMARY KEY)",
  "INSERT INTO s VALUES (1)",
  "INSERT INTO t VALUES (1), (2)"]

def sharedTable (id : Nat) : Table :=
  ⟨id, "t", [.asPrimaryKey { name := "id", type := .integer }], []⟩

def sharedRow (id table : Nat) (key : Int64) : StoredRow := ⟨id, table, ⟨[("id", .integer key)]⟩⟩

theorem alone_amongOthers_hold :
    (sharedTable 1 ∈ alone.store.tables ∧
      alone.store.rowsOf 1 = [sharedRow 1 1 1, sharedRow 2 1 2] ∧ alone.configuration = .testing ∧
      (alone.limiter.chargeThrough alone.remote "ann" 0).1 = .ok ()) ∧
    (sharedTable 2 ∈ amongOthers.store.tables ∧
      amongOthers.store.rowsOf 2 = [sharedRow 2 2 1, sharedRow 3 2 2] ∧
      amongOthers.configuration = .testing ∧
      (amongOthers.limiter.chargeThrough amongOthers.remote "bob" 7).1 = .ok ()) ∧
    Statement.ofText "DELETE FROM t WHERE id > 1" =
      .ok (.delete ⟨"t", some (.test "id" (.compare .greater (.integer 1)))⟩) := by
  decide +kernel

theorem same_result_amongOthers :
    let sql := "DELETE FROM t WHERE id > 1"
    let step := alone.execute noOutage 0 "ann" sql
    let step' := amongOthers.execute noOutage 7 "bob" sql
    step.result = step'.result ∧ step.engine.store.Share step'.engine.store "t" := by
  intro sql step step'
  obtain ⟨⟨there, rows, configured, admitted⟩, ⟨there', rows', configured', admitted'⟩, spelled⟩ :=
    alone_amongOthers_hold
  have reachable : Reachable alone := (Reachable.start _ _).afterTexts _
  have reachable' : Reachable amongOthers := (Reachable.start _ _).afterTexts _
  have twins : alone.store.Twins amongOthers.store (sharedTable 1) (sharedTable 2) := by
    refine ⟨there, there', ⟨rfl, rfl, rfl⟩, ?_⟩
    simp only [sharedTable, rows, rows']
    rfl
  have shared : ∀ name ∈ ["t"], alone.store.Share amongOthers.store name :=
    List.forall_mem_singleton.mpr (Store.Agree.share ⟨_, _, twins, rfl⟩)
  have same := reachable.same_result reachable' (configured.trans configured'.symm) admitted admitted'
    spelled spelled rfl shared
  exact ⟨same.1, List.forall_mem_singleton.mp same.2⟩

end Engine
end SqlEngine
