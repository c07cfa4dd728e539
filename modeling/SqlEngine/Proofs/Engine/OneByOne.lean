import SqlEngine.Proofs.Engine.Numbers

/-! The rows of one INSERT against the same rows in statements of their own. The statement counts
its generated numbers on, where those of single rows are read from the table each time. -/

namespace SqlEngine

open Dialect Execution Script Store

namespace Execution

/-- Where a column held `existing` when a statement began, its next number can be found from the
rows that are present by now: the largest number among them is the value of a double, and is not
below zero unless there was a number at the beginning. -/
def Rescannable (column : String) (existing present : List Row) : Prop :=
  ∀ m, Largest (numbers column present) m →
    Binary64.Exact m.toInt ∧ (numbers column existing ≠ [] ∨ 0 ≤ m)

theorem rescannable_of_small {column : String} {existing present : List Row}
    (small : ∀ n ∈ numbers column present, n.toInt.natAbs ≤ 2 ^ 53)
    (started : numbers column existing ≠ [] ∨ ∀ n ∈ numbers column present, 0 ≤ n) :
    Rescannable column existing present := by
  rintro m (⟨-, rfl⟩ | ⟨there, -⟩)
  · exact ⟨Binary64.exact_of_natAbs_le (by decide), .inr (Int64.le_refl 0)⟩
  · exact ⟨Binary64.exact_of_natAbs_le (small m there), started.imp_right fun each => each m there⟩

variable {t : Table} {columns : List Column} {given : List Value} {existing before : List Row}
  {row : Row}

/-- A row that is made within a statement can be made after the rows before it were written. -/
theorem Made.rescanned (made : Made t columns given (upcoming t existing before) row)
    (generates : ∀ c ∈ t.columns, c.autoIncrement = true → Generates t c)
    (numeric : ∀ auto, Generates t auto → Numeric auto.name (existing ++ before))
    (rescannable : ∀ auto, Generates t auto → before ≠ [] → Missing columns given auto →
      Rescannable auto.name existing (existing ++ before)) :
    Made t columns given (upcoming t (existing ++ before) []) row := by
  refine made.of_next fun c hc isAuto missing => ?_
  have g := generates c hc isAuto
  by_cases first : before = []
  · rw [first, List.append_nil]
  · obtain ⟨m, largest⟩ := exists_largest (numbers c.name (existing ++ before))
    obtain ⟨exact, started⟩ := rescannable c g first missing m largest
    rw [g.upcoming_eq, g.upcoming_eq, List.foldl_nil,
      foldl_advance_nextNumber (numeric c g) largest exact started]

end Execution

theorem Quotas.checkRows_mono {q : Quotas} {table : String}
    {present requested present' requested' : Nat} (le : present' + requested' ≤ present + requested)
    (ok : q.checkRows table present requested = .ok ()) :
    q.checkRows table present' requested' = .ok () := by
  unfold checkRows at ok ⊢
  split at ok
  · cases ok
  · rw [if_neg (by omega)]

namespace Engine

structure Call where
  now : Nat
  caller : String
  sql : String

def take (e : Engine) (c : Call) : Step Response := e.execute noOutage c.now c.caller c.sql

def reports (e : Engine) : List Call → List Response
  | [] => []
  | c :: rest => (e.take c).result :: (e.take c).engine.reports rest

def afterCalls (e : Engine) (calls : List Call) : Engine :=
  calls.foldl (fun e c => (e.take c).engine) e

def Admits (e : Engine) : List Call → Prop
  | [] => True
  | c :: rest => (e.limiter.chargeThrough e.remote c.caller c.now).1 = .ok () ∧
      (e.take c).engine.Admits rest

instance decidableAdmits : (e : Engine) → (calls : List Call) → Decidable (e.Admits calls)
  | _, [] => inferInstanceAs (Decidable True)
  | e, c :: rest =>
    have := decidableAdmits (e.take c).engine rest
    inferInstanceAs (Decidable (_ ∧ (e.take c).engine.Admits rest))

variable {e : Engine} {t : Table}

theorem take_bounds (e : Engine) (c : Call) : (e.take c).engine.bounds = e.bounds := by
  rw [bounds, deadline, take, execute_configuration, bounds, deadline]

theorem Reachable.take_single (h : Reachable e) (ht : t ∈ e.store.tables)
    (opened : e.deadline.passed = false) {c : Call}
    (admitted : (e.limiter.chargeThrough e.remote c.caller c.now).1 = .ok ())
    {names : List String} {given : List Value}
    (spelled : Statement.ofText c.sql = .ok (.insert ⟨t.name, some names, [given]⟩))
    {columns : List Column} (received : Receives t (some names) [given] columns) {row : Row}
    (single : Stages t columns (e.store.data t) [] [given] [row]) {more : Nat}
    (quota : e.bounds.quotas.checkRows t.name (e.store.data t).length (more + 1) = .ok ()) :
    (e.take c).result.success = true ∧ (e.take c).engine.store.tables = e.store.tables ∧
      (e.take c).engine.store.data t = e.store.data t ++ [row] ∧
      (e.take c).engine.bounds.quotas.checkRows t.name ((e.take c).engine.store.data t).length
        more = .ok () := by
  have quotaHere : e.bounds.quotas.checkRows t.name (e.store.rowsOf t.id).length [given].length =
      .ok () := by
    refine Quotas.checkRows_mono ?_ quota
    simp [Store.data]
  obtain ⟨result, store⟩ := h.execute_stages ht opened admitted spelled received quotaHere single
  have data : (e.take c).engine.store.data t = e.store.data t ++ [row] := by
    rw [take, store, data_inserted ht]
  refine ⟨?_, ?_, data, ?_⟩
  · rw [take, result]
    rfl
  · rw [take, store, tables_inserted ht]
  · rw [take_bounds, data]
    refine Quotas.checkRows_mono ?_ quota
    rw [List.length_append, List.length_singleton]
    omega

/-- Rows that a statement stages are written one by one by statements of their own. -/
theorem reports_of_stages {columns : List Column} {existing before rows : List Row}
    {values : List (List Value)} (stages : Stages t columns existing before values rows)
    (h : Reachable e) (ht : t ∈ e.store.tables) (data : e.store.data t = existing ++ before)
    (opened : e.deadline.passed = false)
    (quota : e.bounds.quotas.checkRows t.name (e.store.data t).length values.length = .ok ())
    {names : List String} (received : ∀ given ∈ values, Receives t (some names) [given] columns)
    (numeric : ∀ auto, Generates t auto → Numeric auto.name (existing ++ before ++ rows))
    (rescannable : ∀ auto, Generates t auto → ∀ j given, before ++ rows.take j ≠ [] →
      values[j]? = some given → Missing columns given auto →
      Rescannable auto.name existing (existing ++ before ++ rows.take j))
    {calls : List Call} (spelled : List.Forall₂ (fun given c =>
      Statement.ofText c.sql = .ok (.insert ⟨t.name, some names, [given]⟩)) values calls)
    (admitted : e.Admits calls) :
    (∀ r ∈ e.reports calls, r.success = true) ∧
      (e.afterCalls calls).store.data t = existing ++ before ++ rows := by
  induction stages generalizing e calls with
  | nil =>
    cases spelled
    exact ⟨fun _ absent => absurd absent List.not_mem_nil, by rw [List.append_nil]; exact data⟩
  | @cons before given rest row rows fits made apart others ih =>
    obtain _ | ⟨isSingle, spelledRest⟩ := spelled
    next call calls =>
    obtain ⟨admitted, admittedRest⟩ := admitted
    have single : Stages t columns (e.store.data t) [] [given] [row] := by
      rw [data]
      refine .cons fits (made.rescanned (fun c hc => h.generates ht hc) ?_ ?_) ?_ .nil
      · exact fun auto g r hr => numeric auto g r (List.mem_append_left _ hr)
      · intro auto g some missing
        have here := rescannable auto g 0 given (by simpa using some) rfl missing
        rwa [List.take_zero, List.append_nil] at here
      · rwa [List.append_nil]
    obtain ⟨success, tables, dataAfter, quotaAfter⟩ := h.take_single ht opened admitted isSingle
      (received given List.mem_cons_self) single quota
    rw [data, List.append_assoc] at dataAfter
    have openedAfter : (e.take call).engine.bounds.deadline.passed = false := by
      rw [take_bounds]
      exact opened
    have regroup (rows : List Row) :
        existing ++ (before ++ [row]) ++ rows = existing ++ before ++ row :: rows := by simp
    obtain ⟨succeed, final⟩ := ih (h.execute _ _ _ _) (tables ▸ ht) dataAfter openedAfter quotaAfter
      (fun g hg => received g (List.mem_cons_of_mem _ hg))
      (fun auto g => regroup rows ▸ numeric auto g)
      (fun auto g j other some found missing => regroup _ ▸
        rescannable auto g (j + 1) other (by simp) found missing)
      spelledRest admittedRest
    exact ⟨List.forall_mem_cons.mpr ⟨success, succeed⟩, final.trans (regroup rows)⟩

/-- An INSERT with a list of columns that succeeds can be taken apart. Statements of the same list
for each of its rows, one after the other from the same state, succeed as well if none is turned
away or disturbed, and leave the same rows in the same order; provided that whenever a row other
than the first generates a number, that number can be found from the rows that are present by
then. -/
theorem Reachable.insert_one_by_one (h : Reachable e) (ht : t ∈ e.store.tables) (outage : Outage)
    (now : Nat) (caller : String) {sql : String} {names : List String} {values : List (List Value)}
    (spelled : Statement.ofText sql = .ok (.insert ⟨t.name, some names, values⟩))
    (succeeded : (e.execute outage now caller sql).result.success = true)
    (rescannable : ∀ auto ∈ t.columns, auto.autoIncrement = true → ∀ j given, 0 < j →
      values[j]? = some given → auto.name ∉ names ∨ (auto.name, .null) ∈ names.zip given →
      Rescannable auto.name (e.store.data t)
        (((e.execute outage now caller sql).engine.store.data t).take
          ((e.store.data t).length + j)))
    {calls : List Call} (singles : List.Forall₂ (fun given c =>
      Statement.ofText c.sql = .ok (.insert ⟨t.name, some names, [given]⟩)) values calls)
    (admitted : e.Admits calls) :
    (∀ r ∈ e.reports calls, r.success = true) ∧
      (e.afterCalls calls).store.data t =
        (e.execute outage now caller sql).engine.store.data t := by
  obtain ⟨⟨-, opened⟩, p, planned, -, store⟩ :=
    planned_of_success e outage now caller sql h.numbered spelled succeeded
  have distinct := (h.declared ht).names
  obtain ⟨columns, received, quota, rows, stages, rfl⟩ :=
    (plan_insert_eq_ok (b := e.bounds) opened (h.numbered.named ht) distinct).mp planned
  have data : (e.execute outage now caller sql).engine.store.data t = e.store.data t ++ rows := by
    rw [store, data_inserted ht]
  have there : t ∈ (e.execute outage now caller sql).engine.store.tables := by
    rw [store, tables_inserted ht]
    exact ht
  have numeric : ∀ auto, Generates t auto →
      Numeric auto.name (e.store.data t ++ [] ++ rows) := by
    intro auto g
    rw [List.append_nil, ← data]
    exact (h.execute outage now caller sql).numeric there g
  have rescannable : ∀ auto, Generates t auto → ∀ j given, [] ++ rows.take j ≠ [] →
      values[j]? = some given → Missing columns given auto →
      Rescannable auto.name (e.store.data t) (e.store.data t ++ [] ++ rows.take j) := by
    intro auto g j given some found missing
    obtain ⟨row, -, fits, -⟩ :=
      Success.exists_right_of_mem stages.forall₂ (List.mem_of_getElem? found)
    have fits : Fits t columns given := ⟨distinct, received.mem, received.distinct distinct, fits⟩
    have later : 0 < j := by
      rw [Nat.pos_iff_ne_zero]
      rintro rfl
      exact some rfl
    have omitted : auto.name ∉ names ∨ (auto.name, .null) ∈ names.zip given := by
      rw [received.names_eq]
      exact missing.imp (fits.mem_names g.mem).not.mpr (fits.mem_zip_names g.mem).mpr
    have here := rescannable auto g.mem g.generated j given later found omitted
    rw [List.append_nil]
    rwa [data, List.take_length_add_append] at here
  have quota : e.bounds.quotas.checkRows t.name (e.store.data t).length values.length = .ok () := by
    rwa [Store.data, List.length_map]
  have final := reports_of_stages stages h ht (List.append_nil _).symm opened quota
    (fun given _ => received.of_listed) numeric rescannable singles admitted
  rwa [List.append_nil, ← data] at final

def single (id name : String) : Call :=
  ⟨0, "ann", "INSERT INTO t (id, name) VALUES (" ++ id ++ ", '" ++ name ++ "')"⟩

def mixedNumbers : String :=
  "INSERT INTO t (id, name) VALUES (NULL, 'b'), (9, 'c'), (2, 'd'), (NULL, 'e')"

def mixedNumbersValues : List (List Value) :=
  [[.null, .text "b"], [.integer 9, .text "c"], [.integer 2, .text "d"], [.null, .text "e"]]

def mixedSingles : List Call :=
  [single "NULL" "b", single "9" "c", single "2" "d", single "NULL" "e"]

theorem mixedNumbers_holds :
    nameTable ∈ (withNumber 5).store.tables ∧
    Statement.ofText mixedNumbers =
      .ok (.insert ⟨nameTable.name, some ["id", "name"], mixedNumbersValues⟩) ∧
    ((withNumber 5).execute noOutage 0 "ann" mixedNumbers).result.success = true ∧
    numbers Column.implicitId.name ((withNumber 5).store.data nameTable) = [5] ∧
    numbers Column.implicitId.name
      (((withNumber 5).execute noOutage 0 "ann" mixedNumbers).engine.store.data nameTable) =
        [5, 6, 9, 2, 10] ∧
    (mixedNumbersValues.zip mixedSingles).all (fun p => Statement.ofText p.2.sql =
      .ok (.insert ⟨nameTable.name, some ["id", "name"], [p.1]⟩)) = true ∧
    (withNumber 5).Admits mixedSingles := by
  decide +kernel

theorem insert_one_by_one_withNumber :
    (∀ r ∈ (withNumber 5).reports mixedSingles, r.success = true) ∧
      ((withNumber 5).afterCalls mixedSingles).store.data nameTable =
        ((withNumber 5).execute noOutage 0 "ann" mixedNumbers).engine.store.data nameTable := by
  obtain ⟨there, spelled, succeeded, before, after, singles, admitted⟩ := mixedNumbers_holds
  have each : List.Forall₂ (fun given (c : Call) => Statement.ofText c.sql =
      .ok (.insert ⟨nameTable.name, some ["id", "name"], [given]⟩))
      mixedNumbersValues mixedSingles := by
    refine List.forall₂_iff_zip.mpr ⟨rfl, fun {given c} mem => ?_⟩
    have single := List.all_eq_true.mp singles (given, c) mem
    rwa [decide_eq_true_eq] at single
  refine (withNumber_reachable 5).insert_one_by_one there noOutage 0 "ann" spelled succeeded ?_ each
    admitted
  intro auto hc isAuto j given _ _ _
  have isKey : auto = .implicitId := by
    rcases List.mem_cons.mp hc with same | hc
    · exact same
    · rw [List.mem_singleton.mp hc] at isAuto
      cases isAuto
  subst isKey
  refine rescannable_of_small (fun n hn => ?_) (.inl ?_)
  · obtain ⟨row, hrow, held⟩ := mem_numbers.mp hn
    have listed := mem_numbers.mpr ⟨row, List.mem_of_mem_take hrow, held⟩
    rw [after] at listed
    have small : ([5, 6, 9, 2, 10] : List Int64).all (·.toInt.natAbs ≤ 2 ^ 53) = true := by decide
    exact of_decide_eq_true (List.all_eq_true.mp small n listed)
  · rw [before]
    exact List.cons_ne_nil _ _

/-- A statement starts an empty column at one, whatever number its first row has. After a row of its
own the next number is the one after that, so that negative numbers tell the two apart. -/
theorem one_by_one_astray :
    ∃ e, Reachable e ∧ ∃ t ∈ e.store.tables, ∃ sql names values,
      Statement.ofText sql = .ok (.insert ⟨t.name, some names, values⟩) ∧
      (e.execute noOutage 0 "ann" sql).result.success = true ∧
      ∃ calls, List.Forall₂ (fun given (c : Call) =>
          Statement.ofText c.sql = .ok (.insert ⟨t.name, some names, [given]⟩)) values calls ∧
        e.Admits calls ∧
        (e.afterCalls calls).store.data t ≠
          (e.execute noOutage 0 "ann" sql).engine.store.data t := by
  refine ⟨(ofConfiguration .testing noRemoteLimiter).afterTexts
      ["CREATE TABLE t (name TEXT UNIQUE)"],
    (Reachable.start _ _).afterTexts _, nameTable, by decide +kernel,
    "INSERT INTO t (id, name) VALUES (-5, 'a'), (NULL, 'b')", ["id", "name"],
    [[.integer (-5), .text "a"], [.null, .text "b"]], by decide +kernel, by decide +kernel,
    [single "-5" "a", single "NULL" "b"], ?_, by decide +kernel, by decide +kernel⟩
  exact .cons (by decide +kernel) (.cons (by decide +kernel) .nil)

end Engine
end SqlEngine
