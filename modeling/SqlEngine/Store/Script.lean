import SqlEngine.Condition.Cache
import SqlEngine.Limits.Deadline
import SqlEngine.Store.State

/-! Statements as scripts. A script is a tree: it ends with a result, or makes one call and goes on
with what the store answers, or has rows judged by a condition and goes on with the verdicts. Running
it is one fold, in which a call may fail; the calls made so far are kept, the latest first. -/

namespace SqlEngine

open Dialect

inductive StoreCall where
  | tableNamed (name : String)
  | tableNames
  | createTable (name : String) (columns : List Column) (indexes : List IndexDefinition)
  | dropTable (table : Nat)
  | tableCount
  | insertRow (table : Nat) (data : Row)
  | selectRows (table : Nat)
  | updateRow (row : Nat) (data : Row)
  | deleteRow (row : Nat)
  | setIndexes (table : Nat) (indexes : List IndexDefinition)
deriving DecidableEq

def StoreCall.Answer : StoreCall → Type
  | tableNamed _ => Option Table
  | tableNames => List String
  | createTable _ _ _ => Nat
  | dropTable _ => Unit
  | tableCount => Nat
  | insertRow _ _ => Nat
  | selectRows _ => List StoredRow
  | updateRow _ _ => Unit
  | deleteRow _ => Unit
  | setIndexes _ _ => Unit

def Store.answer (s : Store) : (c : StoreCall) → Except StoreFault (c.Answer × Store)
  | .tableNamed name => .ok (s.tableNamed? name, s)
  | .tableNames => .ok (s.tableNames, s)
  | .createTable name columns indexes => s.createTable name columns indexes
  | .dropTable table => (s.dropTable table).map fun t => ((), t)
  | .tableCount => .ok (s.tableCount, s)
  | .insertRow table data => s.insertRow table data
  | .selectRows table => (s.selectRows table).map fun rows => (rows, s)
  | .updateRow row data => (s.updateRow row data).map fun t => ((), t)
  | .deleteRow row => (s.deleteRow row).map fun t => ((), t)
  | .setIndexes table indexes => (s.setIndexes table indexes).map fun t => ((), t)

inductive Script (α : Type) where
  | done (result : Except Halt α)
  | call (c : StoreCall) (next : c.Answer → Script α)
  | judge (scope : Scope) (condition : Option Condition) (rows : List Row)
      (next : List Bool → Script α)

namespace Script

variable {α β : Type}

def bind : Script α → (α → Script β) → Script β
  | done (.ok a), f => f a
  | done (.error h), _ => done (.error h)
  | call c next, f => call c fun answer => (next answer).bind f
  | judge scope condition rows next, f =>
    judge scope condition rows fun verdicts => (next verdicts).bind f

theorem bind_ok (a : α) (f : α → Script β) : (done (.ok a)).bind f = f a := rfl

theorem bind_error (h : Halt) (f : α → Script β) :
    (done (.error h)).bind f = done (.error h) := rfl

theorem bind_call (c : StoreCall) (next : c.Answer → Script α) (f : α → Script β) :
    (call c next).bind f = call c fun answer => (next answer).bind f := rfl

instance : Monad Script where
  pure a := done (.ok a)
  bind := bind

def fail (e : Failure) : Script α := done (.error e)

def ofExcept (r : Except Failure α) : Script α := done (Halt.lift r)

def parted (verdicts : List Bool) (xs : List α) : List α × List α :=
  let (meant, others) := (xs.zip verdicts).partition (·.2)
  (meant.map (·.1), others.map (·.1))

def sift (scope : Scope) (condition : Option Condition) (row : α → Row) (xs : List α) :
    Script (List α × List α) :=
  judge scope condition (xs.map row) fun verdicts => done (.ok (parted verdicts xs))

def ask (deadline : Deadline) (c : StoreCall) : Script c.Answer :=
  match deadline.check with
  | .ok () => call c fun answer => done (.ok answer)
  | .error e => done (.error e)

def askAll (deadline : Deadline) : List StoreCall → Script Unit
  | [] => done (.ok ())
  | c :: rest => (ask deadline c).bind fun _ => askAll deadline rest

theorem ask_of_passed {deadline : Deadline} (h : deadline.passed = true) (c : StoreCall) :
    ask deadline c = fail deadline.failure := by
  simp [ask, Deadline.check, h, fail]

/-- A call without an answer: the store fails, or it does not answer before the deadline. -/
inductive CallFailure where
  | fault (cause : StoreFault)
  | late (milliseconds : Nat)
deriving DecidableEq

def CallFailure.failure : CallFailure → Failure
  | fault cause => .store cause
  | late milliseconds => .timeout milliseconds

/-- Which calls fail, and how, after the calls already made. A failing call has no effect. -/
abbrev Outage := List StoreCall → StoreCall → Option CallFailure

def noOutage : Outage := fun _ _ => none

structure Run (α : Type) where
  result : Except Halt α
  store : Store
  calls : List StoreCall

/-- Runs a script to its end or to the first call that fails. The patterns of its conditions are
kept for the scripts that come later. -/
def runWith (outage : Outage) :
    Script α → PatternCache → Store → (past : List StoreCall) → Run α × PatternCache
  | done result, patterns, store, past => (⟨result, store, past⟩, patterns)
  | call c next, patterns, store, past =>
    match outage past c with
    | some f => (⟨.error f.failure, store, c :: past⟩, patterns)
    | none =>
      match store.answer c with
      | .error e => (⟨.error (.failed (.store e)), store, c :: past⟩, patterns)
      | .ok (answer, after) => runWith outage (next answer) patterns after (c :: past)
  | judge scope condition rows next, patterns, store, past =>
    let (verdicts, patterns) := verdictsWith scope condition rows patterns
    runWith outage (next verdicts) patterns store past

end Script
end SqlEngine
