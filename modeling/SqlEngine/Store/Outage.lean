import SqlEngine.Store.Script

/-! Failures of the store as they can be arranged: from some call of a kind on, or of every call
because none is answered in time. -/

namespace SqlEngine

inductive StoreCall.Kind where
  | tableNamed | tableNames | createTable | dropTable | tableCount | insertRow | selectRows
  | updateRow | deleteRow | setIndexes
deriving DecidableEq

def StoreCall.kind : StoreCall → StoreCall.Kind
  | tableNamed _ => .tableNamed
  | tableNames => .tableNames
  | createTable _ _ _ => .createTable
  | dropTable _ => .dropTable
  | tableCount => .tableCount
  | insertRow _ _ => .insertRow
  | selectRows _ => .selectRows
  | updateRow _ _ => .updateRow
  | deleteRow _ => .deleteRow
  | setIndexes _ _ => .setIndexes

structure ScheduledFault where
  kind : StoreCall.Kind
  after : Nat
  fault : StoreFault

namespace ScheduledFault

def countOf (f : ScheduledFault) (calls : List StoreCall) : Nat :=
  (calls.filter fun c => c.kind = f.kind).length

def outage (f : ScheduledFault) : Script.Outage := fun past c =>
  if c.kind = f.kind ∧ f.after ≤ f.countOf past then some (.fault f.fault) else none

def afterCalls (f : ScheduledFault) (calls : List StoreCall) : ScheduledFault :=
  { f with after := f.after - f.countOf calls }

end ScheduledFault

def Script.stalled (deadline : Deadline) : Script.Outage := fun _ _ =>
  some (.late deadline.milliseconds)

end SqlEngine
