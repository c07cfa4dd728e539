import SqlEngine.Engine
import SqlEngine.Json.Layout

/-! Reports as JSON documents. -/

namespace SqlEngine.Shell

open Json

def member? {α : Type} (name : String) (layout : α → Layout) (part : Option α) :
    List (String × Layout) :=
  part.toList.map fun a => (name, layout a)

def rowLayout (columns : List String) (row : Row) : Layout :=
  .record (columns.map fun c => (c, .ofValue (row.get c)))

def envelope (r : Report) (milliseconds : Nat) : Layout :=
  .record (("success", .scalar (if r.success then "true" else "false")) ::
    member? "rows" (.list ·) (r.rows.map (·.map (rowLayout (r.columns.getD []).eraseDups))) ++
    member? "columns" (.list ·) (r.columns.map (·.map .ofText)) ++
    member? "rowCount" .ofNat r.rowCount ++
    member? "message" .ofText r.message ++
    member? "errorKind" (fun kind => .ofText kind.name) r.failure ++
    member? "retryAfterSeconds" .ofNat r.retryAfter ++
    member? "warning" .ofText r.warning ++
    [("executionTimeMs", .ofNat milliseconds)])

end SqlEngine.Shell
