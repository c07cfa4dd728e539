import SqlEngine.Failure
import SqlEngine.Json.Scalar

/-! The limits under which statements run, their presets, and their reading from JSON. -/

namespace SqlEngine

structure RateLimit where
  maxQueries : Nat
  windowSeconds : Nat
deriving DecidableEq

structure Quotas where
  maxTables : Nat
  maxRowsPerTable : Nat
deriving DecidableEq

namespace Quotas

def checkTables (q : Quotas) (present : Nat) : Except Failure Unit :=
  if q.maxTables ≤ present then .error (.constraint (.tableQuota q.maxTables)) else .ok ()

def checkRows (q : Quotas) (table : String) (present requested : Nat) : Except Failure Unit :=
  if q.maxRowsPerTable < min (present + requested) maxWord then
    .error (.constraint (.rowQuota table q.maxRowsPerTable present requested))
  else .ok ()

end Quotas

structure Configuration where
  rateLimit : RateLimit
  quotas : Quotas
  timeoutMilliseconds : Nat
  auditLog : Bool
deriving DecidableEq

namespace Configuration

def standard : Configuration := ⟨⟨60, 60⟩, ⟨10, 1000⟩, 5000, true⟩

def testing : Configuration := ⟨⟨10000, 60⟩, ⟨100, 10000⟩, 5000, true⟩

/-- In effect no limits, and no log. -/
def unlimited : Configuration := ⟨⟨0xFFFFFFFF, 60⟩, ⟨maxWord, maxWord⟩, 60000, false⟩

def validate (c : Configuration) : Except Failure Configuration :=
  if c.rateLimit.maxQueries = 0 then
    .error (.semantic (.zeroLimit "rate_limit.max_queries_per_window"))
  else if c.rateLimit.windowSeconds = 0 then
    .error (.semantic (.zeroLimit "rate_limit.window_secs"))
  else if c.quotas.maxTables = 0 ∨ c.quotas.maxRowsPerTable = 0 then
    .error (.semantic (.zeroLimit "quotas"))
  else if c.timeoutMilliseconds = 0 then .error (.semantic (.zeroLimit "query_timeout_ms"))
  else .ok c

open Json

abbrev Field (α : Type) := String × (Document → α → Option α)

def word (limit : Nat) (d : Document) : Option Nat :=
  match d with
  | .number n => n.word? limit
  | _ => none

def flag (d : Document) : Option Bool :=
  match d with
  | .boolean b => some b
  | _ => none

def fieldNamed? {α : Type} (fields : List (Field α)) (name : Characters) :
    Option (Option (Field α)) :=
  name.map fun cs => fields.find? (·.1 == String.ofList cs)

def readMembers {α : Type} (fields : List (Field α)) :
    (seen : List String) → List (Characters × Document) → α → Option α
  | _, [], record => some record
  | seen, (name, value) :: rest, record => do
    match ← fieldNamed? fields name with
    | none => readMembers fields seen rest record
    | some field =>
      if seen.contains field.1 then none
      else readMembers fields (field.1 :: seen) rest (← field.2 value record)

def readItems {α : Type} : List (Field α) → List Document → α → Option α
  | _, [], record => some record
  | [], _ :: _, _ => none
  | field :: fields, value :: rest, record => do
    readItems fields rest (← field.2 value record)

/-- A record as an object or as an array of its fields. -/
def readRecord {α : Type} (fields : List (Field α)) (d : Document) (record : α) : Option α :=
  match d with
  | .object members => readMembers fields [] members record
  | .array items => readItems fields items record
  | _ => none

def rateLimitFields : List (Field RateLimit) := [
  ("max_queries_per_window", fun d r => (word 0xFFFFFFFF d).map ({ r with maxQueries := · })),
  ("window_secs", fun d r => (word maxWord d).map ({ r with windowSeconds := · }))]

def quotaFields : List (Field Quotas) := [
  ("max_tables", fun d q => (word maxWord d).map ({ q with maxTables := · })),
  ("max_rows_per_table", fun d q => (word maxWord d).map ({ q with maxRowsPerTable := · }))]

def fields : List (Field Configuration) := [
  ("rate_limit", fun d c =>
    (readRecord rateLimitFields d standard.rateLimit).map ({ c with rateLimit := · })),
  ("quotas", fun d c => (readRecord quotaFields d standard.quotas).map ({ c with quotas := · })),
  ("query_timeout_ms", fun d c => (word maxWord d).map ({ c with timeoutMilliseconds := · })),
  ("audit_log", fun d c => (flag d).map ({ c with auditLog := · }))]

def ofText (text : String) : Except Failure Configuration :=
  match (Document.ofText? text).bind fun d => readRecord fields d standard with
  | some c => c.validate
  | none => .error (.semantic .invalidConfiguration)

end Configuration
end SqlEngine
