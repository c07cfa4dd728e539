import SqlEngine.Dialect.Scan
import SqlEngine.Dialect.Statement

/-! The ways a statement can fail, as causes. The wording of every message stands in this module. -/

namespace SqlEngine

open Dialect

def listed (names : List String) : String := ", ".intercalate names

inductive Expectation where
  | statement
  | statementEnd
  | lexeme (l : Lexeme)
  | identifier
  | columnName
  | join
  | tableOrIndex
  | tables
  | dataType
  | comparison
  | literal
  | likePattern
  | count
deriving DecidableEq

def Expectation.text : Expectation → String
  | statement => "SELECT, INSERT, UPDATE, DELETE, CREATE, DROP, SHOW or DESCRIBE"
  | statementEnd => "end of statement"
  | lexeme l => l.described
  | identifier => "identifier"
  | columnName => "column name"
  | join => "JOIN"
  | tableOrIndex => "TABLE or INDEX after CREATE"
  | tables => "TABLES after SHOW"
  | dataType => "data type (INTEGER, TEXT, REAL, BOOLEAN or DATE)"
  | comparison => "comparison operator"
  | literal => "literal value"
  | likePattern => "LIKE pattern"
  | count => "non-negative integer"

inductive SemanticFault where
  | tableExists (table : String)
  | indexExists (index table : String)
  | noColumns
  | duplicateColumn (column : String)
  | manyPrimaryKeys
  | manyAutoIncrements
  | autoIncrementType (column : String) (type : ColumnType)
  | idType (column : String) (type : ColumnType)
  | autoIncrementNotKey (column : String)
  | listedTwice (column : String)
  | valueCount (row values columns : Nat)
  | starWithGroups
  | unsupportedCall (call : AggregateCall)
  | havingNotSelected (column : String)
  | orderNotSelected (column : String)
  | invalidConfiguration
  | zeroLimit (limits : String)
deriving DecidableEq

def SemanticFault.message : SemanticFault → String
  | tableExists table => s!"table '{table}' already exists"
  | indexExists index table => s!"index '{index}' already exists on table '{table}'"
  | noColumns => "a table needs at least one column"
  | duplicateColumn column => s!"duplicate column '{column}'"
  | manyPrimaryKeys => "a table can have only one primary key"
  | manyAutoIncrements => "a table can have only one AUTO_INCREMENT column"
  | autoIncrementType column type =>
    s!"AUTO_INCREMENT column '{column}' must be INTEGER, not " ++ type.name
  | idType column type =>
    s!"column '{column}' is " ++ type.name ++ " and cannot become the implicit INTEGER primary key"
  | autoIncrementNotKey column => s!"AUTO_INCREMENT column '{column}' must be the primary key"
  | listedTwice column => s!"column '{column}' listed more than once"
  | valueCount row values columns =>
    s!"INSERT row {row} has {values} values but {columns} columns"
  | starWithGroups => "SELECT * cannot be combined with aggregates or GROUP BY"
  | unsupportedCall call => call.text ++ " is not supported"
  | havingNotSelected column =>
    s!"HAVING references {column} which is not in the select list"
  | orderNotSelected column => s!"ORDER BY {column} which is not in the select list"
  | invalidConfiguration => "invalid engine config"
  | zeroLimit limits => s!"{limits} must be > 0"

inductive Violation where
  | notNull (column : String)
  | duplicateValue (value : Value) (column table : String)
  | duplicateKey (key : String)
  | uniqueIndex (index key : String)
  | tableQuota (limit : Nat)
  | rowQuota (table : String) (limit present requested : Nat)
deriving DecidableEq

def duplicateKeyText (key : String) : String := s!"duplicate key {key} in unique index"

def Violation.message : Violation → String
  | notNull column => s!"column '{column}' cannot be NULL"
  | duplicateValue value column table =>
    "duplicate value " ++ value.display ++ s!" for unique column '{column}' in table '{table}'"
  | duplicateKey key => duplicateKeyText key
  | uniqueIndex index key => s!"cannot create unique index '{index}': " ++ duplicateKeyText key
  | tableQuota limit => s!"table limit reached: at most {limit} tables allowed"
  | rowQuota table limit present requested =>
    s!"row limit reached for table '{table}': at most {limit} rows allowed " ++
      s!"({present} present, {requested} requested)"

inductive StoreFault where
  | tableNotFound (id : Nat)
  | rowNotFound (id : Nat)
  | tableExists (name : String)
  | backend (message : String)
deriving DecidableEq

def StoreFault.message : StoreFault → String
  | tableNotFound id => s!"table {id} not found"
  | rowNotFound id => s!"row {id} not found"
  | tableExists name => s!"table '{name}' already exists"
  | backend message => message

/-- The known names of an unknown table or column are kept for the message. -/
inductive Failure where
  | lex (error : LexError)
  | parse (expected : Expectation) (found : Lexeme) (offset : Nat)
  | unknownTable (name : String) (known : List String)
  | unknownColumn (column table : String) (known : List String)
  | semantic (cause : SemanticFault)
  | notConvertible (value : Value) (type : ColumnType) (column : String)
  | constraint (cause : Violation)
  | rateLimited (retryAfter : Nat)
  | timeout (milliseconds : Nat)
  | store (cause : StoreFault)
deriving DecidableEq

inductive FailureKind where
  | lex | parse | semantic | type | constraint | rateLimit | timeout | store
deriving DecidableEq

def FailureKind.name : FailureKind → String
  | lex => "LexError"
  | parse => "ParseError"
  | semantic => "SemanticError"
  | type => "TypeError"
  | constraint => "ConstraintViolation"
  | rateLimit => "RateLimitExceeded"
  | timeout => "TimeoutError"
  | store => "StoreError"

def occursIn (part : List Char) : List Char → Bool
  | [] => part.isEmpty
  | c :: rest => part.isPrefixOf (c :: rest) || occursIn part rest

/-- The first known name that contains the wanted one or is contained in it, in any case. -/
def suggestion? (wanted : String) (known : List String) : Option String :=
  let needle := Text.lowerChars wanted.toList
  known.find? fun name =>
    let candidate := Text.lowerChars name.toList
    occursIn needle candidate || occursIn candidate needle

namespace Failure

def noTable (name : String) (known : List String) : Failure :=
  unknownTable name (known.mergeSort fun a b => compare a b != .gt)

def kind : Failure → FailureKind
  | lex _ => .lex
  | parse .. => .parse
  | unknownTable .. => .semantic
  | unknownColumn .. => .semantic
  | semantic _ => .semantic
  | notConvertible .. => .type
  | constraint _ => .constraint
  | rateLimited _ => .rateLimit
  | timeout _ => .timeout
  | store _ => .store

def retryAfter? : Failure → Option Nat
  | rateLimited seconds => some seconds
  | _ => none

def tableMessage (name : String) (known : List String) : String :=
  let hint := match suggestion? name known with
    | some near => s!" Did you mean '{near}'?"
    | none => ""
  let others := if known.isEmpty then " No tables exist yet."
    else " Available tables: " ++ listed known
  s!"Table '{name}' does not exist." ++ hint ++ others

def quoted : Value → String
  | .text s => s!"'{s}'"
  | .date s => s!"'{s}'"
  | v => v.display

def message : Failure → String
  | lex e => "Lex error: " ++ e.fault.message ++ " at offset " ++ toString e.offset
  | parse expected found offset =>
    "Parse error: expected " ++ expected.text ++ ", found " ++ found.described ++
      s!" at offset {offset}"
  | unknownTable name known => tableMessage name known
  | unknownColumn column table known =>
    s!"Column '{column}' does not exist in table '{table}'. Available columns: " ++ listed known
  | semantic cause => "Semantic error: " ++ cause.message
  | notConvertible value type column =>
    "Type error: cannot convert " ++ quoted value ++ " to " ++ type.name ++
      s!" for column '{column}'"
  | constraint cause => "Constraint violation: " ++ cause.message
  | rateLimited seconds => s!"Rate limit exceeded, retry after {seconds}s"
  | timeout milliseconds => s!"Query timed out after {milliseconds}ms"
  | store cause => "Store error: " ++ cause.message

end Failure

/-- Why a statement has no output: it failed, or the program broke off, as it does in a sort by a
comparison that is no order. Callers are told of failures only. -/
inductive Halt where
  | failed (cause : Failure)
  | broken
deriving DecidableEq

namespace Halt

instance : Coe Failure Halt := ⟨failed⟩

def lift {α : Type} : Except Failure α → Except Halt α
  | .ok a => .ok a
  | .error e => .error e

@[simp] theorem lift_ok {α : Type} (a : α) : lift (.ok a) = .ok a := rfl

@[simp] theorem lift_error {α : Type} (e : Failure) :
    lift (.error e : Except Failure α) = .error (.failed e) := rfl

@[simp] theorem lift_eq_ok {α : Type} {r : Except Failure α} {a : α} :
    lift r = .ok a ↔ r = .ok a := by
  cases r <;> simp

theorem lift_bind {α β : Type} (r : Except Failure α) (f : α → Except Failure β) :
    lift (r >>= f) = lift r >>= fun a => lift (f a) := by
  cases r <;> rfl

theorem lift_bind_eq_broken {α β : Type} {r : Except Failure α} {f : α → Except Halt β} :
    (lift r >>= f) = .error broken ↔ ∃ a, r = .ok a ∧ f a = .error broken := by
  cases r <;> simp [Bind.bind, Except.bind]

end Halt
end SqlEngine
