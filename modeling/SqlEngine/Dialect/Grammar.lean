import SqlEngine.Dialect.Reader

/-! The grammar of statements, one reader for each phrase. -/

namespace SqlEngine.Dialect.Grammar

open Reader

def numberValue (negative : Bool) (digits : List Char) : Value :=
  if digits.contains '.' then
    let places := (digits.dropWhile (· ≠ '.')).length - 1
    .real (Decimal.scaled negative (Decimal.naturalOf (digits.filter (· ≠ '.'))) (-(places : Int)))
  else
    let n := Decimal.naturalOf digits
    match signedWord? (if negative then -(n : Int) else n) with
    | some i => .integer i
    | none => .real (Decimal.scaled negative n 0)

/-- A sign may stand before any literal if it is a plus, and before a number if it is a minus. -/
def literal : Reader Value := do
  let negative ← acceptSign .minus
  if !negative then
    let _ ← acceptSign .plus
  match negative, ← look with
  | _, .number digits => pass; return numberValue negative digits.toList
  | false, .string body => pass; return .text body
  | false, .keyword .TRUE => pass; return .boolean true
  | false, .keyword .FALSE => pass; return .boolean false
  | false, .keyword .NULL => pass; return .null
  | _, _ => fail .literal

def countOf? (digits : List Char) : Option Nat :=
  let n := Decimal.naturalOf digits
  if digits.all Char.isDigit && n ≤ maxWord then some n else none

def count : Reader Nat := do
  match ← look with
  | .number digits =>
    match countOf? digits.toList with
    | some n => pass; return n
    | none => fail .count
  | _ => fail .count

def columnName : Reader ColumnName := do
  let first ← identifier
  if ← acceptSign .dot then return ⟨some first, ← identifier⟩ else return .bare first

def aggregateNext? : Reader (Option Aggregate) := do
  match ← look, ← lookNext with
  | .identifier word, .symbol .openParen => return Aggregate.named? word
  | _, _ => return none

def callArgument (function : Aggregate) (distinct : Bool) : Reader (Option ColumnName) := do
  if ← acceptSign .star then
    if function ≠ .count || distinct then fail .columnName else return none
  else return some (← columnName)

def aggregateCall (function : Aggregate) : Reader AggregateCall := do
  let _ ← identifier
  expectSign .openParen
  let distinct ← acceptWord .DISTINCT
  let argument ← callArgument function distinct
  expectSign .closeParen
  return ⟨function, argument, distinct⟩

/-- A column, or an aggregate call, which stands for the column of its text. -/
def operand : Reader ColumnName := do
  match ← aggregateNext? with
  | some function => return .bare (← aggregateCall function).text
  | none => columnName

def likePattern : Reader String := do
  match ← literal with
  | .null => fail .likePattern
  | v => return v.display

def comparisonOf? : Symbol → Option Comparison
  | .equal => some .equal
  | .notEqual => some .notEqual
  | .less => some .less
  | .greater => some .greater
  | .lessEqual => some .lessEqual
  | .greaterEqual => some .greaterEqual
  | _ => none

def comparison : Reader Comparison := do
  match ← look with
  | .symbol s =>
    match comparisonOf? s with
    | some op => pass; return op
    | none => fail .comparison
  | _ => fail .comparison

def test : Reader Test := do
  match ← look with
  | .keyword .IS =>
    pass
    let negated ← acceptWord .NOT
    expectWord .NULL
    return .isNull negated
  | .keyword .NOT =>
    pass
    expectWord .LIKE
    return .like (← likePattern) true
  | .keyword .LIKE =>
    pass
    return .like (← likePattern) false
  | _ =>
    let op ← comparison
    return .compare op (← literal)

def leftChain (k : Keyword) (combine : Condition → Condition → Condition)
    (term : Reader Condition) : Reader Condition := do
  let first ← term
  repeatedly (fun left => do
    if ← acceptWord k then return some (combine left (← term)) else return none) first

def disjunction (term : Reader Condition) : Reader Condition :=
  leftChain .OR .either (leftChain .AND .both term)

def term : (depth : Nat) → Reader Condition
  | 0 => fail .identifier
  | depth + 1 => do
    if ← acceptWord .NOT then return .negation (← term depth)
    else if ← acceptSign .openParen then
      let inner ← disjunction (term depth)
      expectSign .closeParen
      return inner
    else
      let column ← operand
      return .test column.text (← test)

/-- Every level of nesting takes a token, so the tokens at hand bound the depth. -/
def condition : Reader Condition := fun ts => disjunction (term ts.length) ts

def conditionAfter (k : Keyword) : Reader (Option Condition) := do
  if ← acceptWord k then return some (← condition) else return none

def aliasName : Reader (Option String) := do
  if ← acceptWord .AS then return some (← identifier)
  else match ← look with
    | .identifier _ => return some (← identifier)
    | _ => return none

def selectItem : Reader SelectItem := do
  match ← aggregateNext? with
  | some function =>
    let call ← aggregateCall function
    return .aggregate call (← aliasName)
  | none =>
    let column ← columnName
    return .column column (← aliasName)

def selectItems : Reader (Option (List SelectItem)) := do
  if ← acceptSign .star then return none else return some (← commaSeparated selectItem)

def tableName : Reader TableName := do
  let name ← identifier
  return ⟨name, ← aliasName⟩

def joinKind? : Reader (Option JoinKind) := do
  match ← look with
  | .keyword .JOIN => pass; return some .inner
  | .keyword .INNER => pass; expectWord .JOIN; return some .inner
  | .keyword .LEFT => pass; let _ ← acceptWord .OUTER; expectWord .JOIN; return some .left
  | .keyword .RIGHT => pass; let _ ← acceptWord .OUTER; expectWord .JOIN; return some .right
  | _ => return none

def join? : Reader (Option Join) := do
  match ← joinKind? with
  | none => return none
  | some kind =>
    let table ← tableName
    expectWord .ON
    let left ← columnName
    expectSign .equal
    return some ⟨kind, table, left, ← columnName⟩

def joins : Reader (List Join) :=
  repeatedly (fun found => do return (← join?).map fun j => found ++ [j]) []

def sortKey : Reader SortKey := do
  let column ← operand
  if ← acceptWord .DESC then return ⟨column, false⟩
  else
    let _ ← acceptWord .ASC
    return ⟨column, true⟩

def listAfter {α : Type} (k : Keyword) (item : Reader α) : Reader (List α) := do
  if ← acceptWord k then
    expectWord .BY
    commaSeparated item
  else return []

def countAfter (k : Keyword) : Reader (Option Nat) := do
  if ← acceptWord k then return some (← count) else return none

def select : Reader Select := do
  expectWord .SELECT
  let distinct ← acceptWord .DISTINCT
  let items ← selectItems
  expectWord .FROM
  let source ← tableName
  let joined ← joins
  let condition ← conditionAfter .WHERE
  let groupBy ← listAfter .GROUP columnName
  let having ← conditionAfter .HAVING
  let orderBy ← listAfter .ORDER sortKey
  let limit ← countAfter .LIMIT
  let offset ← countAfter .OFFSET
  return ⟨distinct, items, source, joined, condition, groupBy, having, orderBy, limit, offset⟩

def inParentheses {α : Type} (inner : Reader α) : Reader α := do
  expectSign .openParen
  let a ← inner
  expectSign .closeParen
  return a

def nameList? : Reader (Option (List String)) := do
  if ← acceptSign .openParen then
    let names ← commaSeparated identifier
    expectSign .closeParen
    return some names
  else return none

def insert : Reader Insert := do
  expectWord .INSERT
  expectWord .INTO
  let table ← identifier
  let columns ← nameList?
  expectWord .VALUES
  return ⟨table, columns, ← commaSeparated (inParentheses (commaSeparated literal))⟩

def assignment : Reader (String × Value) := do
  let column ← identifier
  expectSign .equal
  return (column, ← literal)

def update : Reader Update := do
  expectWord .UPDATE
  let table ← identifier
  expectWord .SET
  let assignments ← commaSeparated assignment
  return ⟨table, assignments, ← conditionAfter .WHERE⟩

def delete : Reader Delete := do
  expectWord .DELETE
  expectWord .FROM
  let table ← identifier
  return ⟨table, ← conditionAfter .WHERE⟩

def columnType : Reader ColumnType := do
  let found := match ← look with
    | .identifier word => ColumnType.named? word
    | _ => none
  match found with
  | none => fail .dataType
  | some type =>
    pass
    if ← acceptSign .openParen then
      let _ ← count
      if ← acceptSign .comma then
        let _ ← count
      expectSign .closeParen
    return type

def isAutoIncrement (l : Lexeme) : Bool :=
  match l with
  | .keyword .AUTO_INCREMENT => true
  | .identifier word => Text.asciiUpper word == "AUTOINCREMENT"
  | _ => false

def constraint? (c : Column) : Reader (Option Column) := do
  let l ← look
  match l with
  | .keyword .PRIMARY => pass; expectWord .KEY; return some c.asPrimaryKey
  | .keyword .UNIQUE => pass; return some { c with unique := true }
  | .keyword .NOT => pass; expectWord .NULL; return some { c with notNull := true }
  | .keyword .NULL => pass; return some c
  | .keyword .DEFAULT => pass; return some { c with default? := some (← literal) }
  | _ =>
    if isAutoIncrement l then
      pass
      return some { c with autoIncrement := true }
    else return none

def column : Reader Column := do
  let name ← identifier
  let type ← columnType
  repeatedly constraint? { name, type }

/-- A column, or a constraint on a column named elsewhere in the same list. -/
inductive TableItem where
  | column (c : Column)
  | primaryKey (column : String)
  | unique (column : String)

def tableItem : Reader TableItem := do
  match ← look, ← lookNext with
  | .keyword .PRIMARY, _ =>
    pass
    expectWord .KEY
    return .primaryKey (← inParentheses identifier)
  | .keyword .UNIQUE, .symbol .openParen =>
    pass
    return .unique (← inParentheses identifier)
  | _, _ => return .column (← column)

def changeColumn (name : String) (change : Column → Column) :
    List Column → Except Failure (List Column)
  | columns =>
    match columns.findIdx? (·.name == name) with
    | some i => .ok (columns.modify i change)
    | none => .error (.unknownColumn name "table definition" (columns.map (·.name)))

def columnsOf (items : List TableItem) : Except Failure (List Column) :=
  let declared := items.filterMap fun
    | .column c => some c
    | _ => none
  items.foldlM (fun columns item =>
    match item with
    | .column _ => .ok columns
    | .primaryKey name => changeColumn name Column.asPrimaryKey columns
    | .unique name => changeColumn name (fun c => { c with unique := true }) columns) declared

def ifExists (negated : Bool) : Reader Bool := do
  if ← acceptWord .IF then
    if negated then expectWord .NOT
    expectWord .EXISTS
    return true
  else return false

def createTable : Reader CreateTable := do
  expectWord .TABLE
  let ifNotExists ← ifExists true
  let table ← identifier
  expectSign .openParen
  let items ← commaSeparated tableItem
  let columns ← columnsOf items
  expectSign .closeParen
  return ⟨table, ifNotExists, columns⟩

def createIndex (unique : Bool) : Reader CreateIndex := do
  expectWord .INDEX
  let name ← identifier
  expectWord .ON
  let table ← identifier
  let columns ← inParentheses (commaSeparated identifier)
  return ⟨⟨name, columns, unique⟩, table⟩

def create : Reader Statement := do
  expectWord .CREATE
  match ← look with
  | .keyword .TABLE => return .createTable (← createTable)
  | .keyword .INDEX => return .createIndex (← createIndex false)
  | .keyword .UNIQUE => pass; return .createIndex (← createIndex true)
  | _ => fail .tableOrIndex

def dropTable : Reader DropTable := do
  expectWord .DROP
  expectWord .TABLE
  let exists? ← ifExists false
  return ⟨← identifier, exists?⟩

def showTables : Reader Statement := do
  expectWord .SHOW
  if ← acceptWord .TABLES then return .showTables else fail .tables

def body : Reader Statement := do
  match ← look with
  | .keyword .SELECT => return .select (← select)
  | .keyword .INSERT => return .insert (← insert)
  | .keyword .UPDATE => return .update (← update)
  | .keyword .DELETE => return .delete (← delete)
  | .keyword .CREATE => create
  | .keyword .DROP => return .dropTable (← dropTable)
  | .keyword .SHOW => showTables
  | .keyword .DESCRIBE => pass; return .describe (← identifier)
  | .keyword .DESC => pass; return .describe (← identifier)
  | _ => fail .statement

def statement : Reader Statement := do
  let s ← body
  let _ ← acceptSign .semicolon
  match ← look with
  | .finish => return s
  | _ => fail .statementEnd

end Grammar

def Statement.ofTokens (ts : List Token) : Except Failure Statement :=
  (Grammar.statement ts).map (·.1)

def Statement.ofText (sql : String) : Except Failure Statement :=
  match tokens sql with
  | .ok ts => ofTokens ts
  | .error e => .error (.lex e)

end SqlEngine.Dialect
