import SqlEngine.Dialect.Grammar

/-! Statements written out as text. A statement becomes a list of words, with a blank between two of
them except behind an opening parenthesis and before a closing one or a comma. -/

namespace SqlEngine.Dialect

def doubled (quote : Char) (body : List Char) : List Char :=
  body.flatMap fun c => if c = quote then [c, c] else [c]

/-- A string in single quotes. Quotes in it are doubled. -/
def quoted (s : String) : String :=
  String.ofList ('\'' :: doubled '\'' s.toList ++ ['\''])

/-- The literal of a value. No literal denotes a date, and those of real numbers are not unique. -/
def literalText : Value → String
  | .null => "NULL"
  | .boolean true => "TRUE"
  | .boolean false => "FALSE"
  | .integer n => toString n.toInt
  | .text s => quoted s
  | v => v.display

inductive Word where
  | keyword (k : Keyword)
  | sign (s : Symbol)
  | name (identifier : String)
  | operand (text : String)
  | literal (v : Value)
  | count (n : Nat)
deriving DecidableEq

namespace Word

def text : Word → String
  | keyword k => k.text
  | sign s => s.text
  | name identifier => identifier
  | operand text => text
  | literal v => literalText v
  | count n => toString n

def gap (left right : Word) : String :=
  if left = sign .openParen ∨ right = sign .comma ∨ right = sign .closeParen then "" else " "

def textOf : List Word → String
  | [] => ""
  | [w] => w.text
  | w :: v :: rest => w.text ++ gap w v ++ textOf (v :: rest)

def commas : List (List Word) → List Word
  | [] => []
  | first :: more => first ++ more.flatMap fun item => sign .comma :: item

def parentheses (inner : List Word) : List Word := sign .openParen :: inner ++ [sign .closeParen]

def flag (k : Keyword) (present : Bool) : List Word := if present then [keyword k] else []

def clause (k : Keyword) : Option (List Word) → List Word
  | none => []
  | some body => keyword k :: body

def listClause (k : Keyword) : List (List Word) → List Word
  | [] => []
  | items => keyword k :: keyword .BY :: commas items

end Word

def Comparison.symbol : Comparison → Symbol
  | .equal => .equal
  | .notEqual => .notEqual
  | .less => .less
  | .greater => .greater
  | .lessEqual => .lessEqual
  | .greaterEqual => .greaterEqual

def Test.words : Test → List Word
  | .compare op v => [.sign op.symbol, .literal v]
  | .like pattern negated => Word.flag .NOT negated ++ [.keyword .LIKE, .literal (.text pattern)]
  | .isNull negated => .keyword .IS :: Word.flag .NOT negated ++ [.keyword .NULL]

/-- What may stand in a place of a condition without parentheses: anything, anything but OR, or
neither AND nor OR. -/
inductive Level where
  | disjunction
  | conjunction
  | term
deriving DecidableEq

/-- The operator of a chain groups from the left, so that only its left operand may be a chain of the
same operator. -/
def Condition.words : Condition → Level → List Word
  | .either left right, .disjunction =>
    left.words .disjunction ++ .keyword .OR :: right.words .conjunction
  | .either left right, _ =>
    Word.parentheses (left.words .disjunction ++ .keyword .OR :: right.words .conjunction)
  | .both left right, .term =>
    Word.parentheses (left.words .conjunction ++ .keyword .AND :: right.words .term)
  | .both left right, _ => left.words .conjunction ++ .keyword .AND :: right.words .term
  | .negation inner, _ => .keyword .NOT :: inner.words .term
  | .test column tested, _ => .operand column :: tested.words

def aliasWords (alias? : Option String) : List Word :=
  Word.clause .AS (alias?.map fun name => [.name name])

def SelectItem.words : SelectItem → List Word
  | .column name alias? => .operand name.text :: aliasWords alias?
  | .aggregate call alias? => .operand call.text :: aliasWords alias?

def TableName.words (t : TableName) : List Word := .name t.name :: aliasWords t.alias?

def JoinKind.words : JoinKind → List Word
  | .inner => [.keyword .JOIN]
  | .left => [.keyword .LEFT, .keyword .JOIN]
  | .right => [.keyword .RIGHT, .keyword .JOIN]

def Join.words (j : Join) : List Word :=
  j.kind.words ++ j.table.words ++
    [.keyword .ON, .operand j.left.text, .sign .equal, .operand j.right.text]

def SortKey.words (k : SortKey) : List Word :=
  .operand k.column.text :: Word.flag .DESC !k.ascending

def whereWords (k : Keyword) (condition : Option Condition) : List Word :=
  Word.clause k (condition.map (·.words .disjunction))

def countWords (k : Keyword) (n : Option Nat) : List Word := Word.clause k (n.map fun n => [.count n])

def itemWords : Option (List SelectItem) → List Word
  | none => [.sign .star]
  | some items => Word.commas (items.map (·.words))

def Select.words (s : Select) : List Word :=
  .keyword .SELECT :: Word.flag .DISTINCT s.distinct ++ itemWords s.items ++
    .keyword .FROM :: s.source.words ++ s.joins.flatMap (·.words) ++
    whereWords .WHERE s.condition ++
    Word.listClause .GROUP (s.groupBy.map fun c => [.operand c.text]) ++
    whereWords .HAVING s.having ++
    Word.listClause .ORDER (s.orderBy.map (·.words)) ++
    countWords .LIMIT s.limit ++ countWords .OFFSET s.offset

def nameList (names : List String) : List Word :=
  Word.parentheses (Word.commas (names.map fun name => [.name name]))

def rowWords (values : List Value) : List Word :=
  Word.parentheses (Word.commas (values.map fun v => [.literal v]))

def Insert.words (s : Insert) : List Word :=
  [.keyword .INSERT, .keyword .INTO, .name s.table] ++ (s.columns.map nameList).getD [] ++
    .keyword .VALUES :: Word.commas (s.values.map rowWords)

def Update.words (s : Update) : List Word :=
  [.keyword .UPDATE, .name s.table, .keyword .SET] ++
    Word.commas (s.assignments.map fun a => [.name a.1, .sign .equal, .literal a.2]) ++
    whereWords .WHERE s.condition

def Delete.words (s : Delete) : List Word :=
  [.keyword .DELETE, .keyword .FROM, .name s.table] ++ whereWords .WHERE s.condition

def columnConstraints (c : Column) : List (List Word × (Column → Column)) :=
  (if c.primaryKey then [([.keyword .PRIMARY, .keyword .KEY], Column.asPrimaryKey)] else []) ++
  (if c.unique && !c.primaryKey then [([.keyword .UNIQUE], fun c => { c with unique := true })]
    else []) ++
  (if c.notNull && !c.primaryKey then
    [([.keyword .NOT, .keyword .NULL], fun c => { c with notNull := true })] else []) ++
  (if c.autoIncrement then
    [([.keyword .AUTO_INCREMENT], fun c => { c with autoIncrement := true })] else []) ++
  match c.default? with
  | none => []
  | some v => [([.keyword .DEFAULT, .literal v], fun c => { c with default? := some v })]

def columnWords (c : Column) : List Word :=
  .name c.name :: .name c.type.name :: (columnConstraints c).flatMap (·.1)

def CreateTable.words (s : CreateTable) : List Word :=
  [.keyword .CREATE, .keyword .TABLE] ++
    (if s.ifNotExists then [.keyword .IF, .keyword .NOT, .keyword .EXISTS] else []) ++
    .name s.table :: Word.parentheses (Word.commas (s.columns.map columnWords))

def CreateIndex.words (s : CreateIndex) : List Word :=
  .keyword .CREATE :: Word.flag .UNIQUE s.index.unique ++
    [.keyword .INDEX, .name s.index.name, .keyword .ON, .name s.table] ++ nameList s.index.columns

def DropTable.words (s : DropTable) : List Word :=
  [.keyword .DROP, .keyword .TABLE] ++
    (if s.ifExists then [.keyword .IF, .keyword .EXISTS] else []) ++ [.name s.table]

def Statement.words : Statement → List Word
  | .select s => s.words
  | .insert s => s.words
  | .update s => s.words
  | .delete s => s.words
  | .createTable s => s.words
  | .createIndex s => s.words
  | .dropTable s => s.words
  | .showTables => [.keyword .SHOW, .keyword .TABLES]
  | .describe table => [.keyword .DESCRIBE, .name table]

def Statement.render (s : Statement) : String := Word.textOf s.words

/-- A letter or an underscore, and then letters, digits and underscores. -/
def isWord : List Char → Bool
  | [] => false
  | c :: cs => isWordStart c && cs.all isWordPart

def IsName (s : String) : Prop := isWord s.toList = true ∧ Keyword.ofWord? s = none

instance (s : String) : Decidable (IsName s) := inferInstanceAs (Decidable (_ ∧ _))

/-- What a literal spells in one way only. The grammar has no literal for a date at all. -/
def HasLiteral : Value → Prop
  | .real _ => False
  | .date _ => False
  | _ => True

namespace ColumnName

structure WellFormed (c : ColumnName) : Prop where
  qualifier : ∀ q ∈ c.qualifier, IsName q
  column : IsName c.column

end ColumnName

namespace AggregateCall

structure WellFormed (c : AggregateCall) : Prop where
  supported : c.isSupported = true
  argument : ∀ column ∈ c.argument, column.WellFormed

end AggregateCall

def IsOperand (text : String) : Prop :=
  (∃ c : ColumnName, c.WellFormed ∧ c.text = text) ∨ ∃ c : AggregateCall, c.WellFormed ∧ c.text = text

def Test.WellFormed : Test → Prop
  | .compare _ v => HasLiteral v
  | _ => True

def Condition.WellFormed : Condition → Prop
  | .both left right => left.WellFormed ∧ right.WellFormed
  | .either left right => left.WellFormed ∧ right.WellFormed
  | .negation inner => inner.WellFormed
  | .test column tested => IsOperand column ∧ tested.WellFormed

def SelectItem.WellFormed : SelectItem → Prop
  | .column name alias? => name.WellFormed ∧ ∀ a ∈ alias?, IsName a
  | .aggregate call alias? => call.WellFormed ∧ ∀ a ∈ alias?, IsName a

structure TableName.WellFormed (t : TableName) : Prop where
  name : IsName t.name
  alias? : ∀ a ∈ t.alias?, IsName a

structure Join.WellFormed (j : Join) : Prop where
  table : j.table.WellFormed
  left : j.left.WellFormed
  right : j.right.WellFormed

def SortKey.WellFormed (k : SortKey) : Prop :=
  k.column.WellFormed ∨ ∃ c : AggregateCall, c.WellFormed ∧ k.column = .bare c.text

structure Select.WellFormed (s : Select) : Prop where
  items : ∀ items ∈ s.items, items ≠ [] ∧ ∀ item ∈ items, item.WellFormed
  source : s.source.WellFormed
  joins : ∀ j ∈ s.joins, j.WellFormed
  condition : ∀ c ∈ s.condition, c.WellFormed
  groupBy : ∀ c ∈ s.groupBy, c.WellFormed
  having : ∀ c ∈ s.having, c.WellFormed
  orderBy : ∀ k ∈ s.orderBy, k.WellFormed
  limit : ∀ n ∈ s.limit, n ≤ maxWord
  offset : ∀ n ∈ s.offset, n ≤ maxWord

structure Insert.WellFormed (s : Insert) : Prop where
  table : IsName s.table
  columns : ∀ names ∈ s.columns, names ≠ [] ∧ ∀ name ∈ names, IsName name
  rows : s.values ≠ []
  values : ∀ row ∈ s.values, row ≠ [] ∧ ∀ v ∈ row, HasLiteral v

structure Update.WellFormed (s : Update) : Prop where
  table : IsName s.table
  nonempty : s.assignments ≠ []
  assignments : ∀ a ∈ s.assignments, IsName a.1 ∧ HasLiteral a.2
  condition : ∀ c ∈ s.condition, c.WellFormed

structure Delete.WellFormed (s : Delete) : Prop where
  table : IsName s.table
  condition : ∀ c ∈ s.condition, c.WellFormed

structure ColumnWellFormed (c : Column) : Prop where
  name : IsName c.name
  unique : c.primaryKey = true → c.unique = true
  notNull : c.primaryKey = true → c.notNull = true
  default? : ∀ v ∈ c.default?, HasLiteral v

structure CreateTable.WellFormed (s : CreateTable) : Prop where
  table : IsName s.table
  nonempty : s.columns ≠ []
  columns : ∀ c ∈ s.columns, ColumnWellFormed c

structure CreateIndex.WellFormed (s : CreateIndex) : Prop where
  name : IsName s.index.name
  table : IsName s.table
  nonempty : s.index.columns ≠ []
  columns : ∀ name ∈ s.index.columns, IsName name

def Statement.WellFormed : Statement → Prop
  | .select s => s.WellFormed
  | .insert s => s.WellFormed
  | .update s => s.WellFormed
  | .delete s => s.WellFormed
  | .createTable s => s.WellFormed
  | .createIndex s => s.WellFormed
  | .dropTable s => IsName s.table
  | .showTables => True
  | .describe table => IsName table

end SqlEngine.Dialect
