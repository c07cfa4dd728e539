import SqlEngine.Text.Lowercase

/-! The words and signs of SQL text. Names of types and of aggregate functions are not keywords, so
columns may be called `date`, `text` or `count`. -/

namespace SqlEngine.Dialect

inductive Keyword where
  | SELECT | FROM | WHERE | INSERT | INTO | VALUES | UPDATE | SET | DELETE
  | CREATE | TABLE | INDEX | DROP | IF | EXISTS | AND | OR | NOT | LIKE | IS | NULL | AS
  | ORDER | BY | ASC | DESC | LIMIT | OFFSET | DISTINCT | GROUP | HAVING
  | JOIN | LEFT | RIGHT | INNER | OUTER | ON | PRIMARY | KEY | UNIQUE | DEFAULT
  | AUTO_INCREMENT | SHOW | DESCRIBE | TABLES | TRUE | FALSE
deriving DecidableEq, Repr

namespace Keyword

def table : List (Keyword × String) := [
  (SELECT, "SELECT"), (FROM, "FROM"), (WHERE, "WHERE"), (INSERT, "INSERT"), (INTO, "INTO"),
  (VALUES, "VALUES"), (UPDATE, "UPDATE"), (SET, "SET"), (DELETE, "DELETE"), (CREATE, "CREATE"),
  (TABLE, "TABLE"), (INDEX, "INDEX"), (DROP, "DROP"), (IF, "IF"), (EXISTS, "EXISTS"),
  (AND, "AND"), (OR, "OR"), (NOT, "NOT"), (LIKE, "LIKE"), (IS, "IS"), (NULL, "NULL"),
  (AS, "AS"), (ORDER, "ORDER"), (BY, "BY"), (ASC, "ASC"), (DESC, "DESC"), (LIMIT, "LIMIT"),
  (OFFSET, "OFFSET"), (DISTINCT, "DISTINCT"), (GROUP, "GROUP"), (HAVING, "HAVING"),
  (JOIN, "JOIN"), (LEFT, "LEFT"), (RIGHT, "RIGHT"), (INNER, "INNER"), (OUTER, "OUTER"),
  (ON, "ON"), (PRIMARY, "PRIMARY"), (KEY, "KEY"), (UNIQUE, "UNIQUE"), (DEFAULT, "DEFAULT"),
  (AUTO_INCREMENT, "AUTO_INCREMENT"), (SHOW, "SHOW"), (DESCRIBE, "DESCRIBE"),
  (TABLES, "TABLES"), (TRUE, "TRUE"), (FALSE, "FALSE")]

def text (k : Keyword) : String := ((table.find? (·.1 == k)).map (·.2)).getD ""

def ofWord? (word : String) : Option Keyword :=
  (table.find? (·.2 == Text.asciiUpper word)).map (·.1)

theorem ofWord?_text (k : Keyword) : ofWord? k.text = some k := by
  cases k <;> decide +kernel

def described (k : Keyword) : String := String.ofList (k.text.toList.filter (· ≠ '_'))

end Keyword

inductive Symbol where
  | equal | notEqual | less | greater | lessEqual | greaterEqual
  | plus | minus | star | openParen | closeParen | comma | semicolon | dot
deriving DecidableEq, Repr

namespace Symbol

def text : Symbol → String
  | equal => "="
  | notEqual => "!="
  | less => "<"
  | greater => ">"
  | lessEqual => "<="
  | greaterEqual => ">="
  | plus => "+"
  | minus => "-"
  | star => "*"
  | openParen => "("
  | closeParen => ")"
  | comma => ","
  | semicolon => ";"
  | dot => "."

def isPunctuation : Symbol → Bool
  | openParen | closeParen | comma | semicolon | dot => true
  | _ => false

end Symbol

/-- What one token says. A number keeps its digits as written and a string its unquoted body. -/
inductive Lexeme where
  | keyword (k : Keyword)
  | symbol (s : Symbol)
  | number (digits : String)
  | string (body : String)
  | identifier (name : String)
  | finish
deriving DecidableEq, Repr, Inhabited

namespace Lexeme

inductive Kind where
  | keyword | identifier | string | number | operator | punctuation | finish
deriving DecidableEq, Repr

def kind : Lexeme → Kind
  | keyword _ => .keyword
  | symbol s => if s.isPunctuation then .punctuation else .operator
  | number _ => .number
  | string _ => .string
  | identifier _ => .identifier
  | finish => .finish

def text : Lexeme → String
  | keyword k => k.text
  | symbol s => s.text
  | number digits => digits
  | string body => body
  | identifier name => name
  | finish => ""

def described : Lexeme → String
  | keyword k => k.described
  | symbol s => "'" ++ s.text ++ "'"
  | number digits => "number " ++ digits
  | string body => "string '" ++ body ++ "'"
  | identifier name => "identifier '" ++ name ++ "'"
  | finish => "end of input"

end Lexeme

/-- A lexeme with the byte offsets of its first character and of the place after its last. -/
structure Token where
  lexeme : Lexeme
  start : Nat
  stop : Nat
deriving DecidableEq, Repr, Inhabited

end SqlEngine.Dialect
