import SqlEngine.Failure
import SqlEngine.Dialect.Split

/-! What the shell does in answer to its input. A script is a list of statements to execute. In a
session lines are collected until one of them ends with a semicolon; a line that begins with a dot
is a command. -/

namespace SqlEngine.Shell

open Dialect

inductive Action where
  | prompt (continuing : Bool)
  | print (text : String)
  | complain (text : String)
  | execute (sql : String)
deriving DecidableEq

def failureText (e : Failure) : String := "Error: " ++ e.message ++ "\n"

def scriptActions (script : String) : Except Failure (List Action) :=
  match statementTexts script with
  | .ok statements => .ok (statements.map .execute)
  | .error e => .error (.lex e)

/-- What one line brings about, the text still to be completed, and whether the session ends. -/
structure Turn where
  actions : List Action
  pending : String
  leaving : Bool
deriving DecidableEq

def greeting : String :=
  "playsql v0.1.0\nType '.help' for help, '.exit' to quit\n\n"

def farewell : String := "Goodbye!\n"

def help : String := "
Special commands:
  .help              Show this help
  .exit, .quit       Leave the shell
  .tables            List all tables
  .schema <table>    Describe a table

SQL examples:
  CREATE TABLE users (name TEXT NOT NULL, email TEXT UNIQUE, age INTEGER);
  CREATE INDEX idx_email ON users (email);
  INSERT INTO users (name, email, age) VALUES ('Alice', 'alice@example.com', 30);
  SELECT name, age FROM users WHERE email LIKE '%@example.com' ORDER BY age DESC;
  SELECT age, COUNT(*) AS n FROM users GROUP BY age HAVING n > 1;
  UPDATE users SET age = 31 WHERE name = 'Alice';
  DELETE FROM users WHERE id = 1;

"

def schemaOperand? (command : String) : Option String :=
  let word := ".schema ".toList
  let cs := command.toList
  if word.isPrefixOf cs then some (Text.trim (String.ofList (cs.drop word.length))) else none

def commandTurn (pending command : String) : Turn :=
  let discarded := if pending = "" then []
    else [Action.complain "Warning: incomplete SQL statement discarded\n"]
  if command = ".exit" ∨ command = ".quit" then ⟨discarded, "", true⟩
  else
    let actions := if command = ".help" then [Action.print help]
      else if command = ".tables" then [.execute "SHOW TABLES"]
      else match schemaOperand? command with
        | some table => [.execute ("DESCRIBE " ++ table)]
        | none => [.complain ("Unknown command: " ++ command ++ "\n"),
          .print "Type '.help' for available commands\n"]
    ⟨discarded ++ actions, "", false⟩

def endsWithSemicolon (text : String) : Bool := text.toList.getLast? == some ';'

def sqlTurn (pending line : String) : Turn :=
  let script := pending ++ line ++ "\n"
  if endsWithSemicolon line then
    match scriptActions script with
    | .ok actions => ⟨actions, "", false⟩
    | .error e => ⟨[.complain (failureText e)], "", false⟩
  else ⟨[], script, false⟩

def turn (pending line : String) : Turn :=
  let line := Text.trim line
  if line = "" then ⟨[], pending, false⟩
  else if line.toList.head? = some '.' then commandTurn pending line
  else sqlTurn pending line

def sessionFrom : (pending : String) → List String → List Action
  | pending, [] => [.prompt (pending ≠ ""), .print farewell]
  | pending, line :: rest =>
    let t := turn pending line
    .prompt (pending ≠ "") :: t.actions ++
      if t.leaving then [.print farewell] else sessionFrom t.pending rest

def linesOf (input : String) : List String :=
  let pieces := (input.toList.splitOn '\n').map String.ofList
  if pieces.getLast? = some "" then pieces.dropLast else pieces

def sessionActions (input : String) : List Action :=
  .print greeting :: sessionFrom "" (linesOf input)

end SqlEngine.Shell
