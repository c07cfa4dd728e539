import SqlEngine.Engine

/-! Reports as text for a terminal. Rows are drawn as a grid whose columns are as wide as their
widest cell, in characters. -/

namespace SqlEngine.Shell

def cell : Value → String
  | .real x => Decimal.fixed 2 x
  | .text s => if 50 < s.length then String.ofList (s.toList.take 47) ++ "..." else s
  | v => v.display

def widen : (widths : List Nat) → (cells : List String) → List Nat
  | w :: widths, c :: cells => max w c.length :: widen widths cells
  | widths, _ => widths

def widths (header : List String) (lines : List (List String)) : List Nat :=
  lines.foldl widen (header.map String.length)

def repeated (n : Nat) (c : Char) : String := String.ofList (List.replicate n c)

def rule (widths : List Nat) (left inner right : String) : String :=
  left ++ inner.intercalate (widths.map fun w => repeated (w + 2) '─') ++ right ++ "\n"

def padded (c : String) (width : Nat) : String :=
  " " ++ c ++ repeated (width - c.length) ' ' ++ " "

def gridLine (widths : List Nat) (cells : List String) : String :=
  "│" ++ "│".intercalate (List.zipWith padded cells widths) ++ "│\n"

def grid (header : List String) (lines : List (List String)) : String :=
  if lines.isEmpty then "No results\n"
  else
    let ws := widths header lines
    rule ws "┌" "┬" "┐" ++ gridLine ws header ++ rule ws "├" "┼" "┤" ++
      String.join (lines.map (gridLine ws)) ++ rule ws "└" "┴" "┘"

structure Shown where
  output : String
  diagnostics : String
deriving DecidableEq

namespace Shown

def nothing : Shown := ⟨"", ""⟩

def append (a b : Shown) : Shown := ⟨a.output ++ b.output, a.diagnostics ++ b.diagnostics⟩

end Shown

def elapsedText (milliseconds : Nat) : String := s!" ({milliseconds} ms)\n"

def successText (r : Report) (milliseconds : Nat) : String :=
  match r.columns, r.rows with
  | some columns, some rows =>
    grid columns (rows.map fun row => columns.map fun c => cell (row.get c)) ++
      s!"{rows.length} row(s) returned" ++ elapsedText milliseconds
  | _, _ =>
    match r.message with
    | some message => message ++ elapsedText milliseconds
    | none => ""

def reportShown (r : Report) (milliseconds : Nat) : Shown :=
  match r.failure with
  | some kind => ⟨"", kind.name ++ ": " ++ r.message.getD "" ++ "\n"⟩
  | none =>
    ⟨successText r milliseconds,
      match r.warning with
      | some warning => "Warning: " ++ warning ++ "\n"
      | none => ""⟩

end SqlEngine.Shell
