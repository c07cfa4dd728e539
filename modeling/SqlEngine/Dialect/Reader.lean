import SqlEngine.Failure

/-! Reading from a list of tokens. A reader answers a value and the tokens that are left, or the
first thing that it cannot accept. The token that marks the end of the text is never passed. -/

namespace SqlEngine.Dialect

abbrev Reader := StateT (List Token) (Except Failure)

namespace Reader

def current : List Token → Token
  | [] => ⟨.finish, 0, 0⟩
  | t :: _ => t

def next : List Token → Token
  | _ :: t :: _ => t
  | ts => current ts

def passed : List Token → List Token
  | _ :: t :: rest => t :: rest
  | ts => ts

def look : Reader Lexeme := fun ts => .ok ((current ts).lexeme, ts)

def lookNext : Reader Lexeme := fun ts => .ok ((next ts).lexeme, ts)

def pass : Reader Unit := fun ts => .ok ((), passed ts)

def fail {α : Type} (e : Expectation) : Reader α := fun ts =>
  .error (.parse e (current ts).lexeme (current ts).start)

def accept (l : Lexeme) : Reader Bool := fun ts =>
  if (current ts).lexeme = l then .ok (true, passed ts) else .ok (false, ts)

def expect (l : Lexeme) : Reader Unit := fun ts =>
  if (current ts).lexeme = l then .ok ((), passed ts)
  else .error (.parse (.lexeme l) (current ts).lexeme (current ts).start)

def acceptWord (k : Keyword) : Reader Bool := accept (.keyword k)

def expectWord (k : Keyword) : Reader Unit := expect (.keyword k)

def acceptSign (s : Symbol) : Reader Bool := accept (.symbol s)

def expectSign (s : Symbol) : Reader Unit := expect (.symbol s)

def iterate {α : Type} (step : α → Reader (Option α)) : (fuel : Nat) → α → Reader α
  | 0, a => pure a
  | fuel + 1, a => do
    match ← step a with
    | some b => iterate step fuel b
    | none => pure a

/-- Applies `step` as long as it answers a new value. Such a step passes a token, so the tokens at
hand bound their number. -/
def repeatedly {α : Type} (step : α → Reader (Option α)) (a : α) : Reader α := fun ts =>
  iterate step ts.length a ts

def commaSeparated {α : Type} (item : Reader α) : Reader (List α) := do
  let first ← item
  repeatedly (fun items => do
    if ← acceptSign .comma then return some (items ++ [← item]) else return none) [first]

def identifier : Reader String := do
  match ← look with
  | .identifier name => pass; return name
  | _ => fail .identifier

end Reader
end SqlEngine.Dialect
