import SqlEngine.Shell.Action
import SqlEngine.Shell.Envelope
import SqlEngine.Shell.Grid

/-! Carrying out the actions of the shell on an engine, and how what happens is shown. A statement
that breaks off takes the program with it. -/

namespace SqlEngine.Shell

inductive Event where
  | prompt (continuing : Bool)
  | print (text : String)
  | complain (text : String)
  | report (r : Report)
  | crash
deriving DecidableEq

inductive Style where
  | grids
  | documents
deriving DecidableEq

def crashText : String :=
  "user-provided comparison function does not correctly implement a total order!\n"

def promptText (continuing : Bool) : String := if continuing then "      -> " else "playsql> "

def Event.shown (style : Style) (milliseconds : Nat) : Event → Shown
  | prompt continuing => ⟨promptText continuing, ""⟩
  | print text => ⟨text, ""⟩
  | complain text => ⟨"", text⟩
  | report r =>
    match style with
    | .grids => reportShown r milliseconds
    | .documents => ⟨(envelope r milliseconds).text 0 ++ "\n", ""⟩
  | crash => ⟨"", crashText⟩

def Event.ofResponse : Response → Event
  | .told r => report r
  | .broken => crash

def carryOut (caller : String) (now : Nat) (e : Engine) : Action → Event × Engine
  | .prompt continuing => (.prompt continuing, e)
  | .print text => (.print text, e)
  | .complain text => (.complain text, e)
  | .execute sql =>
    let step := e.execute Script.noOutage now caller sql
    (.ofResponse step.result, step.engine)

def transcript (caller : String) (now : Nat) : Engine → List Action → List Event
  | _, [] => []
  | e, action :: rest =>
    let (event, after) := carryOut caller now e action
    event :: if event = .crash then [] else transcript caller now after rest

def crashCode : Nat := 101

inductive Source where
  | script (text : String)
  | session (input : String)

def Source.actions : Source → Except Failure (List Action)
  | script text => scriptActions text
  | session input => .ok (sessionActions input)

def engineOf (configuration? : Option String) : Except Failure Engine :=
  match configuration? with
  | some text => (Configuration.ofText text).map fun c => .ofConfiguration c noRemoteLimiter
  | none => .ok (.ofConfiguration .unlimited noRemoteLimiter)

/-- What an invocation brings about. It fails only before the first action. -/
def events (configuration? : Option String) (caller : String) (source : Source) :
    Except Failure (List Event) := do
  let engine ← engineOf configuration?
  let actions ← source.actions
  return transcript caller 0 engine actions

end SqlEngine.Shell
