import SqlEngine.Shell.Options

/-! The command line: it reads what the options name, carries out the actions of the shell one
after the other, and measures the time that each takes. -/

namespace SqlEngine.Shell

def write (s : Shown) : IO Unit := do
  let stdout ← IO.getStdout
  stdout.putStr s.output
  stdout.flush
  (← IO.getStderr).putStr s.diagnostics

structure Terminal where
  options : Options
  engine : Engine
  begun : Nat
  crashed : Bool := false

namespace Terminal

def carryOut (t : Terminal) (action : Action) : IO Terminal := do
  if t.crashed then return t
  let start ← IO.monoNanosNow
  let (event, engine) ← IO.lazyPure fun _ =>
    Shell.carryOut t.options.caller (start - t.begun) t.engine action
  let stop ← IO.monoNanosNow
  write (event.shown t.options.style ((stop - start) / 1000000))
  return { t with engine, crashed := event = .crash }

def carryOutAll (t : Terminal) (actions : List Action) : IO Terminal :=
  actions.foldlM carryOut t

def exitCode (t : Terminal) : UInt32 := if t.crashed then .ofNat crashCode else 0

partial def converse (t : Terminal) (pending : String) : IO UInt32 := do
  let t ← t.carryOut (.prompt (pending ≠ ""))
  let line ← (← IO.getStdin).getLine
  if line.isEmpty then
    write ⟨farewell, ""⟩
    return 0
  else
    let next := turn pending line
    let t ← t.carryOutAll next.actions
    if t.crashed then return t.exitCode
    else if next.leaving then
      write ⟨farewell, ""⟩
      return 0
    else t.converse next.pending

end Terminal

def refuse (e : Failure) : IO UInt32 := do
  write ⟨"", failureText e⟩
  return 1

def runScript (t : Terminal) (script : String) : IO UInt32 := do
  match scriptActions script with
  | .ok actions => return (← t.carryOutAll actions).exitCode
  | .error e => refuse e

def runOptions (options : Options) : IO UInt32 := do
  match engineOf (← options.configuration.mapM fun path => IO.FS.readFile path) with
  | .error e => refuse e
  | .ok engine =>
    let t : Terminal := ⟨options, engine, ← IO.monoNanosNow, false⟩
    match options.command, options.file with
    | some script, _ => runScript t script
    | none, some path => runScript t (← IO.FS.readFile path)
    | none, none =>
      write ⟨greeting, ""⟩
      t.converse ""

end SqlEngine.Shell

open SqlEngine.Shell in
def main (arguments : List String) : IO UInt32 := do
  match Options.ofArguments {} arguments with
  | .error argument =>
    write ⟨"", s!"error: unexpected argument '{argument}' found\n\n" ++ usage⟩
    return 2
  | .ok options =>
    if options.help then
      write ⟨usage, ""⟩
      return 0
    else if options.version then
      write ⟨version, ""⟩
      return 0
    else
      try runOptions options
      catch e =>
        write ⟨"", s!"Error: {e}\n"⟩
        return 1
