import SqlEngine.Shell.Transcript

/-! The options of the command line. -/

namespace SqlEngine.Shell

structure Options where
  command : Option String := none
  file : Option String := none
  configuration : Option String := none
  caller : String := anonymous
  style : Style := .grids
  help : Bool := false
  version : Bool := false

namespace Options

def withFlag? (o : Options) : String → Option Options
  | "--json" => some { o with style := .documents }
  | "-v" | "--verbose" => some o
  | "-h" | "--help" => some { o with help := true }
  | "-V" | "--version" => some { o with version := true }
  | _ => none

def withValue? (o : Options) (name value : String) : Option Options :=
  match name with
  | "-c" | "--command" => some { o with command := some value }
  | "-f" | "--file" => some { o with file := some value }
  | "--config" => some { o with configuration := some value }
  | "--caller" => some { o with caller := value }
  | _ => none

def ofArguments : Options → List String → Except String Options
  | o, [] => .ok o
  | o, name :: rest =>
    match o.withFlag? name with
    | some o => ofArguments o rest
    | none =>
      match rest with
      | [] => .error name
      | value :: rest =>
        match o.withValue? name value with
        | some o => ofArguments o rest
        | none => .error name

end Options

def version : String := "playsql-cli 0.1.0\n"

def usage : String := "Interactive SQL shell over an in-memory store

Usage: playsql-cli [OPTIONS]

Options:
  -c, --command <COMMAND>  Execute the given SQL (statements separated by ';') and exit
  -f, --file <FILE>        Execute SQL statements from a file and exit
      --config <CONFIG>    Engine configuration as JSON (limits default to unlimited)
      --caller <CALLER>    Caller identity charged by the rate limiter [default: anonymous]
      --json               Print results as JSON envelopes instead of tables
  -v, --verbose            Enable debug logging
  -h, --help               Print help
  -V, --version            Print version
"

end SqlEngine.Shell
