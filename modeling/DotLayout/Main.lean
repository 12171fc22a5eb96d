import DotLayout.Command.Run
import DotLayout.Report

/-! # The command

    Reads a graph description, places its nodes, and writes the graph with the ways of its edges
    as JSON.  Whatever is to be reported goes to the standard error. -/

namespace DotLayout.Command

/-- How the command is called. -/
def usage : String :=
  "Usage: dotlayout [OPTIONS] <INPUT>\n\n"
    ++ "  <INPUT>                  Path to the input DOT file\n"
    ++ "  -o, --output <OUTPUT>    Path to the output JSON file [default: out.json]\n"
    ++ "  -c, --config <CONFIG>    Path to configuration file (TOML)\n"
    ++ "  -l, --layout <LAYOUT>    Layout algorithm\n"
    ++ "  -a, --anchor <ANCHOR>    Id of the node to center or pin\n"
    ++ "      --log-level <LEVEL>  Log level [default: info]\n"
    ++ "  -h, --help               Print help\n"
    ++ "  -V, --version            Print version\n"

/-- The words for arguments that are not carried out. -/
def ArgumentError.message : ArgumentError → String
  | .helpAsked => usage
  | .versionAsked => "dotlayout 0.1.0\n"
  | .inputMissing => "error: the path of the input is missing\n\n" ++ usage
  | .unknownArgument => "error: unexpected argument\n\n" ++ usage
  | .valueMissing => "error: an option has no value\n\n" ++ usage
  | .repeated => "error: an option is given twice\n\n" ++ usage
  | .valueUnneeded => "error: a value is given to an option that takes none\n\n" ++ usage

/-- The failure that an error of a run is reported as. -/
def RunError.failure : RunError → Failure
  | .configMissing path => .config ("Missing configuration file: " ++ path)
  | .configMalformed => .config "Failed to parse TOML configuration"
  | .io => .io "a file could not be read or written"
  | .parse error source => .parse error.diagnostics source
  | .noRoom _ => .layout "the bounds of the layout leave no room"

/-- What stands at a path. -/
def look (path : String) : IO FileState := do
  try
    return .bytes (← IO.FS.readBinFile path)
  catch
    | .noFileOrDirectory .. => return .absent
    | _ => return .unreadable

/-- Where the platform keeps the settings of the command. -/
def platformConfig : IO (Option String) := do
  let base ← match ← IO.getEnv "XDG_CONFIG_HOME" with
    | some base => pure (some base)
    | none => pure ((← IO.getEnv "HOME").map (· ++ "/.config"))
  return base.map (· ++ "/" ++ localConfig)

/-- Reads what the command needs, runs it, and shows or writes what comes out. -/
def carryOut (arguments : Arguments) : IO UInt32 := do
  let platform ← platformConfig
  let paths := arguments.config.toList ++ [localConfig] ++ platform.toList ++ [arguments.input]
  let found ← paths.mapM fun path => do return (path, ← look path)
  let files : Files := ⟨fun path => (found.lookup path).getD .absent, fun _ => true⟩
  let (after, outcome) := run files platform arguments
  match outcome with
  | .error e =>
    for report in Report.ofFailure e.failure do
      IO.eprintln report.message
    return 1
  | .ok warnings =>
    for warning in warnings do
      IO.eprintln warning.summary
    match after.state arguments.output with
    | .bytes content => IO.FS.writeBinFile arguments.output content
    | _ => pure ()
    return 0

end DotLayout.Command

open DotLayout.Command in
/-- Runs the command, and returns its exit code. -/
def main (arguments : List String) : IO UInt32 := do
  match Arguments.parse arguments with
  | .ok parsed => carryOut parsed
  | .error e =>
    if e = .helpAsked ∨ e = .versionAsked then
      IO.print e.message
      return 0
    else
      IO.eprint e.message
      return 2
