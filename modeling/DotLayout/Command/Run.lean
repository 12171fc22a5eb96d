import DotLayout.Command.Arguments
import DotLayout.Data.Toml
import DotLayout.Dot.Document
import DotLayout.Settings

/-! # Running the command

    `run` reads the settings and then the graph description, places the nodes and writes the
    result.  It works on a `Files`, which says what is where and what can be written, and gives
    back the files as they are afterwards.

    Settings come from the file that is asked for, or else from the first of the local and the
    platform's file that exists, or else they are the defaults.  A file that is used must be
    readable and well-formed. -/

namespace DotLayout.Command

open Data Dot Layout Numeric

/-- What is found under a path. -/
inductive FileState where
  | absent
  /-- Something that cannot be read. -/
  | unreadable
  | bytes (content : ByteArray)

/-- The files of a machine. -/
structure Files where
  state : String → FileState
  canWrite : String → Bool

/-- Why the command did not write its result. -/
inductive RunError where
  | configMissing (path : String)
  | configMalformed
  /-- A file could not be read or written. -/
  | io
  | parse (error : ParseError) (source : String)
  | noRoom (fault : ClampFault)

def localConfig : String := "dotscape/config.toml"

/-- Whether something is found under a path. -/
def FileState.isThere : FileState → Bool
  | .absent => false
  | .unreadable | .bytes _ => true

def FileState.text? : FileState → Option String
  | .bytes content => String.fromUTF8? content
  | .absent | .unreadable => none

/-- Reads the settings in a file that must be there. -/
def loadFile (files : Files) (path : String) : Except RunError Settings :=
  if !(files.state path).isThere then .error (.configMissing path)
  else
    match (files.state path).text? with
    | none => .error .io
    | some text =>
      match (Toml.read? text).bind (Settings.ofValue? .toml) with
      | none => .error .configMalformed
      | some settings => .ok settings

def loadSettings (files : Files) (platformConfig : Option String) (asked : Option String) :
    Except RunError Settings :=
  match asked with
  | some path => loadFile files path
  | none =>
    match ([localConfig] ++ platformConfig.toList).find? fun path => (files.state path).isThere with
    | some path => loadFile files path
    | none => .ok {}

/-- The text to be written, and what was skipped on the way to it. -/
structure Product where
  text : String
  warnings : List Diagnostic

/-- The result for the files of a machine. -/
def produce (files : Files) (platformConfig : Option String) (arguments : Arguments) :
    Except RunError Product := do
  let loaded ← loadSettings files platformConfig arguments.config
  let settings := loaded.override arguments.layout arguments.anchor
  let source ← match (files.state arguments.input).text? with
    | some source => .ok source
    | none => .error .io
  let parsed ← (parse source).mapError (.parse · source)
  let (_, graph) ← (settings.layOut parsed.graph).mapError .noRoom
  return ⟨settings.render graph, parsed.warnings⟩

/-- The files after a text is written under a path. -/
def Files.write (files : Files) (path text : String) : Files :=
  { files with state := fun other => if other = path then .bytes text.toUTF8 else files.state other }

/-- Runs the command.  The answer of a run that succeeds is what was skipped. -/
def run (files : Files) (platformConfig : Option String) (arguments : Arguments) :
    Files × Except RunError (List Diagnostic) :=
  match produce files platformConfig arguments with
  | .error e => (files, .error e)
  | .ok product =>
    if files.canWrite arguments.output then
      (files.write arguments.output product.text, .ok product.warnings)
    else
      (files, .error .io)

end DotLayout.Command
