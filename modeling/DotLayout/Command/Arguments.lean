/-! # Command line arguments

    The command takes the path of a graph description and options.  An option has a long name, and
    all but one have a letter; its value follows as the next argument, or after `=`, or right
    after the letter.  `--` ends the options, and `-` alone is a path.

    `Arguments.parse` goes through the arguments from left to right.  An option that waits for its
    value is settled when the next known option, a path or the end comes, so a missing value or a
    repeated option is reported then; an unknown option is reported at once. -/

namespace DotLayout.Command

/-- What can be set on the command line. -/
inductive Flag where
  | output
  | config
  | layout
  | anchor
  | logLevel
  deriving Repr, DecidableEq

namespace Flag

/-- All options that take a value. -/
def all : List Flag := [.output, .config, .layout, .anchor, .logLevel]

/-- The long name of an option. -/
def name : Flag → String
  | .output => "output"
  | .config => "config"
  | .layout => "layout"
  | .anchor => "anchor"
  | .logLevel => "log-level"

/-- The letter of an option, if it has one. -/
def letter? : Flag → Option Char
  | .output => some 'o'
  | .config => some 'c'
  | .layout => some 'l'
  | .anchor => some 'a'
  | .logLevel => none

end Flag

/-- What the command is asked to do. -/
structure Arguments where
  input : String
  output : String := "out.json"
  config : Option String := none
  layout : Option String := none
  anchor : Option String := none
  logLevel : String := "info"
  deriving Repr, DecidableEq

/-- Why arguments are not carried out. -/
inductive ArgumentError where
  | helpAsked
  | versionAsked
  | inputMissing
  | unknownArgument
  /-- An option without a value. -/
  | valueMissing
  /-- An option that is given twice. -/
  | repeated
  /-- A value for an option that takes none. -/
  | valueUnneeded
  deriving Repr, DecidableEq

/-- What an option asks for. -/
inductive Request where
  | help
  | version
  | set (flag : Flag)
  deriving Repr, DecidableEq

/-- What the option with a long name asks for, if there is one. -/
def requestNamed? (name : List Char) : Option Request :=
  if name = "help".toList then some .help
  else if name = "version".toList then some .version
  else (Flag.all.find? fun flag => flag.name.toList == name).map .set

/-- What the option with a letter asks for, if there is one. -/
def requestLettered? (letter : Char) : Option Request :=
  if letter = 'h' then some .help
  else if letter = 'V' then some .version
  else (Flag.all.find? fun flag => flag.letter? == some letter).map .set

/-- The arguments read so far. -/
structure Progress where
  input : Option String := none
  given : List (Flag × String) := []
  /-- The last option that is not settled yet, and its value if that has come. -/
  pending : Option (Flag × Option String) := none
  /-- Whether only paths may follow. -/
  pathsOnly : Bool := false

namespace Progress

/-- Gives a value to an option that has none yet. -/
def give (p : Progress) (flag : Flag) (value : String) : Except ArgumentError Progress :=
  if (p.given.lookup flag).isSome then .error .repeated
  else .ok { p with given := p.given ++ [(flag, value)] }

/-- Settles the option that is still pending, if there is one. -/
def settle (p : Progress) : Except ArgumentError Progress :=
  match p.pending with
  | none => .ok p
  | some (_, none) => .error .valueMissing
  | some (flag, some value) => { p with pending := none }.give flag value

/-- Takes an option with the value that comes with it, if one does. -/
def takeRequest (p : Progress) (request : Request) (attached : Option (List Char)) :
    Except ArgumentError Progress :=
  match request, attached with
  | .set flag, some value => do (← p.settle).give flag (String.ofList value)
  | .set flag, none => do return { ← p.settle with pending := some (flag, none) }
  | _, some _ => .error .valueUnneeded
  | .help, none => do
    let _ ← p.settle
    .error .helpAsked
  | .version, none => do
    let _ ← p.settle
    .error .versionAsked

/-- Takes the path of the input, of which there is one at most. -/
def takePath (p : Progress) (path : String) : Except ArgumentError Progress :=
  if p.input.isSome then .error .unknownArgument
  else do return { ← p.settle with input := some path }

/-- Takes an option by its long name, with the value after `=` if there is one. -/
def takeLong (p : Progress) (text : List Char) : Except ArgumentError Progress :=
  let name := text.takeWhile (· ≠ '=')
  let attached := match text.dropWhile (· ≠ '=') with
    | _ :: value => some value
    | [] => none
  match requestNamed? name with
  | some request => p.takeRequest request attached
  | none => .error .unknownArgument

/-- Takes an option by its letter, with the value after it if there is one. -/
def takeLetter (p : Progress) (letter : Char) (rest : List Char) : Except ArgumentError Progress :=
  match requestLettered? letter with
  | some (.set flag) =>
    p.takeRequest (.set flag)
      (match rest with
      | [] => none
      | '=' :: value => some value
      | value => some value)
  | some request => p.takeRequest request none
  | none => .error .unknownArgument

/-- Takes the next argument. -/
def take (p : Progress) (argument : String) : Except ArgumentError Progress :=
  if p.pathsOnly then p.takePath argument
  else
    match argument.toList with
    | ['-', '-'] => .ok { p with pathsOnly := true }
    | '-' :: '-' :: text => p.takeLong text
    | '-' :: letter :: rest => p.takeLetter letter rest
    | _ =>
      match p.pending with
      | some (flag, none) => .ok { p with pending := some (flag, some argument) }
      | _ => p.takePath argument

/-- The arguments, once all have been taken. -/
def finish (p : Progress) : Except ArgumentError Arguments := do
  let p ← p.settle
  match p.input with
  | none => .error .inputMissing
  | some input =>
    let value (flag : Flag) : Option String := p.given.lookup flag
    return {
      input := input
      output := (value .output).getD "out.json"
      config := value .config
      layout := value .layout
      anchor := value .anchor
      logLevel := (value .logLevel).getD "info" }

end Progress

/-- Reads the arguments of the command. -/
def Arguments.parse (arguments : List String) : Except ArgumentError Arguments := do
  (← arguments.foldlM Progress.take {}).finish

end DotLayout.Command
