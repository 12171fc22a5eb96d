import DotLayout.Command.Run

/-! # Runs of the command that change files in place

    `run` gives back the files as they are after a run.  A run as it happens looks at the files of
    the machine one by one, and only its last step changes one of them; wherever it stops, the files
    stay as they are then.

    * `run_bind_of_ok`, `run_bind_of_error` : a program goes on from what its first step leaves.
    * `run_loadFile`, `run_loadSettings` : settings are read without a change to the files.
    * `run_eq` : the files that are left and the outcome are those of `run`. -/

namespace DotLayout.Command.InPlace

open Data Dot

/-- A program that works on the files of a machine.  What it changed before it stops stays
    changed. -/
abbrev Act := EStateM RunError Files

/-- Whether there is a file at a path. -/
def isThere (path : String) : Act Bool := return ((← get).state path).isThere

/-- Reads the text of a file. -/
def readText (path : String) : Act String := do
  match ((← get).state path).text? with
  | some text => return text
  | none => throw .io

/-- Writes a text to a file, over what it held before. -/
def writeText (path text : String) : Act Unit := do
  if (← get).canWrite path then modify (·.write path text) else throw .io

/-- Reads the settings in a file that must be there. -/
def loadFile (path : String) : Act Settings := do
  if !(← isThere path) then throw (.configMissing path)
  let text ← readText path
  match (Toml.read? text).bind (Settings.ofValue? .toml) with
  | some settings => return settings
  | none => throw .configMalformed

/-- Reads the settings of the platform, if it has a place for them and they are there. -/
def loadPlatform : Option String → Act Settings
  | none => return {}
  | some path => do
    if ← isThere path then loadFile path else return {}

/-- Reads the settings in the file that is asked for, or else looks for a file with settings. -/
def loadSettings (platformConfig : Option String) : Option String → Act Settings
  | some path => loadFile path
  | none => do
    if ← isThere localConfig then loadFile localConfig else loadPlatform platformConfig

/-- Runs the command.  The answer is what was skipped. -/
def run (platformConfig : Option String) (arguments : Arguments) : Act (List Diagnostic) := do
  let loaded ← loadSettings platformConfig arguments.config
  let settings := loaded.override arguments.layout arguments.anchor
  let source ← readText arguments.input
  match parse source with
  | .error e => throw (.parse e source)
  | .ok parsed =>
    match settings.layOut parsed.graph with
    | .error fault => throw (.noRoom fault)
    | .ok (_, graph) =>
      writeText arguments.output (settings.render graph)
      return parsed.warnings

/-- Files and an outcome as a program leaves them. -/
def left {α : Type} : Files × Except RunError α → EStateM.Result RunError Files α
  | (files, .ok a) => .ok a files
  | (files, .error e) => .error e files

section

variable {α β : Type} {files after : Files} {path text : String} {x : Act α}

/-- What follows an action that succeeds goes on with its value and its files. -/
theorem run_bind_of_ok {a : α} (h : x.run files = .ok a after) (f : α → Act β) :
    (x >>= f).run files = (f a).run after := by
  rw [EStateM.run_bind, h]

/-- Nothing follows an action that fails. -/
theorem run_bind_of_error {e : RunError} (h : x.run files = .error e after) (f : α → Act β) :
    (x >>= f).run files = .error e after := by
  rw [EStateM.run_bind, h]

/-! ## Reading -/

theorem run_isThere (files : Files) (path : String) :
    (isThere path).run files = .ok (files.state path).isThere files := rfl

/-- A file that holds a text can be read, and no file changes. -/
theorem run_readText_of_some (h : (files.state path).text? = some text) :
    (readText path).run files = .ok text files := by
  rw [readText, EStateM.run_bind, EStateM.run_get]
  dsimp only
  rw [h]
  rfl

/-- A file that holds no text cannot be read, and no file changes. -/
theorem run_readText_of_none (h : (files.state path).text? = none) :
    (readText path).run files = .error .io files := by
  rw [readText, EStateM.run_bind, EStateM.run_get]
  dsimp only
  rw [h]
  rfl

/-- Settings are read without a change to the files. -/
theorem run_loadFile (files : Files) (path : String) :
    (loadFile path).run files = left (files, Command.loadFile files path) := by
  rw [loadFile, run_bind_of_ok (run_isThere files path), Command.loadFile]
  cases (files.state path).isThere with
  | false => rfl
  | true =>
      show (readText path >>= _).run files = _
      cases htext : (files.state path).text? with
      | none => exact run_bind_of_error (run_readText_of_none htext) _
      | some text =>
          rw [run_bind_of_ok (run_readText_of_some htext)]
          dsimp only
          cases (Toml.read? text).bind (Settings.ofValue? .toml) <;> rfl

/-- The settings of the platform are taken from its file if there is one, and no file changes. -/
theorem run_loadPlatform (files : Files) (platformConfig : Option String) :
    (loadPlatform platformConfig).run files = left (files,
      match platformConfig.toList.find? fun path => (files.state path).isThere with
      | some path => Command.loadFile files path
      | none => .ok {}) := by
  cases platformConfig with
  | none => rfl
  | some path =>
      rw [loadPlatform, run_bind_of_ok (run_isThere files path), Option.toList_some,
        List.find?_singleton]
      cases (files.state path).isThere with
      | true => exact run_loadFile files path
      | false => rfl

/-- Settings are found as over files that are only looked at. -/
theorem run_loadSettings (files : Files) (platformConfig asked : Option String) :
    (loadSettings platformConfig asked).run files
      = left (files, Command.loadSettings files platformConfig asked) := by
  cases asked with
  | some path => exact run_loadFile files path
  | none =>
      rw [loadSettings, run_bind_of_ok (run_isThere files localConfig), Command.loadSettings,
        List.singleton_append, List.find?_cons]
      cases (files.state localConfig).isThere with
      | true => exact run_loadFile files localConfig
      | false => exact run_loadPlatform files platformConfig

/-! ## The whole run -/

/-- A text is written, or no file changes. -/
theorem run_writeText (files : Files) (path text : String) :
    (writeText path text).run files
      = if files.canWrite path then .ok () (files.write path text) else .error .io files := by
  rw [writeText, EStateM.run_bind, EStateM.run_get]
  dsimp only
  cases files.canWrite path <;> rfl

theorem ok_bind (a : α) (f : α → Except RunError β) : (Except.ok a >>= f) = f a := rfl

theorem mapError_ok {ε : Type} (a : α) (f : ε → RunError) :
    (Except.ok a : Except ε α).mapError f = .ok a := rfl

/-- A run leaves the files and the outcome that `Command.run` says. -/
theorem run_eq (files : Files) (platformConfig : Option String) (arguments : Arguments) :
    (run platformConfig arguments).run files
      = left (Command.run files platformConfig arguments) := by
  have hload := run_loadSettings files platformConfig arguments.config
  rw [run, Command.run, produce]
  cases hsettings : Command.loadSettings files platformConfig arguments.config with
  | error e =>
      rw [hsettings] at hload
      exact run_bind_of_error hload _
  | ok loaded =>
      rw [hsettings] at hload
      rw [run_bind_of_ok hload, ok_bind]
      dsimp only
      generalize loaded.override arguments.layout arguments.anchor = settings
      cases hsource : (files.state arguments.input).text? with
      | none => exact run_bind_of_error (run_readText_of_none hsource) _
      | some source =>
          rw [run_bind_of_ok (run_readText_of_some hsource)]
          dsimp only
          rw [ok_bind]
          cases parse source with
          | error e => rfl
          | ok parsed =>
              rw [mapError_ok, ok_bind]
              dsimp only
              cases settings.layOut parsed.graph with
              | error fault => rfl
              | ok placed =>
                  rw [mapError_ok, ok_bind]
                  dsimp only
                  rw [EStateM.run_bind, run_writeText]
                  cases files.canWrite arguments.output <;> rfl

end

end DotLayout.Command.InPlace
