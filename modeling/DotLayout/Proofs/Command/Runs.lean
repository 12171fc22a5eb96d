import DotLayout.Proofs.Command.InPlace
import Mathlib.Logic.ExistsUnique

/-! # How a run of the command ends

    A run takes its settings from one file or from nowhere, reads and places a graph, and writes one
    file.  Each of these steps may fail, and the first one that does decides how the run ends.

    * `loadSettings_eq_iff` : where the settings come from, and what is wrong with them.
    * `overridden_iff` : what the arguments change about them.
    * `fails_or_succeeds`, `run_of_fails`, `run_of_succeeds` : a run fails in one of five ways or
      succeeds, and what it leaves behind in each case.
    * `run_contract` : so a run changes its output file when it succeeds, and nothing else. -/

namespace DotLayout.Command

open Data Dot Numeric

/-! ## Settings -/

/-- The file that the settings are taken from: the one that is asked for, or else the first of the
    local and the platform's file that is there.  If there is none, they are the defaults. -/
inductive TakenFrom (files : Files) (platformConfig : Option String) :
    Option String → Option String → Prop
  | asked (path : String) : TakenFrom files platformConfig (some path) (some path)
  | localFile (hlocal : files.state localConfig ≠ .absent) :
      TakenFrom files platformConfig none (some localConfig)
  | platformFile {path : String} (hlocal : files.state localConfig = .absent)
      (hplatform : platformConfig = some path) (hthere : files.state path ≠ .absent) :
      TakenFrom files platformConfig none (some path)
  | defaults (hlocal : files.state localConfig = .absent)
      (hplatform : ∀ path, platformConfig = some path → files.state path = .absent) :
      TakenFrom files platformConfig none none

/-- The settings in a file, or what is wrong with it.  Without a file there are the defaults. -/
inductive Holds (files : Files) : Option String → Except RunError Settings → Prop
  | defaults : Holds files none (.ok {})
  | missing {path : String} (h : files.state path = .absent) :
      Holds files (some path) (.error (.configMissing path))
  | unreadable {path : String} (hthere : files.state path ≠ .absent)
      (htext : (files.state path).text? = none) : Holds files (some path) (.error .io)
  | malformed {path text : String} (htext : (files.state path).text? = some text)
      (h : ∀ v, Toml.read? text = some v → Settings.ofValue? .toml v = none) :
      Holds files (some path) (.error .configMalformed)
  | settings {path text : String} {v : Value} {s : Settings}
      (htext : (files.state path).text? = some text) (hread : Toml.read? text = some v)
      (h : Settings.ofValue? .toml v = some s) : Holds files (some path) (.ok s)

/-- What a run finds where it takes its settings from. -/
def Found (files : Files) (platformConfig asked : Option String)
    (found : Except RunError Settings) : Prop :=
  ∃ path, TakenFrom files platformConfig asked path ∧ Holds files path found

/-- The arguments set the algorithm and the anchor, where they are given, and nothing else. -/
structure Overridden (arguments : Arguments) (loaded s : Settings) : Prop where
  algorithm : s.algorithm = arguments.layout.or loaded.algorithm
  anchor : s.params.anchor = arguments.anchor.or loaded.params.anchor
  params : { s.params with anchor := loaded.params.anchor } = loaded.params
  resolver : s.resolver = loaded.resolver

section

variable {files : Files} {platformConfig asked path : Option String} {arguments : Arguments}
  {loaded s : Settings} {found : Except RunError Settings}

theorem isThere_iff {state : FileState} : state.isThere = true ↔ state ≠ .absent := by
  cases state <;> simp [FileState.isThere]

theorem isThere_eq_false_iff {state : FileState} : state.isThere = false ↔ state = .absent := by
  cases state <;> simp [FileState.isThere]

/-- What a file holds is what is read from it. -/
theorem loadFile_of_holds {path : String} (h : Holds files (some path) found) :
    loadFile files path = found := by
  have there : ∀ {text}, (files.state path).text? = some text →
      (files.state path).isThere = true := by
    intro text htext
    rw [isThere_iff]
    intro habsent
    rw [habsent] at htext
    exact nomatch htext
  rw [loadFile]
  cases h with
  | missing h => rw [isThere_eq_false_iff.2 h]; rfl
  | unreadable hthere htext => rw [isThere_iff.2 hthere, htext]; rfl
  | malformed htext h =>
      have hnone : (Toml.read? _).bind (Settings.ofValue? .toml) = none :=
        Option.bind_eq_none_iff.2 h
      rw [there htext, htext]
      dsimp only
      rw [hnone]
      rfl
  | settings htext hread h =>
      rw [there htext, htext]
      dsimp only
      rw [hread, Option.bind_some, h]
      rfl

theorem exists_holds (files : Files) (path : Option String) : ∃ found, Holds files path found := by
  cases path with
  | none => exact ⟨_, .defaults⟩
  | some path =>
      by_cases habsent : files.state path = .absent
      · exact ⟨_, .missing habsent⟩
      cases htext : (files.state path).text? with
      | none => exact ⟨_, .unreadable habsent htext⟩
      | some text =>
          cases hfound : (Toml.read? text).bind (Settings.ofValue? .toml) with
          | none => exact ⟨_, .malformed htext (Option.bind_eq_none_iff.1 hfound)⟩
          | some s =>
              obtain ⟨v, hread, hs⟩ := Option.bind_eq_some_iff.1 hfound
              exact ⟨_, .settings htext hread hs⟩

theorem exists_takenFrom (files : Files) (platformConfig asked : Option String) :
    ∃ path, TakenFrom files platformConfig asked path := by
  cases asked with
  | some path => exact ⟨_, .asked path⟩
  | none =>
      by_cases hlocal : files.state localConfig = .absent
      · cases platformConfig with
        | none => exact ⟨_, .defaults hlocal nofun⟩
        | some path =>
            by_cases hpath : files.state path = .absent
            · refine ⟨_, .defaults hlocal ?_⟩
              rintro other ⟨⟩
              exact hpath
            · exact ⟨_, .platformFile hlocal rfl hpath⟩
      · exact ⟨_, .localFile hlocal⟩

/-- Settings are taken from one place only. -/
theorem takenFrom_unique {other : Option String} (h : TakenFrom files platformConfig asked path)
    (h' : TakenFrom files platformConfig asked other) : other = path := by
  cases h with
  | asked path =>
      cases h'
      rfl
  | localFile hlocal =>
      cases h' with
      | localFile => rfl
      | platformFile habsent => exact absurd habsent hlocal
      | defaults habsent => exact absurd habsent hlocal
  | platformFile hlocal hplatform hthere =>
      cases h' with
      | localFile hother => exact absurd hlocal hother
      | platformFile _ hother => exact hother.symm.trans hplatform
      | defaults _ habsent => exact absurd (habsent _ hplatform) hthere
  | defaults hlocal hplatform =>
      cases h' with
      | localFile hother => exact absurd hlocal hother
      | platformFile _ hother hthere => exact absurd (hplatform _ hother) hthere
      | defaults => rfl

/-- Settings are read from the file that they are taken from. -/
theorem loadSettings_of_takenFrom (h : TakenFrom files platformConfig asked path)
    (hfound : Holds files path found) : loadSettings files platformConfig asked = found := by
  cases h with
  | asked path => exact loadFile_of_holds hfound
  | localFile hlocal =>
      rw [loadSettings, List.singleton_append, List.find?_cons, isThere_iff.2 hlocal]
      exact loadFile_of_holds hfound
  | platformFile hlocal hplatform hthere =>
      rw [loadSettings, List.singleton_append, List.find?_cons, isThere_eq_false_iff.2 hlocal,
        hplatform, Option.toList_some, List.find?_singleton, isThere_iff.2 hthere]
      exact loadFile_of_holds hfound
  | defaults hlocal hplatform =>
      have hnone : platformConfig.toList.find? (fun path => (files.state path).isThere) = none := by
        rw [List.find?_eq_none]
        intro path hpath hthere
        exact isThere_iff.1 hthere (hplatform path (Option.mem_toList.1 hpath))
      cases hfound
      rw [loadSettings, List.singleton_append, List.find?_cons, isThere_eq_false_iff.2 hlocal]
      dsimp only
      rw [hnone]

/-- The settings of a run are those that it finds. -/
theorem loadSettings_eq_iff :
    loadSettings files platformConfig asked = found ↔ Found files platformConfig asked found := by
  constructor
  · rintro rfl
    obtain ⟨path, hpath⟩ := exists_takenFrom files platformConfig asked
    obtain ⟨found, hfound⟩ := exists_holds files path
    rw [loadSettings_of_takenFrom hpath hfound]
    exact ⟨path, hpath, hfound⟩
  · rintro ⟨path, hpath, hfound⟩
    exact loadSettings_of_takenFrom hpath hfound

theorem overridden_iff :
    Overridden arguments loaded s ↔ s = loaded.override arguments.layout arguments.anchor := by
  constructor
  · rintro ⟨halgorithm, hanchor, hparams, hresolver⟩
    have hother : s.params = { loaded.params with anchor := s.params.anchor } :=
      congrArg (fun params : Layout.Params => { params with anchor := s.params.anchor }) hparams
    rw [Settings.override, ← halgorithm, ← hanchor, ← hother, ← hresolver]
  · rintro rfl
    exact ⟨rfl, rfl, rfl, rfl⟩

end

/-! ## The whole run -/

/-- The settings that a run works with. -/
def WorksWith (files : Files) (platformConfig : Option String) (arguments : Arguments)
    (s : Settings) : Prop :=
  ∃ loaded, Found files platformConfig arguments.config (.ok loaded) ∧ Overridden arguments loaded s

/-- The result of reading, placing and rendering the graph of the input file. -/
def Makes (files : Files) (arguments : Arguments) (s : Settings) (product : Product) : Prop :=
  ∃ source p algorithm placed, (files.state arguments.input).text? = some source ∧
    parse source = .ok p ∧ s.layOut p.graph = .ok (algorithm, placed) ∧
    product = ⟨s.render placed, p.warnings⟩

/-- The ways in which a run fails, in the order in which they are met. -/
inductive Fails (files : Files) (platformConfig : Option String) (arguments : Arguments) :
    RunError → Prop
  | settings {e : RunError} (h : Found files platformConfig arguments.config (.error e)) :
      Fails files platformConfig arguments e
  | input {s : Settings} (hs : WorksWith files platformConfig arguments s)
      (h : (files.state arguments.input).text? = none) : Fails files platformConfig arguments .io
  | parse {s : Settings} {source : String} {e : ParseError}
      (hs : WorksWith files platformConfig arguments s)
      (hsource : (files.state arguments.input).text? = some source) (h : parse source = .error e) :
      Fails files platformConfig arguments (.parse e source)
  | layout {s : Settings} {source : String} {p : Parsed} {fault : ClampFault}
      (hs : WorksWith files platformConfig arguments s)
      (hsource : (files.state arguments.input).text? = some source) (hparse : parse source = .ok p)
      (h : s.layOut p.graph = .error fault) : Fails files platformConfig arguments (.noRoom fault)
  | output {s : Settings} {product : Product} (hs : WorksWith files platformConfig arguments s)
      (hproduct : Makes files arguments s product) (h : files.canWrite arguments.output = false) :
      Fails files platformConfig arguments .io

/-- A run makes something that can be written. -/
def Succeeds (files : Files) (platformConfig : Option String) (arguments : Arguments)
    (product : Product) : Prop :=
  ∃ s, WorksWith files platformConfig arguments s ∧ Makes files arguments s product ∧
    files.canWrite arguments.output = true

/-- One file holds a text, and everything else is as it was. -/
structure Written (files after : Files) (path text : String) : Prop where
  output : after.state path = .bytes text.toUTF8
  others : ∀ other, other ≠ path → after.state other = files.state other
  canWrite : after.canWrite = files.canWrite

section

variable {files after : Files} {platformConfig : Option String} {arguments : Arguments}
  {s : Settings} {product : Product} {e : RunError}

theorem written_iff {path text : String} :
    Written files after path text ↔ after = files.write path text := by
  constructor
  · rintro ⟨houtput, hothers, hcanWrite⟩
    obtain ⟨state, canWrite⟩ := after
    obtain rfl : canWrite = files.canWrite := hcanWrite
    refine congrArg (Files.mk · files.canWrite) (funext fun other => ?_)
    by_cases hpath : other = path
    · rw [if_pos hpath, hpath]
      exact houtput
    · rw [if_neg hpath]
      exact hothers other hpath
  · rintro rfl
    exact ⟨if_pos rfl, fun _ hpath => if_neg hpath, rfl⟩

/-- What a run makes comes from the settings that it works with. -/
theorem produce_of_worksWith (h : WorksWith files platformConfig arguments s) :
    produce files platformConfig arguments = (do
      let source ← match (files.state arguments.input).text? with
        | some source => .ok source
        | none => .error .io
      let parsed ← (parse source).mapError (.parse · source)
      let (_, graph) ← (s.layOut parsed.graph).mapError .noRoom
      return ⟨s.render graph, parsed.warnings⟩) := by
  obtain ⟨loaded, hfound, hoverridden⟩ := h
  rw [produce, loadSettings_eq_iff.2 hfound, overridden_iff.1 hoverridden]
  rfl

theorem produce_of_parse {source : String} {p : Parsed}
    (hs : WorksWith files platformConfig arguments s)
    (hsource : (files.state arguments.input).text? = some source) (hparse : parse source = .ok p) :
    produce files platformConfig arguments
      = (s.layOut p.graph).mapError .noRoom >>= fun placed =>
          .ok ⟨s.render placed.2, p.warnings⟩ := by
  rw [produce_of_worksWith hs, hsource]
  show (parse source).mapError _ >>= _ = _
  rw [hparse]
  rfl

theorem produce_of_makes (hs : WorksWith files platformConfig arguments s)
    (h : Makes files arguments s product) :
    produce files platformConfig arguments = .ok product := by
  obtain ⟨source, p, algorithm, placed, hsource, hparse, hlayout, rfl⟩ := h
  rw [produce_of_parse hs hsource hparse, hlayout]
  rfl

theorem run_of_produce_eq_error (h : produce files platformConfig arguments = .error e) :
    run files platformConfig arguments = (files, .error e) := by
  rw [run, h]

/-- A run that fails leaves the files as they are. -/
theorem run_of_fails (h : Fails files platformConfig arguments e) :
    run files platformConfig arguments = (files, .error e) := by
  cases h with
  | settings h =>
      refine run_of_produce_eq_error ?_
      rw [produce, loadSettings_eq_iff.2 h]
      rfl
  | input hs h =>
      refine run_of_produce_eq_error ?_
      rw [produce_of_worksWith hs, h]
      rfl
  | @parse s source e hs hsource h =>
      refine run_of_produce_eq_error ?_
      rw [produce_of_worksWith hs, hsource]
      show (Dot.parse source).mapError _ >>= _ = _
      rw [h]
      rfl
  | layout hs hsource hparse h =>
      refine run_of_produce_eq_error ?_
      rw [produce_of_parse hs hsource hparse, h]
      rfl
  | output hs hproduct h =>
      rw [run, produce_of_makes hs hproduct]
      dsimp only
      rw [h]
      rfl

/-- A run that succeeds writes what it made. -/
theorem run_of_succeeds (h : Succeeds files platformConfig arguments product) :
    run files platformConfig arguments
      = (files.write arguments.output product.text, .ok product.warnings) := by
  obtain ⟨s, hs, hproduct, hcanWrite⟩ := h
  rw [run, produce_of_makes hs hproduct]
  exact if_pos hcanWrite

/-- A run fails in one of the five ways, or it succeeds. -/
theorem fails_or_succeeds (files : Files) (platformConfig : Option String) (arguments : Arguments) :
    (∃ e, Fails files platformConfig arguments e) ∨
      ∃ product, Succeeds files platformConfig arguments product := by
  cases hfound : loadSettings files platformConfig arguments.config with
  | error e => exact .inl ⟨e, .settings (loadSettings_eq_iff.1 hfound)⟩
  | ok loaded =>
      have hs : WorksWith files platformConfig arguments
          (loaded.override arguments.layout arguments.anchor) :=
        ⟨loaded, loadSettings_eq_iff.1 hfound, overridden_iff.2 rfl⟩
      cases hsource : (files.state arguments.input).text? with
      | none => exact .inl ⟨_, .input hs hsource⟩
      | some source =>
          cases hparse : parse source with
          | error e => exact .inl ⟨_, .parse hs hsource hparse⟩
          | ok p =>
              cases hlayout : Settings.layOut _ p.graph with
              | error fault => exact .inl ⟨_, .layout hs hsource hparse hlayout⟩
              | ok placed =>
                  have hproduct : Makes files arguments _ _ :=
                    ⟨source, p, placed.1, placed.2, hsource, hparse, hlayout, rfl⟩
                  cases hcanWrite : files.canWrite arguments.output with
                  | false => exact .inl ⟨_, .output hs hproduct hcanWrite⟩
                  | true => exact .inr ⟨_, _, hs, hproduct, hcanWrite⟩

end

/-- **What a run of the command leaves behind.**  A run takes its settings from the file that is
    asked for, or else from the first of the local and the platform's file that is there, or else it
    has the defaults.  If that file is missing or wrong, the run ends with that error, whatever its
    input is.  A run that ends with an error leaves all files as they are.  A run succeeds if its
    settings, as the arguments change them, are found, its input is read and placed, and its output
    can be written.  Then the output file holds the text of the placed graph, and no other file has
    changed. -/
theorem run_contract (files : Files) (platformConfig : Option String) (arguments : Arguments) :
    (∃! path, TakenFrom files platformConfig arguments.config path) ∧
    (∃! found, Found files platformConfig arguments.config found) ∧
    (∀ e, Found files platformConfig arguments.config (.error e) → ∀ input,
      (InPlace.run platformConfig { arguments with input := input }).run files
        = .error e files) ∧
    (∀ e after, (InPlace.run platformConfig arguments).run files = .error e after ↔
      after = files ∧ Fails files platformConfig arguments e) ∧
    ∀ warnings after, (InPlace.run platformConfig arguments).run files = .ok warnings after ↔
      ∃ product, Succeeds files platformConfig arguments product ∧ warnings = product.warnings ∧
        Written files after arguments.output product.text := by
  -- Every run fails or succeeds, and its end is the one these two name; so both directions follow.
  have hfails : ∀ {arguments e}, Fails files platformConfig arguments e →
      (InPlace.run platformConfig arguments).run files = .error e files := by
    intro arguments e h
    rw [InPlace.run_eq, run_of_fails h]
    rfl
  have hsucceeds : ∀ {product}, Succeeds files platformConfig arguments product →
      (InPlace.run platformConfig arguments).run files
        = .ok product.warnings (files.write arguments.output product.text) := by
    intro product h
    rw [InPlace.run_eq, run_of_succeeds h]
    rfl
  refine ⟨?_, ?_, ?_, ?_, ?_⟩
  · obtain ⟨path, hpath⟩ := exists_takenFrom files platformConfig arguments.config
    exact ⟨path, hpath, fun other hother => takenFrom_unique hpath hother⟩
  · exact ⟨_, loadSettings_eq_iff.1 rfl, fun found h => (loadSettings_eq_iff.2 h).symm⟩
  · intro e h input
    exact hfails (.settings h)
  · intro e after
    constructor
    · intro hrun
      rcases fails_or_succeeds files platformConfig arguments with ⟨e', h⟩ | ⟨product, h⟩
      · rw [hfails h] at hrun
        obtain ⟨rfl, rfl⟩ := EStateM.Result.error.inj hrun
        exact ⟨rfl, h⟩
      · exact nomatch (hsucceeds h).symm.trans hrun
    · rintro ⟨rfl, h⟩
      exact hfails h
  · intro warnings after
    constructor
    · intro hrun
      rcases fails_or_succeeds files platformConfig arguments with ⟨e', h⟩ | ⟨product, h⟩
      · exact nomatch (hfails h).symm.trans hrun
      · rw [hsucceeds h] at hrun
        obtain ⟨rfl, rfl⟩ := EStateM.Result.ok.inj hrun
        exact ⟨product, h, rfl, written_iff.2 rfl⟩
    · rintro ⟨product, h, rfl, hwritten⟩
      rw [hsucceeds h, written_iff.1 hwritten]

/-- A broken local file ends a run, although the platform's file is fine and there is no input. -/
example : let files : Files := ⟨fun path =>
      if path = localConfig then .bytes "[layout".toUTF8
      else if path = "platform.toml" then .bytes "".toUTF8 else .absent, fun _ => true⟩
    Found files (some "platform.toml") none (.error .configMalformed) := by
  intro files
  refine ⟨some localConfig, .localFile ?_, @Holds.malformed files localConfig "[layout" ?_ ?_⟩
  · exact nofun
  · decide +kernel
  · decide +kernel

end DotLayout.Command
