import DotLayout.Proofs.Dot.OnePass
import DotLayout.Proofs.Dot.Scanning
import DotLayout.Proofs.Text.Boundary

/-! # Refused texts

    A text is refused if nothing is in it but blanks and comments, or if it has neither a header nor
    a statement that says something.  Whatever was skipped before, the reason is the one error
    among what is reported, and it comes last.

    * `parse_cases` : the three ways in which reading ends.
    * `endsIn_concat` : an error behind warnings is the last one, the only one and the one that
      stands for them.
    * `refused_iff` : which texts are refused, and what is reported about texts of either kind. -/

namespace DotLayout.Dot

open Text

/-- Whether a text has nothing but blanks. -/
def Blank (text : List Char) : Prop := ∀ c ∈ text, isBlank c = true

instance (text : List Char) : Decidable (Blank text) :=
  decidable_of_iff (text.all isBlank = true) List.all_eq_true

/-- A description without a header in which no statement says something about a graph. -/
structure Document.Silent (d : Document) : Prop where
  header : d.header = none
  statements : ∀ s ∈ d.statements, s.recognized = false

/-- Some diagnostics have one error.  It comes last, stands for all of them, and points at a whole
    source of so many bytes. -/
structure EndsIn (ds : List Diagnostic) (reason : Diagnostic) (length : Nat) : Prop where
  only : (ds.filter fun d => d.severity == .error) = [reason]
  last : ds.getLast? = some reason
  primary : Diagnostic.primary? ds = some reason
  whole : (reason.labels.map fun l => (l.span.start, l.span.stop)) = [(0, length)]

/-- A text is empty once it is trimmed exactly if it is blank. -/
theorem trim_isEmpty_iff (text : List Char) : (trim text).isEmpty = true ↔ Blank text := by
  rw [List.isEmpty_iff]
  constructor
  · exact forall_of_trimWhere_eq_nil
  · intro h
    rw [trim, trimWhere, List.dropWhile_eq_nil_iff.2 h]
    rfl

/-- A document is silent if it has no header and no statement that is recognized. -/
theorem silent_iff (d : Document) :
    (d.header.isNone && !d.statements.any Statement.recognized) = true ↔ d.Silent := by
  rw [Bool.and_eq_true, Option.isNone_iff_eq_none, Bool.not_eq_true', List.any_eq_false]
  constructor
  · rintro ⟨header, statements⟩
    exact ⟨header, fun s hs => Bool.eq_false_iff.2 (statements s hs)⟩
  · rintro ⟨header, statements⟩
    exact ⟨header, fun s hs => Bool.eq_false_iff.1 (statements s hs)⟩

/-- A text is blank, or it says nothing about a graph, or it is read. -/
theorem parse_cases (source : String) :
    let text := stripComments source.toList
    let length := byteLength source.toList
    let d := Document.ofText text
    (Blank text ∧ parse source = .error (.empty length)) ∨
    (¬ Blank text ∧ d.Silent ∧ parse source = .error (.unreadable (d.findings length) length)) ∨
    (¬ Blank text ∧ ¬ d.Silent ∧ parse source = .ok ⟨d.graph, d.findings length⟩) := by
  intro text length d
  rw [parse]
  by_cases blank : Blank text
  · exact .inl ⟨blank, if_pos ((trim_isEmpty_iff text).2 blank)⟩
  · have visible := mt (trim_isEmpty_iff text).1 blank
    by_cases silent : d.Silent
    · refine .inr (.inl ⟨blank, silent, (if_neg visible).trans ?_⟩)
      exact if_pos ((silent_iff d).2 silent)
    · refine .inr (.inr ⟨blank, silent, (if_neg visible).trans ?_⟩)
      exact if_neg (mt (silent_iff d).1 silent)

/-! ## What is reported -/

/-- Findings that are not fatal make no errors. -/
theorem errors_of_not_fatal {fs : List Finding} (h : ∀ f ∈ fs, f.fatal = false) :
    ((fs.map Finding.diagnostic).filter fun d => d.severity == .error) = [] := by
  rw [List.filter_eq_nil_iff]
  intro d hd
  obtain ⟨f, hf, rfl⟩ := List.mem_map.1 hd
  rw [error_diagnostic, h f hf]
  exact Bool.false_ne_true

/-- An error behind warnings is the only one, and it stands for them. -/
theorem endsIn_concat {fs : List Finding} (h : ∀ f ∈ fs, f.fatal = false) {reason : Finding}
    (hreason : reason.fatal = true) {length : Nat}
    (hwhole : (reason.diagnostic.labels.map fun l => (l.span.start, l.span.stop)) = [(0, length)]) :
    EndsIn ((fs ++ [reason]).map Finding.diagnostic) reason.diagnostic length := by
  have isError : (reason.diagnostic.severity == .error) = true :=
    (error_diagnostic reason).trans hreason
  have only : ((fs.map Finding.diagnostic ++ [reason.diagnostic]).filter
      fun d => d.severity == .error) = [reason.diagnostic] := by
    rw [List.filter_append, errors_of_not_fatal h, List.nil_append, List.filter_singleton, isError]
    rfl
  rw [List.map_append, List.map_singleton]
  refine ⟨only, List.getLast?_concat, ?_, hwhole⟩
  rw [Diagnostic.primary?, ← List.head?_filter, only]
  rfl

/-- The range of a whole source reaches from its first byte to its last one. -/
theorem whole_source (source : String) :
    (([Span.between 0 (byteLength source.toList)]).map fun s => (s.start, s.stop))
      = [(0, source.utf8ByteSize)] := by
  rw [byteLength_toList]
  exact congrArg (fun stop => [(0, stop)]) (Nat.max_zero _)

/-- **A text is refused for one of two reasons.**  It is refused just when nothing but blanks is
    left of it without its comments, or when it has neither a header nor a statement that says
    something.  What is reported then has one error, which comes last, stands for all that is
    reported and points at the whole source; its code says which of the two reasons it is.  What is
    reported about a text that is read are warnings.  A pass with a log that fails once an error was
    reported comes to the same. -/
theorem refused_iff (source : String) :
    let text := stripComments source.toList
    let d := Document.ofText text
    ((∃ e, parse source = .error e) ↔ Blank text ∨ d.Silent) ∧
    (∀ e, parse source = .error e → ∃ reason,
      EndsIn e.diagnostics reason source.utf8ByteSize ∧
      reason.code.map Code.name = some (if Blank text then "E100" else "E101")) ∧
    (∀ p, parse source = .ok p → ∀ w ∈ p.warnings,
      w.severity = .warning ∧ ∃ code, w.code = some code ∧ code.name ∈ warningNames) ∧
    readOnce source = inWords (parse source) := by
  intro text d
  rcases parse_cases source with ⟨blank, h⟩ | ⟨visible, silent, h⟩ | ⟨visible, loud, h⟩
  · -- the source is blank: the blank is the only finding
    refine ⟨⟨fun _ => .inl blank, fun _ => ⟨_, h⟩⟩, ?_, ?_, readOnce_eq source⟩
    · intro e he
      obtain rfl := Except.error.inj (h.symm.trans he)
      have nothing : ∀ f ∈ ([] : List Finding), f.fatal = false := fun _ hf => nomatch hf
      refine ⟨_, endsIn_concat nothing rfl (whole_source source), ?_⟩
      rw [if_pos blank]
      rfl
    · intro p hp
      exact nomatch h.symm.trans hp
  · -- something visible, but nothing that draws a node
    refine ⟨⟨fun _ => .inr silent, fun _ => ⟨_, h⟩⟩, ?_, ?_, readOnce_eq source⟩
    · intro e he
      obtain rfl := Except.error.inj (h.symm.trans he)
      refine ⟨_, endsIn_concat fatal_findings rfl (whole_source source), ?_⟩
      rw [if_neg visible]
      rfl
    · intro p hp
      exact nomatch h.symm.trans hp
  · -- a graph comes out, and every finding is a warning
    refine ⟨⟨?_, fun refused => ?_⟩, ?_, ?_, readOnce_eq source⟩
    · rintro ⟨e, he⟩
      exact nomatch h.symm.trans he
    · exact absurd refused (not_or.2 ⟨visible, loud⟩)
    · intro e he
      exact nomatch h.symm.trans he
    · intro p hp w hw
      obtain rfl := Except.ok.inj (h.symm.trans hp)
      obtain ⟨f, hf, rfl⟩ := List.mem_map.1 hw
      have warning := fatal_findings f hf
      refine ⟨?_, code_of_not_fatal warning⟩
      rw [severity_diagnostic, warning]
      rfl

/-- An operator, a sign and a list that belong to nothing are skipped before the text is refused. -/
theorem refused_iff_skipped :
    let source := "-> ; = [x] /* A */ ; node"
    ∃ e reason, parse source = .error e ∧ e.diagnostics.length = 5 ∧
      EndsIn e.diagnostics reason source.utf8ByteSize ∧
      reason.code.map Code.name = some "E101" := by
  intro source
  have count : ((parse source).mapError fun e => e.diagnostics.length).map (fun _ => ())
      = .error 5 := by
    decide +kernel
  have visible : ¬ Blank (stripComments source.toList) := by decide +kernel
  cases h : parse source with
  | ok p =>
      rw [h] at count
      exact nomatch count
  | error e =>
      rw [h] at count
      obtain ⟨reason, ends, code⟩ := (refused_iff source).2.1 e h
      rw [if_neg visible] at code
      exact ⟨e, reason, rfl, Except.error.inj count, ends, code⟩

end DotLayout.Dot
