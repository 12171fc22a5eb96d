import DotLayout.Dot.Diagnostic
import DotLayout.Dot.Token

/-! # Findings

    The ways in which a graph description can be wrong, each with what it is about.
    `Finding.diagnostic` gives the words. -/

namespace DotLayout.Dot

open Text

/-- Why a token does not belong to any statement. -/
inductive Misplacement where
  /-- `node`, `edge` or `graph` without an attribute list. -/
  | keywordAlone
  /-- `digraph` or `strict` inside a body. -/
  | headerKeyword
  /-- The name of a graph attribute without `=`. -/
  | settingAlone
  | bracketAlone
  | equalsAlone
  | strayCharacter
  deriving Repr, DecidableEq

/-- The words for a token that belongs to no statement. -/
def Misplacement.message : Misplacement → String
  | .keywordAlone => "keyword without an attribute list"
  | .headerKeyword => "keyword outside a graph header"
  | .settingAlone => "graph attribute without a value"
  | .bracketAlone => "attribute list without a node or edge"
  | .equalsAlone => "assignment without a key"
  | .strayCharacter => "not part of any statement"

/-- What can be wrong with a graph description. -/
inductive Finding where
  /-- A text of so many bytes has nothing but blanks and comments. -/
  | emptyInput (length : Nat)
  /-- A text of so many bytes has neither a header nor a statement. -/
  | unreadable (length : Nat)
  /-- A text of so many bytes has no closing brace after its header. -/
  | unclosedBody (length : Nat) (opening : Span)
  | misplaced (place : Excerpt) (why : Misplacement)
  | malformed (place : Excerpt)
  /-- `key =` without a value. -/
  | noValue (key : String) (span : Span)
  | noSource (link : Link)
  | noTarget (link : Link)
  | openBracket (bracket : Bracket)
  | openString (place : Excerpt)
  /-- An operator of the other kind of graph, in a graph that is directed or not. -/
  | mismatch (link : Link) (directed : Bool)
  deriving Repr, DecidableEq

/-- What to do about a text without a graph. -/
def startAdvice : String :=
  "start with `digraph G \x7b ... \x7d` or `graph G \x7b ... \x7d`"

/-- A diagnostic with one label, which is the primary one. -/
def Diagnostic.about (severity : Severity) (code : Code) (message : String) (span : Span)
    (label : String) : Diagnostic :=
  ⟨severity, some code, message, [⟨span, label, true⟩], none⟩

/-- Adds a piece of advice to a diagnostic. -/
def Diagnostic.advise (d : Diagnostic) (help : String) : Diagnostic := { d with help := some help }

/-- The words for a finding, with its code, its severity and the places it is about. -/
def Finding.diagnostic : Finding → Diagnostic
  | .emptyInput length =>
    (Diagnostic.about .error .emptyInput "input contains no graph" (.between 0 length)
      "nothing to parse").advise startAdvice
  | .unreadable length =>
    (Diagnostic.about .error .unreadableInput
      "no graph header or statement could be recognized" (.between 0 length)
      "unreadable input").advise startAdvice
  | .unclosedBody length opening =>
    let d := Diagnostic.about .warning .unclosedBody "graph body is never closed"
      (.between length length) "expected `\x7d`"
    { d with labels := d.labels ++ [⟨opening, "graph opened here", false⟩] }
  | .misplaced place why =>
    .about .warning .unexpectedToken ("skipped `" ++ trimmed place.text ++ "`") place.span why.message
  | .malformed place =>
    (Diagnostic.about .warning .malformedAttribute ("malformed attribute `" ++ place.text ++ "`")
      place.span "skipped").advise "attributes are written as key=value or key=\"value\""
  | .noValue key span =>
    .about .warning .malformedAttribute ("attribute `" ++ key ++ "` has no value") span "skipped"
  | .noSource link =>
    .about .warning .incompleteEdge ("edge operator `" ++ link.op.text ++ "` has no source")
      link.place.span "missing source node"
  | .noTarget link =>
    .about .warning .incompleteEdge ("edge operator `" ++ link.op.text ++ "` has no target")
      link.place.span "missing target node"
  | .openBracket bracket =>
    .about .warning .unterminated "attribute list is never closed" bracket.place.span "missing `]`"
  | .openString place =>
    .about .warning .unterminated "unterminated string" place.span "missing closing `\"`"
  | .mismatch link directed =>
    let graph := if directed then "a directed" else "an undirected"
    (Diagnostic.about .warning .operatorMismatch
      ("`" ++ link.op.text ++ "` used in " ++ graph ++ " graph") link.place.span
      "edge created anyway").advise ("use `" ++ (EdgeOp.ofGraph directed).text ++ "`")

end DotLayout.Dot
