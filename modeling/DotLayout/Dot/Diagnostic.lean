import DotLayout.Text.Excerpt

/-! # Diagnostics

    A diagnostic tells the author of a text what was wrong with it and where.  Codes starting with
    `E` say that nothing could be read, codes starting with `W` that a fragment was skipped. -/

namespace DotLayout.Dot

open Text

/-- How bad a finding is. -/
inductive Severity where
  | error
  | warning
  deriving Repr, DecidableEq

/-- The name of a severity. -/
def Severity.name : Severity → String
  | .error => "error"
  | .warning => "warning"

/-- The kinds of findings. -/
inductive Code where
  | emptyInput
  | unreadableInput
  | unexpectedToken
  | malformedAttribute
  | incompleteEdge
  | unterminated
  | operatorMismatch
  | unclosedBody
  deriving Repr, DecidableEq

namespace Code

/-- All codes, the errors first. -/
def all : List Code :=
  [.emptyInput, .unreadableInput, .unexpectedToken, .malformedAttribute, .incompleteEdge,
    .unterminated, .operatorMismatch, .unclosedBody]

/-- The number under which a kind of finding is known. -/
def name : Code → String
  | .emptyInput => "E100"
  | .unreadableInput => "E101"
  | .unexpectedToken => "W200"
  | .malformedAttribute => "W201"
  | .incompleteEdge => "W202"
  | .unterminated => "W203"
  | .operatorMismatch => "W204"
  | .unclosedBody => "W205"

/-- What a code means, in a few words. -/
def description : Code → String
  | .emptyInput => "empty input"
  | .unreadableInput => "unreadable input"
  | .unexpectedToken => "unexpected token"
  | .malformedAttribute => "malformed attribute"
  | .incompleteEdge => "incomplete edge"
  | .unterminated => "unterminated construct"
  | .operatorMismatch => "edge operator mismatch"
  | .unclosedBody => "unclosed graph body"

/-- The code with a name, if there is one. -/
def ofName? (name : String) : Option Code := all.find? fun code => code.name == name

end Code

/-- A remark about a range of a text. -/
structure Label where
  span : Span
  message : String
  primary : Bool
  deriving Repr, DecidableEq

/-- A finding with the ranges it is about and, perhaps, advice. -/
structure Diagnostic where
  severity : Severity
  code : Option Code
  message : String
  labels : List Label
  help : Option String
  deriving Repr, DecidableEq

namespace Diagnostic

/-- A diagnostic on one line. -/
def summary (d : Diagnostic) : String :=
  match d.code with
  | some code => d.severity.name ++ "[" ++ code.name ++ "]: " ++ d.message
  | none => d.severity.name ++ ": " ++ d.message

/-- The finding that stands for all of them: the first error, or else the first one. -/
def primary? (ds : List Diagnostic) : Option Diagnostic :=
  (ds.find? fun d => d.severity == .error).or ds.head?

/-- One line about several findings: the one that stands for them, and how many more there are. -/
def summaryOf (ds : List Diagnostic) : String :=
  match primary? ds with
  | none => ""
  | some d =>
    if 1 < ds.length then d.summary ++ " (+" ++ toString (ds.length - 1) ++ " more)" else d.summary

end Diagnostic

end DotLayout.Dot
