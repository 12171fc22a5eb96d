import DotLayout.Dot.Document
import DotLayout.Snapshot

/-! # Reports

    What a user is told when something goes wrong.  A `Failure` is whatever can end a run; each
    diagnostic of a refused text becomes a `Report` of its own, and any other failure a single
    one without a place in the text. -/

namespace DotLayout

open Dot Text

/-- Whatever can end a run. -/
inductive Failure where
  /-- A file could not be read or written. -/
  | io (message : String)
  /-- A text was refused. -/
  | parse (diagnostics : List Diagnostic) (source : String)
  | config (message : String)
  | layout (message : String)
  /-- A snapshot could not be delivered. -/
  | delivery (error : ExportError)

namespace Failure

def message : Failure → String
  | .io message => "I/O error: " ++ message
  | .parse diagnostics _ => Diagnostic.summaryOf diagnostics
  | .config message => "Configuration error: " ++ message
  | .layout message => "Layout error: " ++ message
  | .delivery error => "Export error: " ++ error.message

/-- The code of a failure that is not about a text. -/
def code? : Failure → Option String
  | .io _ => some "dotscape::io"
  | .parse .. => none
  | .config _ => some "dotscape::config"
  | .layout _ => some "dotscape::layout"
  | .delivery _ => some "dotscape::export"

end Failure

/-- A remark about a range of the reported text. -/
structure ReportLabel where
  offset : Nat
  length : Nat
  message : String
  primary : Bool
  deriving Repr, DecidableEq

/-- One thing that a user is told. -/
structure Report where
  message : String
  code : Option String
  /-- How bad it is, if it is about a text. -/
  severity : Option Severity
  help : Option String
  /-- The text that it is about. -/
  source : Option String
  labels : List ReportLabel
  deriving Repr, DecidableEq

namespace Report

/-- The report of a diagnostic about a text. -/
def ofDiagnostic (source : String) (d : Diagnostic) : Report where
  message := d.message
  code := d.code.map Code.name
  severity := some d.severity
  help := d.help
  source := some source
  labels := d.labels.map fun l => ⟨l.span.start, l.span.length, l.message, l.primary⟩

/-- The reports of diagnostics about a text. -/
def ofDiagnostics (ds : List Diagnostic) (source : String) : List Report :=
  ds.map (ofDiagnostic source)

def ofFailure (f : Failure) : List Report :=
  match f with
  | .parse diagnostics source => ofDiagnostics diagnostics source
  | _ => [⟨f.message, f.code?, none, none, none, []⟩]

end Report

end DotLayout
