import DotLayout.Dot.Chunk
import DotLayout.Dot.Comment
import DotLayout.Dot.Header
import DotLayout.Dot.Statement

/-! # Documents

    `parse` reads a graph description.  It keeps every node and edge that it can recognize, skips
    what it cannot, and reports each skipped fragment.  Only two texts are refused: one with
    nothing but blanks and comments, and one with neither a header nor a recognized statement.

    A text without a header is read as a body.  Its graph is directed if the text mentions
    `digraph` or if its first edge operator is `->`. -/

namespace DotLayout.Dot

open Text

/-- Why a text is no graph description. -/
inductive ParseError where
  /-- A text of so many bytes has nothing but blanks and comments. -/
  | empty (length : Nat)
  /-- A text of so many bytes has neither a header nor a statement; what it has was skipped. -/
  | unreadable (skipped : List Finding) (length : Nat)
  deriving Repr, DecidableEq

/-- What is reported about a refused text: what was skipped, and last the reason. -/
def ParseError.findings : ParseError → List Finding
  | .empty length => [.emptyInput length]
  | .unreadable skipped length => skipped ++ [.unreadable length]

/-- The words for what is reported about a refused text. -/
def ParseError.diagnostics (e : ParseError) : List Diagnostic := e.findings.map Finding.diagnostic

def ParseError.message (e : ParseError) : String := Diagnostic.summaryOf e.diagnostics

/-- A graph and what was skipped on the way to it. -/
structure Parsed where
  graph : Graph
  findings : List Finding

def Parsed.warnings (p : Parsed) : List Diagnostic := p.findings.map Finding.diagnostic

/-- The parts of a description. -/
structure Document where
  header : Option Header
  /-- The tokens of each chunk of the body. -/
  tokens : List (List Token)
  directed : Bool
  statements : List Statement

/-- The operator of an edge operator token. -/
def Token.op? : Token → Option EdgeOp
  | .link l => some l.op
  | _ => none

/-- The part of a text that holds statements. -/
def bodyOf (text : List Char) : Option Header → Excerpt
  | some header => header.body
  | none => ⟨0, text⟩

/-- Whether the graph of a text is directed, given its header and its tokens. -/
def isDirected (text : List Char) (header : Option Header) (ts : List Token) : Bool :=
  match header with
  | some header => header.directed
  | none => mentionsDigraph false text || ts.findSome? Token.op? == some .directed

/-- The document of a text whose header and tokens are known. -/
def Document.ofTokens (text : List Char) (header : Option Header) (chunked : List (List Token)) :
    Document where
  header := header
  tokens := chunked
  directed := isDirected text header chunked.flatten
  statements := chunked.flatMap Dot.statements

def Document.ofText (text : List Char) : Document :=
  let header := readHeader? text
  .ofTokens text header ((chunks (bodyOf text header)).map Dot.tokens)

namespace Document

/-- What is to be reported about the end of the body. -/
def unclosed (d : Document) (length : Nat) : List Finding :=
  match d.header with
  | some header => if header.closed then [] else [.unclosedBody length header.opening.span]
  | none => []

/-- What is to be reported about a description of so many bytes. -/
def findings (d : Document) (length : Nat) : List Finding :=
  d.unclosed length ++ d.statements.flatMap (·.findings d.directed)

/-- The attributes of the graph: the last value of each key. -/
def attributes (d : Document) : OrderedMap String :=
  .ofList ((d.statements.flatMap Statement.settings).map fun p => (p.key, p.value))

/-- The kind of the edges that ask for none. -/
def edgeKind (d : Document) : EdgeKind :=
  ((d.attributes.get? "splines").bind EdgeKind.ofName?).getD .curved

/-- The graph that a description stands for. -/
def graph (d : Document) : Graph :=
  let start : Graph :=
    { Graph.empty d.directed (d.header.bind Header.name) with attributes := d.attributes }
  d.statements.foldl (Statement.addTo d.edgeKind) start

/-- What a description of so many bytes is read as, unless there is nothing to read in it. -/
def verdict (d : Document) (length : Nat) : Except ParseError Parsed :=
  let findings := d.findings length
  if d.header.isNone && !d.statements.any Statement.recognized then
    .error (.unreadable findings length)
  else
    .ok ⟨d.graph, findings⟩

end Document

/-- Reads a graph description. -/
def parse (source : String) : Except ParseError Parsed :=
  let text := stripComments source.toList
  let length := byteLength source.toList
  if (trim text).isEmpty then .error (.empty length) else (Document.ofText text).verdict length

/-- What a text that is not refused is read as. -/
theorem eq_of_parse {source : String} {p : Parsed} (h : parse source = .ok p) :
    p = ⟨(Document.ofText (stripComments source.toList)).graph,
      (Document.ofText (stripComments source.toList)).findings (byteLength source.toList)⟩ := by
  simp only [parse, Document.verdict] at h
  split at h
  · exact nomatch h
  split at h
  · exact nomatch h
  · exact (Except.ok.inj h).symm

/-- A text is not refused if something holds of what it is read as. -/
theorem exists_parsed {α : Type} {source : String} {f : Parsed → α} {a : α}
    (h : (parse source).toOption.map f = some a) : ∃ p, parse source = .ok p ∧ f p = a := by
  cases hparse : parse source with
  | error e =>
      rw [hparse] at h
      exact nomatch h
  | ok p =>
      rw [hparse] at h
      exact ⟨p, rfl, Option.some.inj h⟩

end DotLayout.Dot
