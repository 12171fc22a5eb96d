import DotLayout.Data.Json
import DotLayout.Routing.Resolver

/-! # Snapshots

    A snapshot is a graph together with the way of each of its edges, written as JSON.  An edge
    whose ends are not both nodes has no way, which is written as `null`. -/

namespace DotLayout

open Data Routing

/-- A point, with its two coordinates. -/
def Point.toJson (p : Point) : Json := .object [("x", .number p.x), ("y", .number p.y)]

/-- A size, with its width and its height. -/
def Size.toJson (s : Size) : Json :=
  .object [("width", .number s.width), ("height", .number s.height)]

/-- Fields for the texts that are given; the others are left out. -/
def givenFields (fields : List (String × Option String)) : List (String × Json) :=
  fields.filterMap fun (key, value) => value.map fun s => (key, .string s)

/-- Texts under their keys, in order. -/
def textsToJson (m : OrderedMap String) : Json :=
  .object (m.entries.map fun (key, value) => (key, .string value))

/-- A field for texts under names, left out when there are none. -/
def textsField (key : String) (m : OrderedMap String) : List (String × Json) :=
  if m.isEmpty then [] else [(key, textsToJson m)]

/-- The look of a node; what is not set is left out. -/
def NodeStyle.toJson (s : NodeStyle) : Json :=
  .object (givenFields [("stroke", s.stroke), ("background", s.background), ("style", s.style),
    ("shape", s.shape)] ++ textsField "extra" s.extra)

/-- A node, with all of its fields. -/
def Node.toJson (n : Node) : Json :=
  .object [("id", .string n.id), ("label", .string n.label), ("size", n.size.toJson),
    ("position", n.position.toJson), ("style", n.style.toJson)]

/-- The attributes of an edge; what is not set is left out. -/
def EdgeAttributes.toJson (a : EdgeAttributes) : Json :=
  .object (givenFields [("label", a.label), ("stroke", a.stroke), ("style", a.style)]
    ++ textsField "extra" a.extra)

/-- An edge, with all of its fields. -/
def Edge.toJson (e : Edge) : Json :=
  .object [("id", .string e.id), ("source", .string e.source), ("target", .string e.target),
    ("attributes", e.attributes.toJson), ("render_kind", .string e.kind.name)]

/-- A graph, with its nodes under their ids and its edges in order. -/
def Graph.toJson (g : Graph) : Json :=
  .object (givenFields [("name", g.name)]
    ++ [("directed", .boolean g.directed),
      ("nodes", .object (g.nodes.map fun n => (n.id, n.toJson))),
      ("edges", .array (g.edges.map Edge.toJson))]
    ++ textsField "attributes" g.attributes)

namespace Routing

/-- One end of the way of an edge. -/
def Anchor.toJson (a : Anchor) : Json :=
  .object [("side", .string a.side.name), ("point", a.point.toJson)]

/-- The way of an edge, with the kind of path that it takes. -/
def EdgePath.toJson : EdgePath → Json
  | .cubic start control₁ control₂ stop =>
    .object [("kind", .string "cubic"), ("start", start.toJson), ("control1", control₁.toJson),
      ("control2", control₂.toJson), ("end", stop.toJson)]
  | .elbow points =>
    .object [("kind", .string "elbow"), ("points", .array (points.map Point.toJson))]

/-- The way of an edge with both of its ends. -/
def EdgeGeometry.toJson (w : EdgeGeometry) : Json :=
  .object [("source_anchor", w.source.toJson), ("target_anchor", w.target.toJson),
    ("path", w.path.toJson)]

end Routing

/-- An edge and its way. -/
structure EdgeSnapshot where
  id : String
  geometry : Option EdgeGeometry
  svgPath : Option String

/-- A graph and the ways of its edges. -/
structure Snapshot where
  graph : Graph
  edges : List EdgeSnapshot

namespace Snapshot

/-- An edge with its way, which is found from the places of its ends. -/
def ofEdge (g : Graph) (r : Resolver) (e : Edge) : EdgeSnapshot :=
  let geometry := r.resolveEdge g e
  ⟨e.id, geometry, geometry.map fun w => w.path.svg⟩

/-- Resolves the ways of all edges of a graph. -/
def capture (g : Graph) (r : Resolver) : Snapshot := ⟨g, g.edges.map (ofEdge g r)⟩

/-- A snapshot: the graph, and an entry for each of its edges. -/
def toJson (s : Snapshot) : Json :=
  .object [
    ("graph", s.graph.toJson),
    ("edges", .array (s.edges.map fun e =>
      .object [("id", .string e.id), ("geometry", (e.geometry.map EdgeGeometry.toJson).getD .null),
        ("svg_path", .ofOption e.svgPath)]))]

/-- The text of a snapshot, on one line or with indentation. -/
def text (s : Snapshot) (pretty : Bool) : String :=
  if pretty then s.toJson.pretty else s.toJson.compact

end Snapshot

/-- Why a snapshot could not be delivered. -/
inductive ExportError where
  /-- It could not be drawn. -/
  | render (message : String)
  /-- Its text could not be written. -/
  | write (cause : String)
  /-- What was written could not be completed. -/
  | flush (cause : String)
  deriving Repr, DecidableEq

namespace ExportError

/-- The words for a failed export. -/
def message : ExportError → String
  | .render message => "Render error: " ++ message
  | .write cause => "JSON error: " ++ cause
  | .flush cause => "I/O error: " ++ cause

/-- What a failed export was caused by, if anything but the rendering failed. -/
def cause? : ExportError → Option String
  | .render _ => none
  | .write cause | .flush cause => some cause

end ExportError

/-- Something that texts are written to: it takes so many bytes, and may fail to complete them. -/
structure Sink where
  room : Option Nat := none
  completes : Bool := true

/-- Writes a text; what was written is the answer. -/
def Sink.write (sink : Sink) (text : String) : Except ExportError String :=
  if sink.room.any (· < text.utf8ByteSize) then .error (.write "disk full")
  else if sink.completes then .ok text
  else .error (.flush "flush failed")

end DotLayout
