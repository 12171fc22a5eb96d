import DotLayout.Data.Json
import DotLayout.Data.Value
import DotLayout.Graph.Basic

/-! # Messages to and from a layout engine

    A graph can be laid out by an engine outside of this library, a collaborator.  It is sent a
    `Request` with the sizes of the nodes and the edges between them, and answers with a
    `Response` that places nodes and may resize them.  Both can be written as JSON and read back. -/

namespace DotLayout.Exchange

open Data

/-- A node to be placed. -/
structure RequestNode where
  id : String
  width : Float32
  height : Float32

/-- An edge by its id and the ids of its ends. -/
structure EdgeRef where
  id : String
  source : String
  target : String
  deriving Repr, DecidableEq

/-- What a collaborator is asked. -/
structure Request where
  nodes : List RequestNode
  edges : List EdgeRef
  options : OrderedMap String

/-- Where a node is to be, and perhaps its new size. -/
structure ResponseNode where
  id : String
  x : Float32
  y : Float32
  width : Option Float32
  height : Option Float32

/-- What a collaborator answers. -/
structure Response where
  nodes : List ResponseNode
  edges : List EdgeRef

/-- What a message says about an edge. -/
def EdgeRef.ofEdge (e : Edge) : EdgeRef := ⟨e.id, e.source, e.target⟩

namespace EdgeRef

/-- An edge with its id and its ends. -/
def toJson (e : EdgeRef) : Json :=
  .object [("id", .string e.id), ("source", .string e.source), ("target", .string e.target)]

/-- Reads an edge, of which every field has to be there. -/
def ofValue? (v : Value) : Option EdgeRef := do
  let fields ← v.fields?
  return ⟨← required? Value.text? "id" fields, ← required? Value.text? "source" fields,
    ← required? Value.text? "target" fields⟩

end EdgeRef

namespace Request

/-- The request for a graph: the sizes of its nodes, and its edges in order. -/
def ofGraph (g : Graph) (options : OrderedMap String) : Request where
  nodes := g.nodes.map fun n => ⟨n.id, n.size.width, n.size.height⟩
  edges := g.edges.map EdgeRef.ofEdge
  options := options

/-- A request as it is sent. -/
def toJson (r : Request) : Json :=
  .object [
    ("nodes", .array (r.nodes.map fun n =>
      .object [("id", .string n.id), ("width", .number n.width), ("height", .number n.height)])),
    ("edges", .array (r.edges.map EdgeRef.toJson)),
    ("options", .object (r.options.entries.map fun (key, value) => (key, .string value)))]

/-- Reads a node of a request, of which every field has to be there. -/
def nodeOfValue? (v : Value) : Option RequestNode := do
  let fields ← v.fields?
  return ⟨← required? Value.text? "id" fields, ← required? Value.single? "width" fields,
    ← required? Value.single? "height" fields⟩

/-- Reads options, which have to be texts. -/
def optionsOfValue? (v : Value) : Option (OrderedMap String) := do
  let fields ← v.fields?
  let entries ← fields.mapM fun (key, value) => do return (key, ← value.text?)
  return .ofList entries

/-- Reads a request, whose options may be missing. -/
def ofValue? (v : Value) : Option Request := do
  let fields ← v.fields?
  return {
    nodes := ← required? (Value.listOf? nodeOfValue?) "nodes" fields
    edges := ← required? (Value.listOf? EdgeRef.ofValue?) "edges" fields
    options := ← field? optionsOfValue? "options" {} fields }

end Request

namespace Response

/-- A node of a response as JSON; a size that is not given is left out. -/
def nodeToJson (n : ResponseNode) : Json :=
  .object ([("id", .string n.id), ("x", .number n.x), ("y", .number n.y)]
    ++ (n.width.map fun w => ("width", Json.number w)).toList
    ++ (n.height.map fun h => ("height", Json.number h)).toList)

/-- A response as it is sent. -/
def toJson (r : Response) : Json :=
  .object [
    ("nodes", .array (r.nodes.map nodeToJson)),
    ("edges", .array (r.edges.map EdgeRef.toJson))]

/-- Reads a node of a response, whose new size may be missing. -/
def nodeOfValue? (v : Value) : Option ResponseNode := do
  let fields ← v.fields?
  return {
    id := ← required? Value.text? "id" fields
    x := ← required? Value.single? "x" fields
    y := ← required? Value.single? "y" fields
    width := ← optional? Value.single? "width" fields
    height := ← optional? Value.single? "height" fields }

/-- Reads a response, whose edges may be missing. -/
def ofValue? (v : Value) : Option Response := do
  let fields ← v.fields?
  return {
    nodes := ← required? (Value.listOf? nodeOfValue?) "nodes" fields
    edges := ← field? (Value.listOf? EdgeRef.ofValue?) "edges" [] fields }

end Response

end DotLayout.Exchange
