import DotLayout.Exchange.Message
import DotLayout.Layout.Algorithm

/-! # Collaborators

    A collaborator answers requests, or fails.  Its answer is checked before any of it is used:
    every node of it must be known, and every number finite.  `builtin` is the collaborator that
    uses the layouts of this library. -/

namespace DotLayout.Exchange

open Layout Numeric

/-- Why a graph could not be laid out by a collaborator. -/
inductive CollaboratorError where
  /-- The collaborator gave up. -/
  | failed (message : String)
  /-- The answer places a node that the graph does not have. -/
  | unknownNode (id : String)
  /-- The answer has a number for a node that is not finite. -/
  | notFinite (id : String)
  /-- A layout of this library was given bounds without room. -/
  | noRoom (fault : ClampFault)
  deriving Repr, DecidableEq

def CollaboratorError.message : CollaboratorError → String
  | .failed message => "collaborator failed: " ++ message
  | .unknownNode id => "response references unknown node `" ++ id ++ "`"
  | .notFinite id => "invalid response: node `" ++ id ++ "` has a non-finite coordinate or size"
  | .noRoom _ => "the bounds of the layout leave no room"

/-- Whatever answers requests. -/
abbrev Collaborator := Request → Except CollaboratorError Response

/-- Whether all numbers that an answer gives for a node are finite. -/
def ResponseNode.isFinite (n : ResponseNode) : Bool :=
  n.x.isFinite && n.y.isFinite && n.width.all Float32.isFinite && n.height.all Float32.isFinite

/-- What is wrong with an answer for a node of a graph. -/
def ResponseNode.fault? (g : Graph) (n : ResponseNode) : Option CollaboratorError :=
  if !g.contains n.id then some (.unknownNode n.id)
  else if !n.isFinite then some (.notFinite n.id)
  else none

/-- Moves, and perhaps resizes, a node of a graph. -/
def ResponseNode.applyTo (g : Graph) (n : ResponseNode) : Graph :=
  let g := g.setPosition n.id ⟨n.x, n.y⟩
  match n.width, n.height with
  | some width, some height => g.setSize n.id ⟨width, height⟩
  | _, _ => g

namespace Response

/-- Checks an answer for a graph; the first thing that is wrong is reported. -/
def validate (r : Response) (g : Graph) : Except CollaboratorError Unit :=
  match r.nodes.findSome? (ResponseNode.fault? g) with
  | some e => .error e
  | none => .ok ()

/-- Checks an answer and applies it to a graph, entry by entry.  Also says how many entries there
    were. -/
def apply (r : Response) (g : Graph) : Except CollaboratorError (Graph × Nat) := do
  r.validate g
  return (r.nodes.foldl ResponseNode.applyTo g, r.nodes.length)

end Response

def Request.graph (r : Request) : Graph :=
  let nodes := r.nodes.foldl
    (fun g n => g.insertNode { Node.named n.id with size := ⟨n.width, n.height⟩ })
    (Graph.empty true none)
  r.edges.foldl (fun g e => g.pushEdge { id := e.id, source := e.source, target := e.target }) nodes

/-- The algorithm that a request asks for. -/
def Request.algorithm (r : Request) : Algorithm :=
  ((r.options.get? "algorithm").map Algorithm.ofName).getD .default

/-- The parameters with the anchor that a request asks for. -/
def Request.paramsOver (r : Request) (p : Params) : Params :=
  match r.options.get? "anchor" with
  | some anchor => { p with anchor := some anchor }
  | none => p

/-- The answer that puts the nodes of a graph at positions and keeps their sizes. -/
def Response.ofPositions (g : Graph) (positions : Positions) (edges : List EdgeRef) : Response where
  nodes := g.nodes.filterMap fun n => (positions.get? n.id).map fun position =>
    ⟨n.id, position.x, position.y, some n.size.width, some n.size.height⟩
  edges := edges

/-- The collaborator that lays out the described graph with the algorithm that is asked for. -/
def builtin (p : Params) : Collaborator := fun r =>
  match r.algorithm.layout r.graph (r.paramsOver p) with
  | .ok positions => .ok (.ofPositions r.graph positions r.edges)
  | .error fault => .error (.noRoom fault)

/-- A way of laying out a graph with a collaborator, perhaps after a first layout of our own. -/
structure Pipeline where
  collaborator : Collaborator
  prepass : Option Algorithm := none
  params : Params := {}
  options : OrderedMap String := {}

namespace Pipeline

def prepare (p : Pipeline) (g : Graph) : Except CollaboratorError Graph :=
  match p.prepass with
  | none => .ok g
  | some algorithm =>
    match algorithm.layout g p.params with
    | .ok positions => .ok (g.applyPositions positions)
    | .error fault => .error (.noRoom fault)

/-- Lays out a graph.  When the collaborator fails or its answer is refused, the graph stays as
    the first layout left it. -/
def run (p : Pipeline) (g : Graph) : Graph × Except CollaboratorError Nat :=
  match p.prepare g with
  | .error e => (g, .error e)
  | .ok prepared =>
    match p.collaborator (.ofGraph prepared p.options) with
    | .error e => (prepared, .error e)
    | .ok response =>
      match response.apply prepared with
      | .error e => (prepared, .error e)
      | .ok (laidOut, count) => (laidOut, .ok count)

end Pipeline

end DotLayout.Exchange
