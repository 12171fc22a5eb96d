import DotLayout.Graph.Element

/-! # Graphs

    A graph holds its nodes in the order in which they were first mentioned, its edges in the
    order in which they were added, and attributes of its own.

    * Node ids are distinct, which is part of the type; `indexOf?` is the place of an id.
    * `connect` and `pushEdge` create endpoints that are missing.  An edge that is replaced in
      place may name ids that no node has; layout and routing leave such an edge out.
    * `connections` counts the edges ever added, so that `connect` never gives an id twice. -/

namespace DotLayout

/-- A graph of nodes with distinct ids. -/
structure Graph where
  name : Option String := none
  directed : Bool := false
  nodes : List Node := []
  edges : List Edge := []
  attributes : OrderedMap String := {}
  connections : Nat := 0
  ids_nodup : (nodes.map Node.id).Nodup := by exact List.nodup_nil

namespace Graph

/-- A graph without nodes. -/
def empty (directed : Bool) (name : Option String) : Graph :=
  { directed := directed, name := name }

/-- The ids of the nodes, in order. -/
def ids (g : Graph) : List String := g.nodes.map Node.id

/-- The node with an id, if there is one. -/
def node? (g : Graph) (id : String) : Option Node := g.nodes.find? fun n => n.id == id

/-- Whether there is a node with an id. -/
def contains (g : Graph) (id : String) : Bool := g.nodes.any fun n => n.id == id

/-- The number of the node with an id, if there is one. -/
def indexOf? (g : Graph) (id : String) : Option Nat := g.nodes.findIdx? fun n => n.id == id

/-- The value of an attribute of the graph, if it is set. -/
def attribute? (g : Graph) (key : String) : Option String := g.attributes.get? key

/-- Sets an attribute of the graph. -/
def setAttribute (g : Graph) (key value : String) : Graph :=
  { g with attributes := g.attributes.insert key value }

/-- The ids that a graph contains are those of its nodes. -/
theorem contains_iff {g : Graph} {id : String} : g.contains id = true ↔ id ∈ g.ids := by
  simp [contains, ids]

/-- Adds a node with a new id behind all others. -/
def addNew (g : Graph) (n : Node) (h : n.id ∉ g.ids) : Graph :=
  { g with
    nodes := g.nodes ++ [n]
    ids_nodup := by
      rw [List.map_append, List.nodup_append]
      refine ⟨g.ids_nodup, by simp, ?_⟩
      intro a ha b hb
      have : b = n.id := by simpa using hb
      rintro rfl
      exact h (this ▸ ha) }

/-- Changes every node in a way that keeps its id. -/
def mapNodes (g : Graph) (f : Node → Node) (h : ∀ n, (f n).id = n.id) : Graph :=
  { g with
    nodes := g.nodes.map f
    ids_nodup := by
      have : (g.nodes.map f).map Node.id = g.nodes.map Node.id := by simp [h]
      rw [this]
      exact g.ids_nodup }

/-- Changes the node with an id, if there is one, in a way that keeps its id. -/
def modifyNode (g : Graph) (id : String) (f : Node → Node) (h : ∀ n, (f n).id = n.id) : Graph :=
  g.mapNodes (fun n => if n.id == id then f n else n) fun n => by
    by_cases hid : (n.id == id) = true
    · rw [if_pos hid, h]
    · rw [if_neg hid]

/-- Makes sure that an id names a node. -/
def ensureNode (g : Graph) (id : String) : Graph :=
  if h : g.contains id then g
  else g.addNew (.named id) (by rwa [← contains_iff])

/-- Applies a repeated definition to the node with an id. -/
def redefineNode (g : Graph) (id : String) (label : Option String) (style : NodeStyle) : Graph :=
  g.modifyNode id (·.redefine label style) fun _ => rfl

/-- Adds a node.  If its id is taken, its label and style redefine the node that is there, which
    keeps its position and size. -/
def insertNode (g : Graph) (n : Node) : Graph :=
  if h : g.contains n.id then g.redefineNode n.id (some n.label) n.style
  else g.addNew n (by rwa [← contains_iff])

/-- Gives a label to the node with an id. -/
def setLabel (g : Graph) (id label : String) : Graph :=
  g.modifyNode id (fun n => { n with label := label }) fun _ => rfl

/-- Moves the node with an id. -/
def setPosition (g : Graph) (id : String) (position : Point) : Graph :=
  g.modifyNode id (fun n => { n with position := position }) fun _ => rfl

/-- Resizes the node with an id. -/
def setSize (g : Graph) (id : String) (size : Size) : Graph :=
  g.modifyNode id (fun n => { n with size := size }) fun _ => rfl

/-- Adds an edge and creates the endpoints that are missing. -/
def pushEdge (g : Graph) (e : Edge) : Graph :=
  let g := (g.ensureNode e.source).ensureNode e.target
  { g with edges := g.edges ++ [e], connections := g.connections + 1 }

/-- The operator that joins the endpoints of an edge in its id. -/
def arrow (g : Graph) : String := if g.directed then "->" else "--"

/-- The id of the next edge from `source` to `target`: the endpoints and the number of edges that
    were added before it. -/
def nextEdgeId (g : Graph) (source target : String) : String :=
  source ++ g.arrow ++ target ++ "#" ++ toString g.connections

/-- Adds an edge under the next id and creates the endpoints that are missing. -/
def connect (g : Graph) (source target : String) (attributes : EdgeAttributes) (kind : EdgeKind) :
    Graph :=
  g.pushEdge ⟨g.nextEdgeId source target, source, target, attributes, kind⟩

/-! Adding and changing nodes leaves the rest of a graph alone. -/

/-- Making sure of a node that is there changes nothing. -/
theorem ensureNode_of_mem {g : Graph} {id : String} (h : id ∈ g.ids) : g.ensureNode id = g := by
  rw [ensureNode, dif_pos (contains_iff.2 h)]

/-- A node that is created for an id comes last. -/
theorem nodes_ensureNode {g : Graph} {id : String} (h : id ∉ g.ids) :
    (g.ensureNode id).nodes = g.nodes ++ [.named id] := by
  rw [ensureNode, dif_neg fun hc => h (contains_iff.1 hc)]
  rfl

/-- A node with a new id comes last. -/
theorem nodes_insertNode {g : Graph} {n : Node} (h : n.id ∉ g.ids) :
    (g.insertNode n).nodes = g.nodes ++ [n] := by
  rw [insertNode, dif_neg fun hc => h (contains_iff.1 hc)]
  rfl

@[simp] theorem edges_insertNode (g : Graph) (n : Node) : (g.insertNode n).edges = g.edges := by
  rw [insertNode]
  split <;> rfl

@[simp] theorem edges_ensureNode (g : Graph) (id : String) : (g.ensureNode id).edges = g.edges := by
  rw [ensureNode]
  split <;> rfl

@[simp] theorem directed_ensureNode (g : Graph) (id : String) :
    (g.ensureNode id).directed = g.directed := by
  rw [ensureNode]
  split <;> rfl

@[simp] theorem connections_insertNode (g : Graph) (n : Node) :
    (g.insertNode n).connections = g.connections := by
  rw [insertNode]
  split <;> rfl

@[simp] theorem connections_ensureNode (g : Graph) (id : String) :
    (g.ensureNode id).connections = g.connections := by
  rw [ensureNode]
  split <;> rfl

@[simp] theorem edges_redefineNode (g : Graph) (id : String) (label : Option String)
    (style : NodeStyle) : (g.redefineNode id label style).edges = g.edges := rfl

@[simp] theorem directed_redefineNode (g : Graph) (id : String) (label : Option String)
    (style : NodeStyle) : (g.redefineNode id label style).directed = g.directed := rfl

/-- An edge that is added stands behind all others. -/
@[simp] theorem edges_pushEdge (g : Graph) (e : Edge) : (g.pushEdge e).edges = g.edges ++ [e] := by
  simp [pushEdge]

@[simp] theorem connections_pushEdge (g : Graph) (e : Edge) :
    (g.pushEdge e).connections = g.connections + 1 := by
  simp [pushEdge]

/-- An edge between nodes that are there adds no node. -/
theorem nodes_pushEdge {g : Graph} {e : Edge} (hsource : e.source ∈ g.ids)
    (htarget : e.target ∈ g.ids) : (g.pushEdge e).nodes = g.nodes := by
  simp only [pushEdge, ensureNode_of_mem hsource, ensureNode_of_mem htarget]

@[simp] theorem directed_pushEdge (g : Graph) (e : Edge) :
    (g.pushEdge e).directed = g.directed := by
  simp [pushEdge]

@[simp] theorem directed_connect (g : Graph) (source target : String)
    (attributes : EdgeAttributes) (kind : EdgeKind) :
    (g.connect source target attributes kind).directed = g.directed := by
  simp [connect]

/-- Puts an edge in the place of another one; its endpoints need not be nodes. -/
def replaceEdge (g : Graph) (index : Nat) (e : Edge) : Graph :=
  { g with edges := g.edges.set index e }

/-- The rectangle of the node with an id. -/
def bounds? (g : Graph) (id : String) : Option Bounds := (g.node? id).map Node.bounds

end Graph

/-- Where nodes are to be placed, by their ids. -/
abbrev Positions := OrderedMap Point

/-- Moves every node that has a position. -/
def Graph.applyPositions (g : Graph) (positions : Positions) : Graph :=
  g.mapNodes
    (fun n => match positions.get? n.id with
      | some position => { n with position := position }
      | none => n)
    fun n => by split <;> rfl

/-- The number of nodes that have a position. -/
def Graph.countPlaced (g : Graph) (positions : Positions) : Nat :=
  g.nodes.countP fun n => (positions.get? n.id).isSome

end DotLayout
