import DotLayout.Exchange.Collaborator
import DotLayout.Proofs.Layout.Positions

/-! # The collaborator of this library

    Asked to lay out a graph, the collaborator that uses the layouts of this library builds a
    second graph from the request.  That graph has default labels and styles and is directed, but
    the same ids, sizes and edges, and a layout looks at nothing else.

    * `nodes_graph` and `ends_graph` : what the second graph is made of.
    * `layout_graph` : it is laid out like the first one.
    * `places_ofPositions` : the answer has one entry for every node, in order. -/

namespace DotLayout.Exchange

open Layout Numeric

/-! ## The graph that a request describes -/

/-- The node that a request describes by its id and size. -/
def RequestNode.node (n : RequestNode) : Node :=
  { Node.named n.id with size := ⟨n.width, n.height⟩ }

/-- The edge that a request describes. -/
def EdgeRef.edge (e : EdgeRef) : Edge := { id := e.id, source := e.source, target := e.target }

/-- Adds the nodes of a request to a graph, each with its size. -/
def insertNodes (g : Graph) (nodes : List RequestNode) : Graph :=
  nodes.foldl (fun g n => g.insertNode n.node) g

/-- Adds the edges of a request to a graph. -/
def pushEdges (g : Graph) (edges : List EdgeRef) : Graph :=
  edges.foldl (fun g e => g.pushEdge e.edge) g

theorem graph_eq (r : Request) :
    r.graph = pushEdges (insertNodes (.empty true none) r.nodes) r.edges := rfl

/-- Adding nodes with distinct new ids lists them in order. -/
theorem nodes_insertNodes {nodes : List RequestNode} {g : Graph}
    (h : (g.ids ++ nodes.map RequestNode.id).Nodup) :
    (insertNodes g nodes).nodes = g.nodes ++ nodes.map RequestNode.node := by
  induction nodes generalizing g with
  | nil => simp [insertNodes]
  | cons n nodes ih =>
    have hnew : n.node.id ∉ g.ids := by
      intro hmem
      exact (List.nodup_append.1 h).2.2 _ hmem _ List.mem_cons_self rfl
    have hnodes : (g.insertNode n.node).nodes = g.nodes ++ [n.node] := Graph.nodes_insertNode hnew
    have hids : (g.insertNode n.node).ids = g.ids ++ [n.id] := by
      rw [Graph.ids, hnodes, List.map_append]
      rfl
    have hrest : (insertNodes (g.insertNode n.node) nodes).nodes
        = g.nodes ++ [n.node] ++ nodes.map RequestNode.node := by
      rw [ih (by simpa [hids] using h), hnodes]
    rw [List.append_assoc] at hrest
    exact hrest

/-- Adding nodes leaves the edges as they were. -/
theorem edges_insertNodes (g : Graph) (nodes : List RequestNode) :
    (insertNodes g nodes).edges = g.edges := by
  induction nodes generalizing g with
  | nil => rfl
  | cons n nodes ih => exact (ih _).trans (Graph.edges_insertNode g n.node)

/-- Adding edges between nodes that are there changes no node. -/
theorem nodes_pushEdges {edges : List EdgeRef} {g : Graph}
    (h : ∀ e ∈ edges, e.source ∈ g.ids ∧ e.target ∈ g.ids) :
    (pushEdges g edges).nodes = g.nodes := by
  induction edges generalizing g with
  | nil => rfl
  | cons e edges ih =>
    obtain ⟨hsource, htarget⟩ := h e List.mem_cons_self
    have hnodes : (g.pushEdge e.edge).nodes = g.nodes := Graph.nodes_pushEdge hsource htarget
    have hids : (g.pushEdge e.edge).ids = g.ids := by rw [Graph.ids, hnodes, Graph.ids]
    refine (ih ?_).trans hnodes
    rw [hids]
    exact fun e' he' => h e' (List.mem_cons_of_mem e he')

/-- Adding edges puts them behind the ones that are there. -/
theorem edges_pushEdges (g : Graph) (edges : List EdgeRef) :
    (pushEdges g edges).edges = g.edges ++ edges.map EdgeRef.edge := by
  induction edges generalizing g with
  | nil => simp [pushEdges]
  | cons e edges ih =>
    have hrest : (pushEdges (g.pushEdge e.edge) edges).edges
        = g.edges ++ [e.edge] ++ edges.map EdgeRef.edge := by
      rw [ih, Graph.edges_pushEdge]
    rw [List.append_assoc] at hrest
    exact hrest

variable {g : Graph} (options : OrderedMap String)

/-- The nodes of the request for a graph are its nodes, with their sizes and nothing else. -/
theorem nodes_insertNodes_ofGraph :
    (insertNodes (.empty true none) (Request.ofGraph g options).nodes).nodes
      = g.nodes.map fun n => { Node.named n.id with size := n.size } := by
  have hids : (Request.ofGraph g options).nodes.map RequestNode.id = g.ids := by
    rw [Request.ofGraph, List.map_map]
    rfl
  rw [nodes_insertNodes (by rw [hids]; exact g.ids_nodup), Request.ofGraph, List.map_map]
  rfl

/-- Each node of the second graph has the id and the size of a node of the first one. -/
theorem nodes_graph (h : ∀ e ∈ g.edges, e.source ∈ g.ids ∧ e.target ∈ g.ids) :
    (Request.ofGraph g options).graph.nodes
      = g.nodes.map fun n => { Node.named n.id with size := n.size } := by
  rw [graph_eq, nodes_pushEdges, nodes_insertNodes_ofGraph]
  intro e he
  obtain ⟨e, hmem, rfl⟩ := List.mem_map.1 he
  have hids : (insertNodes (.empty true none) (Request.ofGraph g options).nodes).ids = g.ids := by
    rw [Graph.ids, nodes_insertNodes_ofGraph, List.map_map]
    rfl
  rw [hids]
  exact h e hmem

/-- The edges of the request for a graph have the ends of its edges. -/
theorem ends_graph : (Request.ofGraph g options).graph.ends = g.ends := by
  rw [Graph.ends, graph_eq, edges_pushEdges, edges_insertNodes, Request.ofGraph, List.map_map]
  exact List.map_map ..

/-- The request for a graph names its ids, if all ends of its edges are nodes. -/
theorem ids_graph (h : ∀ e ∈ g.edges, e.source ∈ g.ids ∧ e.target ∈ g.ids) :
    (Request.ofGraph g options).graph.ids = g.ids := by
  rw [Graph.ids, nodes_graph options h, List.map_map]
  rfl

/-- The second graph is laid out like the first one. -/
theorem layout_graph (h : ∀ e ∈ g.edges, e.source ∈ g.ids ∧ e.target ∈ g.ids)
    (algorithm : Algorithm) (p : Params) :
    algorithm.layout (Request.ofGraph g options).graph p = algorithm.layout g p := by
  have hids := ids_graph options h
  have hsizes : (Request.ofGraph g options).graph.nodes.map Node.size = g.nodes.map Node.size := by
    rw [nodes_graph options h, List.map_map]
    rfl
  rw [Algorithm.layout, Algorithm.layout, ofGraph_congr hids hsizes (ends_graph options), hids]

/-! ## The answer -/

/-- Whether an answer has exactly one entry for every node of a graph, in order, with the size of
    the node and its position. -/
def Response.Places (r : Response) (g : Graph) (positions : Positions) : Prop :=
  ∃ point : String → Point, (∀ n ∈ g.nodes, positions.get? n.id = some (point n.id)) ∧
    r.nodes = g.nodes.map fun n =>
      ⟨n.id, (point n.id).x, (point n.id).y, some n.size.width, some n.size.height⟩

/-- A layout gives a position to every node. -/
theorem exists_point_of_layout {algorithm : Algorithm} {p : Params} {positions : Positions}
    (h : algorithm.layout g p = .ok positions) :
    ∃ point : String → Point, ∀ n ∈ g.nodes, positions.get? n.id = some (point n.id) := by
  refine ⟨fun id => (positions.get? id).getD .origin, ?_⟩
  intro n hn
  cases hpoints : algorithm.points (.ofGraph g p) with
  | error fault => exact nomatch (layout_eq_error_iff.2 hpoints).symm.trans h
  | ok points =>
    obtain ⟨positions', h', hplaces⟩ := layout_of_points_ok hpoints
    obtain rfl := Except.ok.inj (h'.symm.trans h)
    obtain ⟨i, hi⟩ := List.getElem?_of_mem hn
    obtain ⟨q, -, hq⟩ := hplaces i n hi
    simp only [hq, Option.getD_some]

/-- An answer for the second graph, made from a layout of the first one, places the nodes of the
    first one. -/
theorem places_ofPositions (h : ∀ e ∈ g.edges, e.source ∈ g.ids ∧ e.target ∈ g.ids)
    {algorithm : Algorithm} {p : Params} {positions : Positions}
    (hlayout : algorithm.layout g p = .ok positions) (edges : List EdgeRef) :
    (Response.ofPositions (Request.ofGraph g options).graph positions edges).Places g
      positions := by
  obtain ⟨point, hpoint⟩ := exists_point_of_layout hlayout
  refine ⟨point, hpoint, ?_⟩
  rw [Response.ofPositions, nodes_graph options h, List.filterMap_map, ← List.filterMap_eq_map']
  refine List.filterMap_congr fun n hn => ?_
  simp only [Function.comp_apply, Node.named, hpoint n hn, Option.map_some]

/-- The answer of the collaborator, by the outcome of the layout that is asked for. -/
theorem builtin_ofGraph (h : ∀ e ∈ g.edges, e.source ∈ g.ids ∧ e.target ∈ g.ids) (p : Params)
    {name : String} {anchor : Option String} (hname : options.get? "algorithm" = some name)
    (hanchor : options.get? "anchor" = anchor) :
    builtin p (.ofGraph g options)
      = match (Algorithm.ofName name).layout g { p with anchor := anchor.or p.anchor } with
        | .ok positions => .ok (.ofPositions (Request.ofGraph g options).graph positions
            (g.edges.map EdgeRef.ofEdge))
        | .error fault => .error (.noRoom fault) := by
  have halgorithm : (Request.ofGraph g options).algorithm = Algorithm.ofName name := by
    simp [Request.algorithm, Request.ofGraph, hname]
  have hparams : (Request.ofGraph g options).paramsOver p
      = { p with anchor := anchor.or p.anchor } := by
    cases anchor <;> simp [Request.paramsOver, Request.ofGraph, hanchor]
  rw [builtin, halgorithm, hparams, layout_graph options h]
  generalize (Algorithm.ofName name).layout g { p with anchor := anchor.or p.anchor } = outcome
  cases outcome <;> rfl

/-- **The collaborator gives what the layout gives.**  Asked about a graph whose edges have both
    their ends in it, with the name of an algorithm and perhaps an anchor, the collaborator of this
    library fails when the layout itself fails, and otherwise answers with one entry for every
    node, in order, that has the size of the node and its position in the layout, and with the
    edges as it got them. -/
theorem builtin_eq_layout (h : ∀ e ∈ g.edges, e.source ∈ g.ids ∧ e.target ∈ g.ids) (p : Params)
    (name : String) (anchor : Option String) (hname : options.get? "algorithm" = some name)
    (hanchor : options.get? "anchor" = anchor) :
    (∀ fault,
      (Algorithm.ofName name).layout g { p with anchor := anchor.or p.anchor } = .error fault ↔
        builtin p (.ofGraph g options) = .error (.noRoom fault)) ∧
    ∀ positions,
      (Algorithm.ofName name).layout g { p with anchor := anchor.or p.anchor } = .ok positions →
        ∃ r, builtin p (.ofGraph g options) = .ok r ∧ r.Places g positions ∧
          r.edges = (Request.ofGraph g options).edges := by
  rw [builtin_ofGraph options h p hname hanchor]
  constructor
  · intro fault
    generalize (Algorithm.ofName name).layout g { p with anchor := anchor.or p.anchor } = outcome
    cases outcome <;> simp
  · intro positions hlayout
    rw [hlayout]
    exact ⟨_, rfl, places_ofPositions options h hlayout _, rfl⟩

/-- Two nodes with parallel edges, a cycle and a loop. -/
def looped : Graph :=
  [("a", "b"), ("a", "b"), ("b", "a"), ("b", "b")].foldl
    (fun g e => g.connect e.1 e.2 {} .curved) (.empty false none)

/-- A request for a graph with parallel edges, a cycle and a loop that asks for the force layout
    with an anchor. -/
theorem builtin_eq_layout_looped :
    let options : OrderedMap String := .ofList [("algorithm", "neato"), ("anchor", "b")]
    (∀ e ∈ looped.edges, e.source ∈ looped.ids ∧ e.target ∈ looped.ids) ∧
      options.get? "algorithm" = some "neato" ∧ options.get? "anchor" = some "b" ∧
      (∀ fault,
        (Algorithm.ofName "neato").layout looped { anchor := some "b" } = .error fault ↔
          builtin {} (.ofGraph looped options) = .error (.noRoom fault)) ∧
      ∀ positions,
        (Algorithm.ofName "neato").layout looped { anchor := some "b" } = .ok positions →
          ∃ r, builtin {} (.ofGraph looped options) = .ok r ∧ r.Places looped positions ∧
            r.edges = (Request.ofGraph looped options).edges := by
  intro options
  have hends : ∀ e ∈ looped.edges, e.source ∈ looped.ids ∧ e.target ∈ looped.ids := by decide
  have hname : options.get? "algorithm" = some "neato" := by decide
  have hanchor : options.get? "anchor" = some "b" := by decide
  exact ⟨hends, hname, hanchor, builtin_eq_layout options hends {} "neato" (some "b") hname hanchor⟩

end DotLayout.Exchange
