import DotLayout.Proofs.Exchange.Dangling

/-! # What a request mentions

    A request comes from outside.  It may describe a node twice, and its edges may name nodes that
    it does not describe.  The collaborator of this library answers for every id that is mentioned,
    once, in the order of the mentions.

    * `nodes_insertNodes_eq` : a description that is repeated changes nothing, so that the first one
      counts.
    * `nodes_graph_eq` : the graph of a request has one node for every id that is mentioned.
    * `builtin_answers` : so the answer has one entry for each of them, with the size of its first
      description. -/

namespace DotLayout.Exchange

open Layout

variable {g : Graph} {nodes : List RequestNode} {id : String}

/-- The size that the first of some descriptions of a node gives; a node that is not described has
    the default size. -/
def firstSize (nodes : List RequestNode) (id : String) : Size :=
  ((nodes.find? fun n => n.id == id).map fun n => ⟨n.width, n.height⟩).getD Node.defaultSize

namespace Request

/-- The ids that a request mentions: those of its nodes, and then those of the ends of its edges. -/
def mentions (r : Request) : List String :=
  r.nodes.map RequestNode.id ++ r.edges.flatMap fun e => [e.source, e.target]

/-- The size that a request gives to a node. -/
def sizeOf (r : Request) (id : String) : Size := firstSize r.nodes id

end Request

/-! ## Descriptions -/

/-- The node with an id and a size about which nothing else is known. -/
def plain (id : String) (size : Size) : Node := { Node.named id with size := size }

theorem ids_plain (ids : List String) (size : String → Size) :
    (ids.map fun id => plain id (size id)).map Node.id = ids := by
  rw [List.map_map]
  exact List.map_id' ids

theorem find?_eq_none (h : id ∉ nodes.map RequestNode.id) :
    nodes.find? (fun n => n.id == id) = none := by
  rw [List.find?_eq_none]
  intro n hn heq
  exact h (List.mem_map.2 ⟨n, hn, eq_of_beq heq⟩)

/-- What is described first is not described anew by what follows. -/
theorem firstSize_append_of_mem (h : id ∈ nodes.map RequestNode.id) (more : List RequestNode) :
    firstSize (nodes ++ more) id = firstSize nodes id := by
  obtain ⟨n, hn, rfl⟩ := List.mem_map.1 h
  have hfound : (nodes.find? fun m => m.id == n.id).isSome := by
    rw [List.find?_isSome]
    exact ⟨n, hn, beq_self_eq_true n.id⟩
  rw [firstSize, List.find?_append, Option.or_of_isSome hfound, firstSize]

theorem firstSize_concat_of_notMem {n : RequestNode} (h : n.id ∉ nodes.map RequestNode.id) :
    firstSize (nodes ++ [n]) n.id = ⟨n.width, n.height⟩ := by
  rw [firstSize, List.find?_append, find?_eq_none h, Option.none_or, List.find?_cons_of_pos]
  · rfl
  · exact beq_self_eq_true n.id

theorem firstSize_of_notMem (h : id ∉ nodes.map RequestNode.id) :
    firstSize nodes id = Node.defaultSize := by
  rw [firstSize, find?_eq_none h]
  rfl

/-- Inserting a node about which no more is known than its id and a size changes nothing if such a
    node is there. -/
theorem nodes_insertNode_of_mem (hplain : ∀ m ∈ g.nodes, m = plain m.id m.size) {n : RequestNode}
    (h : n.id ∈ g.ids) : (g.insertNode n.node).nodes = g.nodes := by
  have hcontains : g.contains n.node.id = true := Graph.contains_iff.2 h
  rw [Graph.insertNode, dif_pos hcontains]
  show g.nodes.map (fun m => if m.id == n.id then m.redefine (some n.id) {} else m) = g.nodes
  refine (List.map_congr_left fun m hm => ?_).trans (List.map_id _)
  by_cases heq : (m.id == n.id) = true
  · rw [if_pos heq, ← eq_of_beq heq, hplain m hm]
    rfl
  · rw [if_neg heq]
    rfl

/-- Descriptions, repeated or not, make one node for every id, in the order in which the ids come
    first. -/
theorem nodes_insertNodes_eq (nodes : List RequestNode) :
    (insertNodes (.empty true none) nodes).nodes
      = (nodes.map RequestNode.id).eraseDups.map fun id => plain id (firstSize nodes id) := by
  -- from the last description backwards: it counts only if the id is new
  induction nodes using List.reverseRecOn with
  | nil => rfl
  | append_singleton nodes n ih =>
    have hids : (insertNodes (.empty true none) nodes).ids
        = (nodes.map RequestNode.id).eraseDups := by
      rw [Graph.ids, ih, ids_plain]
    have hkept : ((nodes.map RequestNode.id).eraseDups.map fun id =>
          plain id (firstSize (nodes ++ [n]) id))
        = (insertNodes (.empty true none) nodes).nodes := by
      rw [ih]
      refine List.map_congr_left fun id hid => ?_
      rw [firstSize_append_of_mem (List.mem_eraseDups.1 hid)]
    have hlast : insertNodes (.empty true none) (nodes ++ [n])
        = (insertNodes (.empty true none) nodes).insertNode n.node := by
      rw [insertNodes, List.foldl_append]
      rfl
    rw [hlast, List.map_append, List.map_singleton, eraseDups_concat]
    by_cases hseen : n.id ∈ nodes.map RequestNode.id
    · have hmem : n.id ∈ (insertNodes (.empty true none) nodes).ids := by
        rw [hids]
        exact List.mem_eraseDups.2 hseen
      have hplain : ∀ m ∈ (insertNodes (.empty true none) nodes).nodes, m = plain m.id m.size := by
        rw [ih]
        rintro m hm
        obtain ⟨id, -, rfl⟩ := List.mem_map.1 hm
        rfl
      rw [if_pos (List.contains_iff_mem.2 hseen), nodes_insertNode_of_mem hplain hmem, hkept]
    · have hnew : n.node.id ∉ (insertNodes (.empty true none) nodes).ids := by
        rw [hids]
        exact fun hmem => hseen (List.mem_eraseDups.1 hmem)
      rw [if_neg fun hmem => hseen (List.contains_iff_mem.1 hmem), Graph.nodes_insertNode hnew,
        List.map_append, hkept, List.map_singleton, firstSize_concat_of_notMem hseen]
      rfl

/-- The graph of a request has one node for every id that is mentioned, in the order in which they
    are mentioned first. -/
theorem nodes_graph_eq (r : Request) :
    r.graph.nodes = r.mentions.eraseDups.map fun id => plain id (r.sizeOf id) := by
  have hknown : ∀ id, (insertNodes (.empty true none) r.nodes).contains id
      = (r.nodes.map RequestNode.id).contains id := by
    intro id
    have hids : (insertNodes (.empty true none) r.nodes).ids
        = (r.nodes.map RequestNode.id).eraseDups := by
      rw [Graph.ids, nodes_insertNodes_eq, ids_plain]
    rw [Bool.eq_iff_iff, Graph.contains_iff, hids, List.mem_eraseDups, List.contains_iff_mem]
  rw [graph_eq, nodes_pushEdges_eq, Graph.nodes_foldl_ensureNode, nodes_insertNodes_eq,
    Request.mentions, List.eraseDups_append, List.map_append]
  simp only [hknown]
  congr 1
  -- an end that is not described has the default size
  refine List.map_congr_left fun id hid => ?_
  have hnew := (List.mem_filter.1 (List.mem_eraseDups.1 hid)).2
  rw [Bool.not_eq_true', ← Bool.not_eq_true, List.contains_iff_mem] at hnew
  rw [Request.sizeOf, firstSize_of_notMem hnew]
  rfl

/-! ## Answers -/

/-- An answer made from a layout has an entry for every node that was laid out. -/
theorem places_of_layout {algorithm : Algorithm} {p : Params} {positions : Positions}
    (h : algorithm.layout g p = .ok positions) (edges : List EdgeRef) :
    (Response.ofPositions g positions edges).Places g positions := by
  obtain ⟨point, hpoint⟩ := exists_point_of_layout h
  refine ⟨point, hpoint, ?_⟩
  rw [Response.ofPositions, ← List.filterMap_eq_map']
  refine List.filterMap_congr fun n hn => ?_
  rw [hpoint n hn]
  rfl

/-- **An answer for all that is mentioned.**  Whatever a request is like, if the layout that it asks
    for does not fail, the collaborator of this library answers.  The answer has exactly one entry
    for every id that the request mentions, in the order in which they are mentioned first: nodes
    before the ends of edges.  An entry has the position of the layout and a size: that of the first
    node with the id, or the default size if the id is only the end of an edge.  The edges are
    those of the request. -/
theorem builtin_answers (p : Params) (r : Request)
    (h : ∀ fault, r.algorithm.layout r.graph (r.paramsOver p) ≠ .error fault) :
    ∃ positions answer, r.algorithm.layout r.graph (r.paramsOver p) = .ok positions ∧
      builtin p r = .ok answer ∧
      answer.nodes.map ResponseNode.id = r.mentions.eraseDups ∧
      (∀ entry ∈ answer.nodes, ∃ q, positions.get? entry.id = some q ∧ entry =
        ⟨entry.id, q.x, q.y, some (r.sizeOf entry.id).width, some (r.sizeOf entry.id).height⟩) ∧
      answer.edges = r.edges := by
  cases hlayout : r.algorithm.layout r.graph (r.paramsOver p) with
  | error fault => exact absurd hlayout (h fault)
  | ok positions =>
    obtain ⟨point, hpoint, hnodes⟩ := places_of_layout hlayout r.edges
    have hanswer : builtin p r = .ok (.ofPositions r.graph positions r.edges) := by
      rw [builtin, hlayout]
    refine ⟨positions, _, rfl, hanswer, ?_, ?_, rfl⟩
    · rw [hnodes, List.map_map]
      show r.graph.nodes.map Node.id = _
      rw [nodes_graph_eq, ids_plain]
    · intro entry hentry
      rw [hnodes] at hentry
      obtain ⟨n, hn, rfl⟩ := List.mem_map.1 hentry
      refine ⟨point n.id, hpoint n hn, ?_⟩
      rw [nodes_graph_eq] at hn
      obtain ⟨id, -, rfl⟩ := List.mem_map.1 hn
      rfl

/-- A request that describes a node twice, with an edge to a node that it does not describe. -/
def careless : Request where
  nodes := [⟨"a", 10, 20⟩, ⟨"a", 30, 40⟩]
  edges := [⟨"x", "ghost", "a"⟩]
  options := .ofList [("algorithm", "tree"), ("anchor", "nobody")]

/-- The first description counts, and the missing end has the default size. -/
theorem builtin_answers_careless :
    (∀ fault, careless.algorithm.layout careless.graph (careless.paramsOver {}) ≠ .error fault) ∧
      ∃ answer, builtin {} careless = .ok answer ∧
        answer.nodes.map ResponseNode.id = ["a", "ghost"] ∧
        (∀ entry ∈ answer.nodes, entry.id = "a" → entry.width = some 10) ∧
        (∀ entry ∈ answer.nodes, entry.id = "ghost" → entry.width = some 150) ∧
        answer.edges = careless.edges := by
  have halgorithm : careless.algorithm = .hierarchical := by decide +kernel
  have hplaced : ∀ fault,
      careless.algorithm.layout careless.graph (careless.paramsOver {}) ≠ .error fault := by
    rw [halgorithm]
    exact fun fault hfault => nomatch hfault
  obtain ⟨positions, answer, -, hanswer, hids, hentries, hedges⟩ :=
    builtin_answers {} careless hplaced
  refine ⟨hplaced, answer, hanswer, hids, ?_, ?_, hedges⟩
  · intro entry hentry hid
    obtain ⟨q, -, heq⟩ := hentries entry hentry
    rw [heq, hid]
    rfl
  · intro entry hentry hid
    obtain ⟨q, -, heq⟩ := hentries entry hentry
    rw [heq, hid]
    rfl

end DotLayout.Exchange
