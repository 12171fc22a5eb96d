import DotLayout.Dot.Document
import DotLayout.Proofs.Graph.Calls

/-! # Descriptions as calls

    A description builds its graph by calls: a node statement makes sure of its node and redefines
    it, and a chain connects the words on both sides of each of its operators.  No statement
    places a node, resizes one, or brings an edge with an id of its own.

    * `addTo_eq_after` and `graph_eq_after` : the calls of a statement, and those of a description.
    * `described_on` : what such a call keeps; `described_after` : what all of them keep.
    * `parsed_graph_shape` : so every edge of a graph that was read carries its own number, and
      every node stands where a new node stands. -/

namespace DotLayout

namespace Call

/-- Whether a call only says which nodes and edges there are, and what nodes look like. -/
def describes : Call → Bool
  | ensureNode _ | redefineNode .. | connect .. => true
  | _ => false

end Call

namespace Graph

variable {g : Graph}

/-! ## Graphs that are only described -/

/-- What holds of a graph that was built by describing it. -/
structure Described (g : Graph) : Prop where
  /-- Every edge was counted once. -/
  counted : g.connections = g.edges.length
  /-- The id of an edge holds its ends, the operator of the graph and the number of the edge. -/
  numbered : ∀ (i : Nat) (e : Edge), g.edges[i]? = some e →
    e.id = e.source ++ g.arrow ++ e.target ++ "#" ++ toString i
  closed : g.Closed
  /-- No node was resized or moved. -/
  unplaced : ∀ n ∈ g.nodes, n.size = Node.defaultSize ∧ n.position = .origin

/-- A graph without nodes looks as if it had been described. -/
theorem described_empty (directed : Bool) (name : Option String)
    (attributes : OrderedMap String) :
    Described { Graph.empty directed name with attributes := attributes } where
  counted := rfl
  numbered := fun _ _ h => nomatch h
  closed := fun _ h => nomatch h
  unplaced := fun _ h => nomatch h

/-- Making sure of a node adds a new one at most. -/
theorem mem_nodes_ensureNode {id : String} {n : Node} (h : n ∈ (g.ensureNode id).nodes) :
    n ∈ g.nodes ∨ n = .named id := by
  by_cases hid : id ∈ g.ids
  · rw [ensureNode_of_mem hid] at h
    exact Or.inl h
  · rw [nodes_ensureNode hid, List.mem_append, List.mem_singleton] at h
    exact h

/-- A call leaves the kind of the graph as it was. -/
theorem directed_on (g : Graph) (c : Call) : (c.on g).directed = g.directed := by
  cases c with
  | insertNode n =>
      rw [Call.on, insertNode]
      split <;> rfl
  | ensureNode id => exact directed_ensureNode g id
  | connect source target attributes kind => exact directed_connect g source target attributes kind
  | pushEdge e => exact directed_pushEdge g e
  | _ => rfl

theorem name_ensureNode (g : Graph) (id : String) : (g.ensureNode id).name = g.name := by
  rw [ensureNode]
  split <;> rfl

/-- No call renames a graph. -/
theorem name_on (g : Graph) (c : Call) : (c.on g).name = g.name := by
  have push : ∀ e, (g.pushEdge e).name = g.name := fun e =>
    (name_ensureNode _ e.target).trans (name_ensureNode g e.source)
  cases c with
  | insertNode n =>
      rw [Call.on, insertNode]
      split <;> rfl
  | ensureNode id => exact name_ensureNode g id
  | connect source target attributes kind => exact push _
  | pushEdge e => exact push e
  | _ => rfl

/-- Calls leave the name of the graph as it was. -/
theorem name_after (g : Graph) (calls : List Call) : (g.after calls).name = g.name := by
  induction calls generalizing g with
  | nil => rfl
  | cons c calls ih => exact (ih (c.on g)).trans (name_on g c)

/-- A node after a call that describes is a new one, or looks like one that was there in size and
    position. -/
theorem places_of_describes {c : Call} (hc : c.describes = true) {n : Node}
    (h : n ∈ (c.on g).nodes) :
    (∃ id, n = .named id) ∨ ∃ m ∈ g.nodes, n.size = m.size ∧ n.position = m.position := by
  cases c with
  | ensureNode id =>
      rcases mem_nodes_ensureNode h with hold | rfl
      · exact Or.inr ⟨n, hold, rfl, rfl⟩
      · exact Or.inl ⟨id, rfl⟩
  | connect source target attributes kind =>
      rcases mem_nodes_ensureNode h with hold | rfl
      · rcases mem_nodes_ensureNode hold with hold | rfl
        · exact Or.inr ⟨n, hold, rfl, rfl⟩
        · exact Or.inl ⟨source, rfl⟩
      · exact Or.inl ⟨target, rfl⟩
  | redefineNode id label style =>
      obtain ⟨m, hm, rfl⟩ := List.mem_map.1 h
      refine Or.inr ⟨m, hm, ?_⟩
      dsimp only
      split <;> exact ⟨rfl, rfl⟩
  | _ => exact nomatch hc

/-- The edge that a describing call adds carries the number of edges before it. -/
theorem id_of_describes {c : Call} (hc : c.describes = true) {e : Edge} (h : c.edge? g = some e) :
    e.id = e.source ++ g.arrow ++ e.target ++ "#" ++ toString g.connections := by
  cases c with
  | connect source target attributes kind =>
      obtain rfl := Option.some.inj h
      rfl
  | pushEdge e' => exact nomatch hc
  | _ => exact nomatch h

/-- A call that describes keeps a graph described. -/
theorem described_on (h : g.Described) {c : Call} (hc : c.describes = true) :
    (c.on g).Described where
  counted := by
    rw [connections_on, edges_on, List.length_append, h.counted]
  numbered := by
    have harrow : (c.on g).arrow = g.arrow := by
      rw [arrow, arrow, directed_on]
    intro i e he
    rw [harrow]
    rw [edges_on, List.getElem?_append] at he
    split at he
    · exact h.numbered i e he
    · -- behind the edges that were there stands at most one more
      rename_i hbehind
      cases hnew : c.edge? g with
      | none =>
          rw [hnew] at he
          exact nomatch he
      | some new =>
          rw [hnew, Option.toList_some, List.getElem?_singleton] at he
          split at he
          · rename_i hfirst
            obtain rfl := Option.some.inj he
            have hi : i = g.connections := by
              rw [h.counted]
              omega
            rw [hi]
            exact id_of_describes hc hnew
          · exact nomatch he
  closed := closed_on h.closed c
  unplaced := by
    intro n hn
    -- a node this call made is unplaced; every other keeps the size and the position it had
    rcases places_of_describes hc hn with ⟨id, rfl⟩ | ⟨m, hm, hsize, hposition⟩
    · exact ⟨rfl, rfl⟩
    · rw [hsize, hposition]
      exact h.unplaced m hm

/-- Calls that describe keep the looks of a described graph. -/
theorem described_after (h : g.Described) {calls : List Call}
    (hcalls : ∀ c ∈ calls, c.describes = true) : (g.after calls).Described := by
  induction calls generalizing g with
  | nil => exact h
  | cons c calls ih =>
      have hstep := described_on h (hcalls c List.mem_cons_self)
      exact ih hstep fun c' hc' => hcalls c' (List.mem_cons_of_mem c hc')

/-- Numbers tell the edges of a described graph apart. -/
theorem Described.ids_edges_nodup (h : g.Described) : (g.edges.map Edge.id).Nodup := by
  rw [List.nodup_iff_pairwise_ne, List.pairwise_map, List.pairwise_iff_getElem]
  intro i j hi hj hlt heq
  have hfirst := h.numbered i _ (List.getElem?_eq_getElem hi)
  have hsecond := h.numbered j _ (List.getElem?_eq_getElem hj)
  have hsame : i = j := counter_inj (hfirst.symm.trans (heq.trans hsecond))
  omega

end Graph

namespace Dot

open Text

/-! ## The calls of a description -/

/-- The calls for the hops of a chain that goes on from a word. -/
def hopCalls (attributes : EdgeAttributes) (kind : EdgeKind) : Word → List Hop → List Call
  | _, [] => []
  | source, hop :: hops =>
    .connect source.text hop.target.text attributes kind :: hopCalls attributes kind hop.target hops

/-- The calls that a statement makes, where edges that ask for no kind get the given one. -/
def Statement.calls (kind : EdgeKind) : Statement → List Call
  | .chain head [] _ lists =>
    let settings := NodeSettings.ofPairs (pairsOf lists)
    [.ensureNode head.text, .redefineNode head.text settings.label settings.style]
  | .chain head hops _ lists =>
    let settings := EdgeSettings.ofPairs (pairsOf lists)
    hopCalls settings.attributes (settings.kind.getD kind) head hops
  | _ => []

/-- Adding a chain is making the calls of its steps. -/
theorem addHops_eq_after (attributes : EdgeAttributes) (kind : EdgeKind) (g : Graph)
    (source : Word) (hops : List Hop) :
    Statement.addHops attributes kind g source hops
      = g.after (hopCalls attributes kind source hops) := by
  induction hops generalizing g source with
  | nil => rfl
  | cons hop hops ih =>
      rw [Statement.addHops, ih]
      rfl

/-- Adding a statement is making its calls. -/
theorem addTo_eq_after (kind : EdgeKind) (g : Graph) (s : Statement) :
    s.addTo kind g = g.after (s.calls kind) := by
  cases s with
  | chain head hops dangling lists =>
      cases hops with
      | nil => rfl
      | cons hop hops => exact addHops_eq_after _ _ _ _ _
  | _ => rfl

/-- The calls of a chain describe. -/
theorem describes_of_mem_hopCalls {attributes : EdgeAttributes} {kind : EdgeKind} {source : Word}
    {hops : List Hop} {c : Call} (h : c ∈ hopCalls attributes kind source hops) :
    c.describes = true := by
  induction hops generalizing source with
  | nil => exact nomatch h
  | cons hop hops ih =>
      rcases List.mem_cons.1 h with rfl | hrest
      · rfl
      · exact ih hrest

/-- A statement only describes. -/
theorem describes_of_mem_calls {kind : EdgeKind} {s : Statement} {c : Call}
    (h : c ∈ s.calls kind) : c.describes = true := by
  cases s with
  | chain head hops dangling lists =>
      cases hops with
      | nil =>
          rcases List.mem_cons.1 h with rfl | hsecond
          · rfl
          · obtain rfl := List.mem_singleton.1 hsecond
            rfl
      | cons hop hops => exact describes_of_mem_hopCalls h
  | _ => exact nomatch h

/-- Adding some statements is making the calls of all of them. -/
theorem foldl_addTo_eq_after (kind : EdgeKind) (g : Graph) (ss : List Statement) :
    ss.foldl (Statement.addTo kind) g = g.after (ss.flatMap (Statement.calls kind)) := by
  induction ss generalizing g with
  | nil => rfl
  | cons s ss ih =>
      rw [List.foldl_cons, ih, addTo_eq_after, List.flatMap_cons, Graph.after, Graph.after,
        Graph.after, List.foldl_append]

/-- The graph of a description is what the calls of its statements make of an empty graph with the
    attributes that the description sets. -/
theorem graph_eq_after (d : Document) :
    d.graph
      = Graph.after { Graph.empty d.directed (d.header.bind Header.name) with
            attributes := d.attributes }
          (d.statements.flatMap (Statement.calls d.edgeKind)) :=
  foldl_addTo_eq_after ..

/-- The name of a graph is the one in the header of its description. -/
theorem name_graph (d : Document) : d.graph.name = d.header.bind Header.name := by
  rw [graph_eq_after]
  exact Graph.name_after _ _

/-- The graph of a document looks as if it had been described. -/
theorem described_graph (d : Document) : d.graph.Described := by
  rw [graph_eq_after]
  refine Graph.described_after (Graph.described_empty _ _ _) ?_
  intro c hc
  obtain ⟨s, -, hmem⟩ := List.mem_flatMap.1 hc
  exact describes_of_mem_calls hmem

/-- **What every graph that is read looks like.**  Whatever operators a text uses and whatever
    attributes it gives, an edge has the id that is made of its ends, the operator of the kind of
    the graph and the number of the edge; no two edges have the same id; both ends of every edge
    are nodes; and every node has the size and the position of a new node. -/
theorem parsed_graph_shape {source : String} {p : Parsed} (h : parse source = .ok p) :
    (∀ (i : Nat) (e : Edge), p.graph.edges[i]? = some e →
      e.id = e.source ++ (if p.graph.directed then "->" else "--") ++ e.target ++ "#"
        ++ toString i) ∧
    (p.graph.edges.map Edge.id).Nodup ∧
    (∀ e ∈ p.graph.edges, e.source ∈ p.graph.ids ∧ e.target ∈ p.graph.ids) ∧
    ∀ n ∈ p.graph.nodes, n.size = Node.defaultSize ∧ n.position = .origin := by
  have hshape : p.graph.Described := by
    rw [eq_of_parse h]
    exact described_graph _
  exact ⟨hshape.numbered, hshape.ids_edges_nodup, hshape.closed, hshape.unplaced⟩

/-- An undirected graph with operators of both kinds, an edge that is there twice, an id that looks
    like the end of an edge id, a node that is defined late and again, and attributes that ask for
    places and sizes: the edges are numbered, and every node is a new one. -/
theorem parsed_graph_shape_mixed :
    let source := "graph \x7b a -> b -- a; a -- b; \"b#0\" -- c [pos=\"1,2\"]
      a [width=3, height=4, pos=\"5,6\"] a [label=again] \x7d"
    ∃ p, parse source = .ok p ∧ p.graph.ids = ["a", "b", "b#0", "c"] ∧
      p.graph.edges.map Edge.id = ["a--b#0", "b--a#1", "a--b#2", "b#0--c#3"] ∧
      (p.graph.edges.map Edge.id).Nodup ∧
      (∀ (i : Nat) (e : Edge), p.graph.edges[i]? = some e →
        e.id = e.source ++ "--" ++ e.target ++ "#" ++ toString i) ∧
      (∀ e ∈ p.graph.edges, e.source ∈ p.graph.ids ∧ e.target ∈ p.graph.ids) ∧
      p.graph.nodes.map (fun n => (n.size, n.position))
        = List.replicate 4 (Node.defaultSize, .origin) := by
  intro source
  have shown : (parse source).toOption.map (fun p =>
      (p.graph.directed, p.graph.ids, p.graph.edges.map Edge.id))
        = some (false, ["a", "b", "b#0", "c"],
          ["a--b#0", "b--a#1", "a--b#2", "b#0--c#3"]) := by
    decide +kernel
  cases h : parse source with
  | error e =>
      rw [h] at shown
      cases shown
  | ok p =>
      rw [h] at shown
      obtain ⟨hdirected, hshown⟩ := Prod.mk.inj (Option.some.inj shown)
      obtain ⟨hids, hedges⟩ := Prod.mk.inj hshown
      obtain ⟨hnumbered, hnodup, hclosed, hnew⟩ := parsed_graph_shape h
      have hcount : p.graph.nodes.length = 4 := by
        simpa [Graph.ids] using congrArg List.length hids
      refine ⟨p, rfl, hids, hedges, hnodup, ?_, hclosed, ?_⟩
      · simpa [hdirected] using hnumbered
      · rw [← hcount, ← List.map_const', List.map_inj_left]
        intro n hn
        exact Prod.ext (hnew n hn).1 (hnew n hn).2

end Dot

end DotLayout
