import DotLayout.Proofs.Dot.Calls
import DotLayout.Proofs.Layout.Limits
import Mathlib.Data.List.Forall2

/-! # Every edge is drawn

    A text that is read and laid out is exported with an entry for each of its edges, and no entry
    lacks its way: the ends of an edge are nodes when it is read, the layout has a position for
    every node, and the positions are written without touching nodes or edges otherwise.

    * `bounds?_applyPositions` : where a node is after it was moved.
    * `exists_joining` : so the resolver finds both rectangles of an edge.
    * `map_ofEdge` : what the entries of edges are that all have ways.
    * `every_edge_drawn` : the entries of an exported text. -/

namespace DotLayout

open Data Dot Layout Routing

variable {g : Graph} {positions : Positions} {r : Resolver}

/-- A way of an edge is the one that a resolver finds between nodes of the default size, which have
    the positions that are given to the ends of the edge. -/
def Joins (r : Resolver) (positions : Positions) (e : Edge) (way : EdgeGeometry) : Prop :=
  ∃ start stop, positions.get? e.source = some start ∧ positions.get? e.target = some stop ∧
    way = r.resolve (.fromCorner start Node.defaultSize) (.fromCorner stop Node.defaultSize) e.kind

/-- The entry of an edge with a way. -/
def EdgeSnapshot.along (e : Edge) (way : EdgeGeometry) : EdgeSnapshot :=
  ⟨e.id, some way, some way.path.svg⟩

/-- What is written for an edge with a way. -/
def EdgeSnapshot.written (e : Edge) (way : EdgeGeometry) : Json :=
  .object [("id", .string e.id), ("geometry", way.toJson), ("svg_path", .string way.path.svg)]

/-! ## Edges between placed nodes -/

/-- A node that is moved keeps its size. -/
theorem bounds?_applyPositions {id : String} {n : Node} {q : Point} (hn : g.node? id = some n)
    (hq : positions.get? id = some q) :
    (g.applyPositions positions).bounds? id = some (.fromCorner q n.size) := by
  have hid : n.id = id := Graph.id_of_node? hn
  rw [Graph.bounds?, Graph.applyPositions, Graph.node?_mapNodes, hn, Option.map_some, hid, hq]
  rfl

/-- In a graph that was described, every edge has a way once all nodes are placed. -/
theorem exists_joining (hg : g.Described) (hkeys : positions.keys = g.ids) (r : Resolver) {e : Edge}
    (he : e ∈ g.edges) :
    ∃ way, Joins r positions e way ∧
      r.resolveEdge (g.applyPositions positions) e = some way := by
  have hplaced : ∀ id ∈ g.ids, ∃ q, positions.get? id = some q ∧
      (g.applyPositions positions).bounds? id = some (.fromCorner q Node.defaultSize) := by
    intro id hid
    obtain ⟨n, hn, hfound⟩ := Graph.exists_node?_of_mem hid
    obtain ⟨⟨_, q⟩, hentry, rfl⟩ := List.mem_map.1 (hkeys ▸ hid : id ∈ positions.keys)
    have hq := OrderedMap.get?_eq_some_iff.2 hentry
    refine ⟨q, hq, ?_⟩
    rw [bounds?_applyPositions hfound hq, (hg.unplaced n hn).1]
  obtain ⟨hsource, htarget⟩ := hg.closed e he
  obtain ⟨start, hstart, hleaving⟩ := hplaced e.source hsource
  obtain ⟨stop, hstop, harriving⟩ := hplaced e.target htarget
  refine ⟨_, ⟨start, stop, hstart, hstop, rfl⟩, ?_⟩
  rw [Resolver.resolveEdge, hleaving, harriving]
  rfl

/-- The entries of edges that all have ways, in order. -/
theorem map_ofEdge {P : Edge → EdgeGeometry → Prop} {edges : List Edge}
    (h : ∀ e ∈ edges, ∃ way, P e way ∧ r.resolveEdge g e = some way) :
    ∃ ways, List.Forall₂ P edges ways ∧
      edges.map (Snapshot.ofEdge g r) = List.zipWith EdgeSnapshot.along edges ways := by
  induction edges with
  | nil => exact ⟨[], .nil, rfl⟩
  | cons e edges ih =>
      obtain ⟨way, hway, hresolved⟩ := h e List.mem_cons_self
      obtain ⟨ways, hways, hentries⟩ := ih fun e' he' => h e' (List.mem_cons_of_mem e he')
      refine ⟨way :: ways, .cons hway hways, ?_⟩
      rw [List.map_cons, hentries, List.zipWith_cons_cons, Snapshot.ofEdge, hresolved]
      rfl

/-- What is written for entries that have ways. -/
theorem toJson_along (g : Graph) (edges : List Edge) (ways : List EdgeGeometry) :
    (Snapshot.mk g (List.zipWith EdgeSnapshot.along edges ways)).toJson
      = .object [("graph", g.toJson),
          ("edges", .array (List.zipWith EdgeSnapshot.written edges ways))] := by
  rw [Snapshot.toJson, List.map_zipWith]
  rfl

/-! ## Texts -/

/-- What settings make of a graph: its nodes are moved to the positions that the algorithm gives
    them, and all of them have one. -/
theorem exists_positions_of_layOut {settings : Settings} {algorithm : Algorithm} {g' : Graph}
    (h : settings.layOut g = .ok (algorithm, g')) :
    ∃ positions, algorithm = settings.algorithmFor g ∧
      algorithm.layout g settings.params = .ok positions ∧ positions.keys = g.ids ∧
      g' = g.applyPositions positions := by
  rw [Settings.layOut] at h
  cases hlayout : (settings.algorithmFor g).layout g settings.params with
  | error fault =>
      rw [hlayout] at h
      cases h
  | ok positions =>
      rw [hlayout] at h
      obtain ⟨rfl, rfl⟩ := Prod.mk.inj (Except.ok.inj h)
      exact ⟨positions, rfl, hlayout, (layout_eq_ok hlayout).2, rfl⟩

/-- **Every edge is drawn.**  Whatever text is read and whatever settings lay it out, the snapshot
    has one entry for each edge of the graph, in the order of the edges and with their ids.  Every
    entry has a way and a drawing command for it, also in the text that is written, and the way is
    the one between the positions that this layout gives to the ends of the edge. -/
theorem every_edge_drawn {source : String} {settings : Settings} {p : Parsed}
    {algorithm : Algorithm} {g : Graph} (hparse : parse source = .ok p)
    (hlayout : settings.layOut p.graph = .ok (algorithm, g)) :
    ∃ positions ways, algorithm = settings.algorithmFor p.graph ∧
      algorithm.layout p.graph settings.params = .ok positions ∧
      List.Forall₂ (Joins settings.resolver positions) p.graph.edges ways ∧
      (Snapshot.capture g settings.resolver).edges
        = List.zipWith EdgeSnapshot.along p.graph.edges ways ∧
      settings.render g
        = (Json.object [("graph", g.toJson),
            ("edges", .array (List.zipWith EdgeSnapshot.written p.graph.edges ways))]).pretty := by
  have hdescribed : p.graph.Described := by
    rw [eq_of_parse hparse]
    exact described_graph _
  obtain ⟨positions, halgorithm, hpositions, hkeys, rfl⟩ := exists_positions_of_layOut hlayout
  obtain ⟨ways, hways, hentries⟩ := map_ofEdge fun e he =>
    exists_joining hdescribed hkeys settings.resolver he
  refine ⟨positions, ways, halgorithm, hpositions, hways, hentries, ?_⟩
  have hcapture : Snapshot.capture (p.graph.applyPositions positions) settings.resolver
      = ⟨_, List.zipWith EdgeSnapshot.along p.graph.edges ways⟩ := congrArg _ hentries
  rw [Settings.render, hcapture]
  exact congrArg Json.pretty (toJson_along ..)

/-- A loop, a chain there and back that asks for another kind, and an edge that is there twice, in a
    graph that asks for another algorithm than the settings do. -/
theorem every_edge_drawn_looped :
    let source := "digraph \x7b layout=circo a -> a; a -> b -> a [splines=ortho]; a -> b \x7d"
    let settings : Settings := { algorithm := some "tree" }
    ∃ p g, parse source = .ok p ∧ settings.layOut p.graph = .ok (.hierarchical, g) ∧
      p.graph.edges.map Edge.id = ["a->a#0", "a->b#1", "b->a#2", "a->b#3"] ∧
      ∃ positions ways, Algorithm.hierarchical.layout p.graph settings.params = .ok positions ∧
        ways.length = 4 ∧ List.Forall₂ (Joins settings.resolver positions) p.graph.edges ways ∧
        (Snapshot.capture g settings.resolver).edges
          = List.zipWith EdgeSnapshot.along p.graph.edges ways := by
  intro source settings
  have facts : (parse source).toOption.map (fun p => p.graph.edges.map Edge.id)
      = some ["a->a#0", "a->b#1", "b->a#2", "a->b#3"] := by
    decide +kernel
  obtain ⟨p, h, ids⟩ := exists_parsed facts
  obtain ⟨placed, hlayout, -⟩ :=
    exists_layout (g := p.graph) (p := settings.params)
      (show Algorithm.hierarchical = .forceDirected → _ from nofun)
  have hlaid : settings.layOut p.graph = .ok (.hierarchical, p.graph.applyPositions placed) := by
    have halgorithm : settings.algorithmFor p.graph = .hierarchical :=
      show Algorithm.ofName "tree" = .hierarchical by decide +kernel
    rw [Settings.layOut, halgorithm, hlayout]
    rfl
  obtain ⟨positions, ways, -, hpositions, hways, hentries, -⟩ := every_edge_drawn h hlaid
  refine ⟨p, _, h, hlaid, ids, positions, ways, hpositions, ?_, hways, hentries⟩
  rw [← hways.length_eq, ← List.length_map (f := Edge.id), ids]
  rfl

end DotLayout
