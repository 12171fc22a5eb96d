import DotLayout.Proofs.Layout.Positions

/-! # What an engine reads of a graph

    An engine lays out a graph itself.  It follows the edges one after the other into a topology,
    looks the anchor up, measures the nodes, and hands its points out along the nodes.  None of it
    gives an engine more than the scene of the graph holds.

    * `edges_ofGraph` : the topology joins what the arrows of the scene join, in the same order.
    * `anchorIndex_ofGraph` : the node that is chosen is the hub of the scene.
    * `layout_of_points` : an engine that finds the points of the scene computes the layout. -/

namespace DotLayout.Layout.Engine

open Numeric

/-- The edge structure of a graph: so many nodes, and the pairs of nodes that are joined, each pair
    once, in the order in which they were joined first. -/
structure Topology where
  count : Nat
  edges : List (Nat × Nat)
  nodup : edges.Nodup

namespace Topology

/-- Joins two nodes, unless they are joined already. -/
def updateEdge (t : Topology) (source target : Nat) : Topology :=
  if h : (source, target) ∈ t.edges then t
  else
    { t with
      edges := t.edges ++ [(source, target)]
      nodup := by simpa using t.nodup.concat h }

/-- Follows an edge of a graph.  A self loop is left out, and so is an edge whose source or target
    is missing. -/
def follow (g : Graph) (t : Topology) (e : Edge) : Topology :=
  if e.isSelfLoop then t
  else
    match g.indexOf? e.source, g.indexOf? e.target with
    | some source, some target => t.updateEdge source target
    | _, _ => t

/-- The topology of a graph, made by following its edges one after the other. -/
def ofGraph (g : Graph) : Topology := g.edges.foldl (follow g) ⟨g.nodes.length, [], List.nodup_nil⟩

/-- The targets of the edges out of a node, the newest edge first. -/
def successors (t : Topology) (i : Nat) : List Nat :=
  (t.edges.filter fun e => e.1 == i).reverse.map Prod.snd

/-- The sources of the edges into a node, the newest edge first. -/
def predecessors (t : Topology) (i : Nat) : List Nat :=
  (t.edges.filter fun e => e.2 == i).reverse.map Prod.fst

/-- The nodes without an edge into them, in order. -/
def externals (t : Topology) : List Nat :=
  (List.range t.count).filter fun i => (t.predecessors i).isEmpty

/-- The number of neighbours of a node, in both directions. -/
def degree (t : Topology) (i : Nat) : Nat := (t.successors i).length + (t.predecessors i).length

end Topology

/-- The node that is given the first place: the anchor, or else the first node with the largest
    degree. -/
def anchorIndex (g : Graph) (t : Topology) (p : Params) : Option Nat :=
  match p.anchor.bind g.indexOf? with
  | some i => some i
  | none =>
    ((List.range t.count).foldl
      (fun (best : Option (Nat × Nat)) i => match best with
        | some (b, most) => if t.degree i ≤ most then some (b, most) else some (i, t.degree i)
        | none => some (i, t.degree i))
      none).map Prod.fst

/-- The space between nodes side by side: as much as is asked for, and as much as the widest node
    needs with its padding. -/
def minSpacing (g : Graph) (p : Params) : Float32 :=
  larger p.spacing ((g.nodes.foldl (fun widest n => larger widest n.size.width) 0) + p.padding)

/-- The space between nodes one above the other. -/
def rankSpacing (g : Graph) (p : Params) : Float32 :=
  larger p.rankSpacing
    ((g.nodes.foldl (fun tallest n => larger tallest n.size.height) 0) + p.padding)

/-- Hands out points along the nodes. -/
def collect (g : Graph) (points : List Point) : Positions :=
  .ofList ((g.nodes.zip points).map fun (n, point) => (n.id, point))

variable {g : Graph} {p : Params}

/-! ## The topology is the arrows of the scene -/

/-- Following an edge joins the ends of its arrow, if it has one. -/
theorem follow_of_arrow? {t : Topology} {e : Edge} :
    t.follow g e = match arrow? g e with
      | some (source, target) => t.updateEdge source target
      | none => t := by
  unfold Topology.follow
  by_cases hloop : e.source = e.target
  · -- the ends of a self loop have the same number, if they have one
    have hself : e.isSelfLoop = true := beq_iff_eq.2 hloop
    have hnone : arrow? g e = none := by
      refine Option.eq_none_iff_forall_ne_some.2 ?_
      rintro ⟨i, j⟩ h
      obtain ⟨hsource, htarget, hne⟩ := arrow?_eq_some_iff.1 h
      rw [hloop] at hsource
      exact hne (Option.some.inj (hsource.symm.trans htarget))
    rw [if_pos hself, hnone]
  · have hself : ¬ e.isSelfLoop = true := fun h => hloop (beq_iff_eq.1 h)
    rw [if_neg hself]
    cases hsource : g.indexOf? e.source with
    | none => simp [arrow?, hsource]
    | some source =>
      cases htarget : g.indexOf? e.target with
      | none => simp [arrow?, hsource, htarget]
      | some target =>
        have hne : source ≠ target := by
          rintro rfl
          exact hloop (Graph.indexOf?_inj hsource htarget)
        rw [arrow?_eq_some_iff.2 ⟨hsource, htarget, hne⟩]

/-- Following edges keeps the number of nodes. -/
theorem count_foldl_follow (edges : List Edge) (t : Topology) :
    (edges.foldl (Topology.follow g) t).count = t.count := by
  induction edges generalizing t with
  | nil => rfl
  | cons e edges ih =>
    rw [List.foldl_cons, ih, follow_of_arrow?]
    split
    · rw [Topology.updateEdge]
      split <;> rfl
    · rfl

theorem count_topology (g : Graph) : (Topology.ofGraph g).count = g.nodes.length :=
  count_foldl_follow ..

/-- Following edges collects their arrows, each of them once. -/
theorem edges_foldl_follow (edges : List Edge) (count : Nat) :
    (edges.foldl (Topology.follow g) ⟨count, [], List.nodup_nil⟩).edges
      = (edges.filterMap (arrow? g)).eraseDups := by
  -- from the last edge backwards: what was joined before is joined in its order
  induction edges using List.reverseRecOn with
  | nil => rfl
  | append_singleton edges e ih =>
    rw [List.foldl_append, List.foldl_cons, List.foldl_nil, follow_of_arrow?,
      List.filterMap_append]
    cases harrow : arrow? g e with
    | none => simp [harrow, ih]
    | some arrow =>
      obtain ⟨source, target⟩ := arrow
      have hone : [e].filterMap (arrow? g) = [(source, target)] := by
        rw [List.filterMap_cons_some harrow, List.filterMap_nil]
      rw [hone, eraseDups_concat]
      simp only [Topology.updateEdge, ih, List.contains_iff_mem, List.mem_eraseDups]
      split
      · exact ih
      · rfl

/-- The topology of a graph has the arrows of its scene, in the same order. -/
theorem edges_ofGraph (g : Graph) (p : Params) :
    (Topology.ofGraph g).edges = (Scene.ofGraph g p).arrows :=
  edges_foldl_follow ..

/-! ## Degrees and the hub -/

/-- In a list of pairs of different nodes, no pair is counted for both of its sides. -/
theorem countP_ends {l : List (Nat × Nat)} (h : ∀ e ∈ l, e.1 ≠ e.2) (i : Nat) :
    l.countP (fun e => e.1 == i) + l.countP (fun e => e.2 == i)
      = l.countP fun e => e.1 == i || e.2 == i := by
  induction l with
  | nil => rfl
  | cons e l ih =>
    have hrest := ih fun e' he' => h e' (List.mem_cons_of_mem e he')
    have hne := h e List.mem_cons_self
    simp only [List.countP_cons, Bool.or_eq_true, beq_iff_eq]
    split <;> split <;> split <;> omega

/-- A node has the same degree in the topology as in the scene. -/
theorem degree_ofGraph (g : Graph) (p : Params) (i : Nat) :
    (Topology.ofGraph g).degree i = (Scene.ofGraph g p).degree i := by
  simp only [Topology.degree, Topology.successors, Topology.predecessors, List.length_map,
    List.length_reverse, ← List.countP_eq_length_filter, edges_ofGraph g p]
  refine countP_ends ?_ i
  rintro ⟨source, target⟩ h
  exact (mem_arrows_ofGraph.1 h).1

/-- Remembering the degree of the best node so far makes no difference. -/
theorem foldl_busiest (s : Scene) (nodes : List Nat) (best : Option Nat) :
    (nodes.foldl
      (fun (best : Option (Nat × Nat)) i => match best with
        | some (b, most) => if s.degree i ≤ most then some (b, most) else some (i, s.degree i)
        | none => some (i, s.degree i))
      (best.map fun b => (b, s.degree b))).map Prod.fst
    = nodes.foldl
      (fun best i => match best with
        | some b => if s.degree i ≤ s.degree b then some b else some i
        | none => some i)
      best := by
  induction nodes generalizing best with
  | nil => cases best <;> rfl
  | cons i nodes ih =>
    simp only [List.foldl_cons]
    cases best with
    | none => exact ih (some i)
    | some b =>
      by_cases h : s.degree i ≤ s.degree b
      · simp only [Option.map_some, if_pos h]
        exact ih (some b)
      · simp only [Option.map_some, if_neg h]
        exact ih (some i)

/-- The node that is given the first place is the hub of the scene. -/
theorem anchorIndex_ofGraph (g : Graph) (p : Params) :
    anchorIndex g (Topology.ofGraph g) p = (Scene.ofGraph g p).hub? := by
  have hanchor : (Scene.ofGraph g p).anchor = p.anchor.bind g.indexOf? := rfl
  rw [anchorIndex, Scene.hub?, hanchor]
  cases p.anchor.bind g.indexOf? with
  | some i => rfl
  | none =>
    simp only [degree_ofGraph g p, count_topology, Option.none_or]
    rw [count_ofGraph]
    exact foldl_busiest (Scene.ofGraph g p) (List.range g.nodes.length) none

/-! ## Measures and positions -/

/-- The space between nodes is the same for the engines as for the scene. -/
theorem minSpacing_eq (g : Graph) (p : Params) : minSpacing g p = (Scene.ofGraph g p).spacing := by
  rw [minSpacing, Scene.spacing, Measures.minSpacing, clearSpace, Scene.ofGraph, List.map_map,
    List.foldl_map]
  rfl

/-- The space between rows is the same for the engines as for the scene. -/
theorem rankSpacing_eq (g : Graph) (p : Params) :
    rankSpacing g p = (Scene.ofGraph g p).rankSpacing := by
  rw [rankSpacing, Scene.rankSpacing, Measures.minRankSpacing, clearSpace, Scene.ofGraph,
    List.map_map, List.foldl_map]
  rfl

/-- Collecting points gives every id the point with its number. -/
theorem collect_eq (g : Graph) (points : List Point) :
    collect g points = .ofList (g.ids.zip points) := by
  rw [collect, Graph.ids, List.zip_map_left]
  rfl

theorem collect_nil (g : Graph) : collect g [] = {} := by
  rw [collect, List.zip_nil_right]
  rfl

/-- An engine that finds the points of the scene computes the layout. -/
theorem layout_of_points {algorithm : Algorithm} {points : List Point}
    (h : algorithm.points (.ofGraph g p) = .ok points) :
    algorithm.layout g p = .ok (collect g points) := by
  rw [Algorithm.layout, h, collect_eq]
  rfl

/-- A layout of a scene without points has no positions. -/
theorem layout_of_no_points {algorithm : Algorithm}
    (h : algorithm.points (.ofGraph g p) = .ok []) : algorithm.layout g p = .ok {} := by
  rw [layout_of_points h, collect_nil]

end DotLayout.Layout.Engine
