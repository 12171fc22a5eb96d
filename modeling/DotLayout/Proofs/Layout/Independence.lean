import DotLayout.Proofs.Layout.Engine.Formula
import DotLayout.Proofs.Layout.Engine.Placer
import DotLayout.Proofs.Layout.Engine.RingTable
import DotLayout.Proofs.Layout.Engine.Simulation
import DotLayout.Proofs.Layout.Ranks

/-! # What a layout depends on

    A layout depends on the sizes of the nodes in order, on the links between them, on the measures
    and on the number of the anchor, and on nothing else.

    The layouts over scenes cannot look at anything else.  The engines could: each of them works on
    the graph itself, with its ids, its raw edges and its old positions.  So the layouts are taken
    as the engines compute them.

    * `layout_eq_engine` : the engines compute the layouts.
    * `scene_of_links` : graphs that agree in what a layout may use have the same scene.
    * `layout_applyPositions` : old positions are not used, so that a layout can be repeated. -/

namespace DotLayout.Layout

open Numeric

variable {g g' : Graph} {p p' : Params}

/-- The layout of a graph as the engines compute it. -/
def Engine.layout (algorithm : Algorithm) (g : Graph) (p : Params) : Except ClampFault Positions :=
  match algorithm with
  | .circular => .ok (circular g p)
  | .grid => .ok (grid g p)
  | .hierarchical => .ok (hierarchical g p)
  | .forceDirected => forceDirected g p
  | .radial => .ok (radial g p)

/-- Every layout is computed by its engine. -/
theorem layout_eq_engine (algorithm : Algorithm) (g : Graph) (p : Params) :
    algorithm.layout g p = Engine.layout algorithm g p := by
  cases algorithm with
  | circular => exact Engine.circular_eq g p
  | grid => exact Engine.grid_eq g p
  | hierarchical => exact Engine.hierarchical_eq g p
  | forceDirected => exact Engine.forceDirected_eq g p
  | radial => exact Engine.radial_eq g p

/-- The points of some positions, in order. -/
def pointsOf (positions : Positions) : List Point := positions.entries.map Prod.snd

/-! ## One scene, one list of points -/

/-- Graphs with the same sizes and links have the same scene, if the measures and the anchor
    agree. -/
theorem scene_of_links (hsizes : g.nodes.map Node.size = g'.nodes.map Node.size)
    (hlinks : g.links.eraseDups = g'.links.eraseDups) (hmeasures : p.toMeasures = p'.toMeasures)
    (hanchor : p.anchor.bind g.indexOf? = p'.anchor.bind g'.indexOf?) :
    Scene.ofGraph g p = Scene.ofGraph g' p' := by
  have harrows : (g.edges.filterMap (arrow? g)).eraseDups
      = (g'.edges.filterMap (arrow? g')).eraseDups := hlinks
  rw [Scene.ofGraph, Scene.ofGraph, hsizes, harrows, hmeasures, hanchor]

/-- The points of a layout are those of the scene, under the ids of the nodes. -/
theorem layout_eq_ok {algorithm : Algorithm} {positions : Positions}
    (h : algorithm.layout g p = .ok positions) :
    algorithm.points (.ofGraph g p) = .ok (pointsOf positions) ∧ positions.keys = g.ids := by
  cases hpoints : algorithm.points (.ofGraph g p) with
  | error fault =>
    rw [layout_eq_error_iff.2 hpoints] at h
    exact nomatch h
  | ok points =>
    obtain ⟨positions', hlayout, hentries⟩ := entries_layout hpoints
    obtain rfl := Except.ok.inj (hlayout.symm.trans h)
    have hlen : g.ids.length = points.length := by
      rw [length_points hpoints, count_ofGraph, Graph.length_ids]
    rw [pointsOf, OrderedMap.keys, hentries, List.map_snd_zip (Nat.le_of_eq hlen.symm),
      List.map_fst_zip (Nat.le_of_eq hlen)]
    exact ⟨rfl, rfl⟩

/-- The positions of a layout are the points of its scene. -/
theorem map_pointsOf_layout (algorithm : Algorithm) (g : Graph) (p : Params) :
    (algorithm.layout g p).map pointsOf = algorithm.points (.ofGraph g p) := by
  cases h : algorithm.layout g p with
  | error fault => exact (layout_eq_error_iff.1 h).symm
  | ok positions => exact (layout_eq_ok h).1.symm

/-! ## Layouts of graphs that are laid out -/

/-- Applying positions twice is applying them once. -/
theorem applyPositions_idem (g : Graph) (positions : Positions) :
    (g.applyPositions positions).applyPositions positions = g.applyPositions positions := by
  simp only [Graph.applyPositions, Graph.mapNodes, List.map_map, Graph.mk.injEq, true_and, and_true]
  refine List.map_congr_left fun n _ => ?_
  cases h : positions.get? n.id <;> simp [h]

/-- Old positions do not influence a layout. -/
theorem layout_applyPositions (algorithm : Algorithm) (g : Graph) (positions : Positions)
    (p : Params) : algorithm.layout (g.applyPositions positions) p = algorithm.layout g p := by
  have hids : (g.applyPositions positions).ids = g.ids := by
    simp only [Graph.ids, Graph.applyPositions, Graph.mapNodes, List.map_map]
    refine List.map_congr_left fun n _ => ?_
    cases h : positions.get? n.id <;> simp [h]
  have hsizes : (g.applyPositions positions).nodes.map Node.size = g.nodes.map Node.size := by
    simp only [Graph.applyPositions, Graph.mapNodes, List.map_map]
    refine List.map_congr_left fun n _ => ?_
    cases h : positions.get? n.id <;> simp [h]
  have hends : (g.applyPositions positions).ends = g.ends := rfl
  rw [Algorithm.layout, Algorithm.layout, ofGraph_congr hids hsizes hends, hids]

/-- **A layout depends on little.**  Let two graphs have nodes of the same sizes in the same order,
    and the same links between the nodes by number: the edges that are no self loops and have both
    of their ends, each pair of nodes once, in the order in which the pairs first appear.  Let the
    measures be the same, and the anchors stand for the same number or for none.  Then every
    algorithm gives both graphs the same points node by node, or fails for both in the same way.

    The layouts are those that the engine computes from the whole graphs; every node has a point,
    and to lay out a graph a second time changes nothing. -/
theorem layout_of_links (hsizes : g.nodes.map Node.size = g'.nodes.map Node.size)
    (hlinks : g.links.eraseDups = g'.links.eraseDups) (hmeasures : p.toMeasures = p'.toMeasures)
    (hanchor : p.anchor.bind g.indexOf? = p'.anchor.bind g'.indexOf?) (algorithm : Algorithm) :
    (algorithm.layout g p).map pointsOf = (algorithm.layout g' p').map pointsOf ∧
    algorithm.layout g p = Engine.layout algorithm g p ∧
    algorithm.layout g' p' = Engine.layout algorithm g' p' ∧
    ∀ positions, algorithm.layout g p = .ok positions →
      positions.keys = g.ids ∧
      algorithm.layout (g.applyPositions positions) p = .ok positions ∧
      (g.applyPositions positions).applyPositions positions = g.applyPositions positions := by
  refine ⟨?_, layout_eq_engine algorithm g p, layout_eq_engine algorithm g' p', ?_⟩
  · rw [map_pointsOf_layout, map_pointsOf_layout, scene_of_links hsizes hlinks hmeasures hanchor]
  · intro positions h
    exact ⟨(layout_eq_ok h).2, (layout_applyPositions ..).trans h, applyPositions_idem g positions⟩

/-- A chain of three nodes, and the same chain under other names: with an old position, labels on
    directed edges, an edge that is there twice, a self loop, and an edge into the void. -/
def plainChain : Graph :=
  [("a", "b"), ("b", "c")].foldl (fun g e => g.connect e.1 e.2 {} .curved) (.empty false none)

def wornChain : Graph :=
  let g : Graph := [("x", "x"), ("x", "y"), ("z", "x"), ("y", "z"), ("x", "y")].foldl
    (fun g e => g.connect e.1 e.2 { label := some "again" } .orthogonal) (.empty true (some "worn"))
  (g.setPosition "y" ⟨7, 8⟩).replaceEdge 2 ⟨"lost", "z", "w", {}, .curved⟩

/-- Both chains have the same layouts around their second node, which has another name in each. -/
theorem layout_of_links_chains :
    let p : Params := { anchor := some "b" }
    let p' : Params := { anchor := some "y" }
    plainChain.nodes.map Node.size = wornChain.nodes.map Node.size ∧
      plainChain.links.eraseDups = wornChain.links.eraseDups ∧ p.toMeasures = p'.toMeasures ∧
      p.anchor.bind plainChain.indexOf? = p'.anchor.bind wornChain.indexOf? ∧
      ∀ algorithm : Algorithm,
        (algorithm.layout plainChain p).map pointsOf
          = (algorithm.layout wornChain p').map pointsOf ∧
        algorithm.layout plainChain p = Engine.layout algorithm plainChain p ∧
        algorithm.layout wornChain p' = Engine.layout algorithm wornChain p' ∧
        ∀ positions, algorithm.layout plainChain p = .ok positions →
          positions.keys = plainChain.ids ∧
          algorithm.layout (plainChain.applyPositions positions) p = .ok positions ∧
          (plainChain.applyPositions positions).applyPositions positions
            = plainChain.applyPositions positions := by
  intro p p'
  have hsizes : plainChain.nodes.map Node.size = wornChain.nodes.map Node.size := rfl
  have hlinks : plainChain.links.eraseDups = wornChain.links.eraseDups := by decide
  have hanchor : p.anchor.bind plainChain.indexOf? = p'.anchor.bind wornChain.indexOf? := by decide
  exact ⟨hsizes, hlinks, rfl, hanchor, layout_of_links hsizes hlinks rfl hanchor⟩

end DotLayout.Layout
