import DotLayout.Proofs.Layout.Rows

/-! # Layouts that do not depend on the order of edges

    The circular and the hierarchical layout look at the arrows of a scene, but not at their order.

    * The hub of the circular layout depends on degrees, which count arrows.
    * The hierarchical layout asks which arrows there are: `points_of_arrows` follows this through
      the roots, the levels and the children of every node that is visited.
    * `perm_arrows` : edges in another order give the same arrows in another order. -/

namespace DotLayout.Layout

open Numeric

/-! ## The circular layout -/

namespace Circular

/-- Degrees count arrows, so their order does not matter. -/
theorem degree_of_perm {s : Scene} {arrows : List (Nat × Nat)} (h : s.arrows.Perm arrows) :
    Scene.degree { s with arrows := arrows } = s.degree := by
  funext i
  exact (h.countP_eq _).symm

/-- Where arrows come in another order, the circular layout gives the same points. -/
theorem points_of_perm {s : Scene} {arrows : List (Nat × Nat)} (h : s.arrows.Perm arrows) :
    points { s with arrows := arrows } = points s := by
  have hhub : Scene.hub? { s with arrows := arrows } = s.hub? := by
    rw [Scene.hub?, Scene.hub?, Scene.busiest?, Scene.busiest?, degree_of_perm h]
    rfl
  rw [points, points, hhub]
  rfl

end Circular

/-! ## The hierarchical layout -/

namespace Hierarchical

variable {s : Scene} {arrows : List (Nat × Nat)} (h : ∀ a, a ∈ s.arrows ↔ a ∈ arrows)

include h

/-- The roots are the same if the same arrows are there. -/
theorem roots_of_arrows : roots { s with arrows := arrows } = roots s := by
  have hany : ∀ i, (arrows.any fun a => a.2 == i) = s.arrows.any fun a => a.2 == i := by
    intro i
    rw [Bool.eq_iff_iff, List.any_eq_true, List.any_eq_true]
    simp only [h]
  rw [roots, roots]
  simp only [hany]
  rfl

/-- The levels are the same if the same arrows are there. -/
theorem levelsOf_of_arrows : levelsOf { s with arrows := arrows } = levelsOf s := by
  rw [levelsOf, levelsOf, roots_of_arrows h]
  exact levels_congr (fun _ => Iff.rfl) fun a => (h a).symm

/-- A node has the same children if the same arrows are there. -/
theorem children_of_arrows (levels : Levels) (placed : Placed) (parent : Nat) :
    children { s with arrows := arrows } levels placed parent
      = children s levels placed parent := by
  have htargets : ∀ i, (targetsOf { s with arrows := arrows } parent).contains i
      = (targetsOf s parent).contains i := by
    intro i
    rw [Bool.eq_iff_iff, List.contains_iff_mem, List.contains_iff_mem, mem_targetsOf,
      mem_targetsOf]
    exact (h _).symm
  rw [children, children]
  simp only [htargets]
  rfl

/-- Visiting nodes in turn gives the same places if the same arrows are there. -/
theorem visit_of_arrows (levels : Levels) (queue : List Nat) (placed : Placed) :
    visit { s with arrows := arrows } levels queue placed = visit s levels queue placed := by
  -- along the run of the one scene, the other one makes the same visits
  fun_induction visit s levels queue placed with
  | case1 placed => rw [visit]
  | case2 placed parent queue hnone ih => rw [visit, hnone, ih]
  | case3 placed parent queue p hp below start ih =>
    rw [visit, hp, children_of_arrows h]
    exact ih

/-- The hierarchical layout gives the same points if the same arrows are there. -/
theorem points_of_arrows : points { s with arrows := arrows } = points s := by
  have htree : tree { s with arrows := arrows } = tree s := by
    rw [tree, levelsOf_of_arrows h, roots_of_arrows h, visit_of_arrows h]
    rfl
  rw [points, points, htree, levelsOf_of_arrows h]
  rfl

end Hierarchical

/-! ## Edges in another order -/

variable {g g' : Graph} {p : Params}

/-- Edges between the same ends in another order give the same arrows in another order. -/
theorem perm_arrows (hids : g.ids = g'.ids) (hends : g.ends.Perm g'.ends) :
    (Scene.ofGraph g p).arrows.Perm (Scene.ofGraph g' p).arrows := by
  refine (List.perm_ext_iff_of_nodup (arrows_nodup g p) (arrows_nodup g' p)).2 ?_
  rintro ⟨i, j⟩
  rw [mem_arrows_ofGraph, mem_arrows_ofGraph]
  exact Graph.leads_congr hids fun e => hends.mem_iff

/-- Graphs with the same ids and sizes have the same scene, its arrows apart. -/
theorem ofGraph_of_ids (hids : g.ids = g'.ids)
    (hsizes : g.nodes.map Node.size = g'.nodes.map Node.size) :
    Scene.ofGraph g' p = { Scene.ofGraph g p with arrows := (Scene.ofGraph g' p).arrows } := by
  simp only [Scene.ofGraph, hsizes, Graph.indexOf?_congr hids]

/-- **The order of edges does not matter** to the circular and the hierarchical layout: two graphs
    with the same ids and sizes in the same order, and with edges between the same ends in any
    order, get the same positions.  The ids of edges may differ, since they count the edges that
    were there before. -/
theorem layout_of_edges_perm
    (hnodes : (g.nodes.map fun n => (n.id, n.size)) = g'.nodes.map fun n => (n.id, n.size))
    (hends : (g.edges.map fun e => (e.source, e.target)).Perm
      (g'.edges.map fun e => (e.source, e.target))) (p : Params) :
    (∃ positions, Algorithm.circular.layout g p = .ok positions ∧
      Algorithm.circular.layout g' p = .ok positions) ∧
    ∃ positions, Algorithm.hierarchical.layout g p = .ok positions ∧
      Algorithm.hierarchical.layout g' p = .ok positions := by
  have hids : g.ids = g'.ids := by
    simpa [Graph.ids, Function.comp_def] using congrArg (List.map Prod.fst) hnodes
  have hsizes : g.nodes.map Node.size = g'.nodes.map Node.size := by
    simpa [Function.comp_def] using congrArg (List.map Prod.snd) hnodes
  have hperm := perm_arrows (p := p) hids hends
  -- circles use how many arrows a node has, hierarchies only which ones there are
  have hcircular : Circular.points (.ofGraph g' p) = Circular.points (.ofGraph g p) := by
    rw [ofGraph_of_ids hids hsizes]
    exact Circular.points_of_perm hperm
  have hhierarchical :
      Hierarchical.points (.ofGraph g' p) = Hierarchical.points (.ofGraph g p) := by
    rw [ofGraph_of_ids hids hsizes]
    exact Hierarchical.points_of_arrows fun a => hperm.mem_iff
  refine ⟨⟨.ofList (g.ids.zip (Circular.points (.ofGraph g p))), rfl, ?_⟩,
    .ofList (g.ids.zip (Hierarchical.points (.ofGraph g p))), rfl, ?_⟩
  · rw [Algorithm.layout, Algorithm.points, hcircular, ← hids]
    rfl
  · rw [Algorithm.layout, Algorithm.points, hhierarchical, ← hids]
    rfl

/-- Three nodes that are joined by some edges. -/
def threeNodes (edges : List (String × String)) : Graph :=
  edges.foldl (fun g e => g.connect e.1 e.2 {} .curved)
    (["a", "b", "c"].foldl Graph.ensureNode (.empty true none))

/-- A shortcut that is drawn first or last changes the ids of the edges, but no position. -/
theorem layout_of_edges_perm_shortcut :
    let g := threeNodes [("a", "b"), ("a", "c"), ("c", "b")]
    let g' := threeNodes [("c", "b"), ("a", "c"), ("a", "b")]
    (g.nodes.map fun n => (n.id, n.size)) = (g'.nodes.map fun n => (n.id, n.size)) ∧
      (g.edges.map fun e => (e.source, e.target)).Perm
        (g'.edges.map fun e => (e.source, e.target)) ∧
      (∃ positions, Algorithm.circular.layout g {} = .ok positions ∧
        Algorithm.circular.layout g' {} = .ok positions) ∧
      ∃ positions, Algorithm.hierarchical.layout g {} = .ok positions ∧
        Algorithm.hierarchical.layout g' {} = .ok positions := by
  intro g g'
  have hnodes : (g.nodes.map fun n => (n.id, n.size)) = g'.nodes.map fun n => (n.id, n.size) := rfl
  have hends : (g.edges.map fun e => (e.source, e.target)).Perm
      (g'.edges.map fun e => (e.source, e.target)) := by decide
  exact ⟨hnodes, hends, layout_of_edges_perm hnodes hends {}⟩

end DotLayout.Layout
