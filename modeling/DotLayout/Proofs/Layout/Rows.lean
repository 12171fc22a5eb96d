import DotLayout.Proofs.Layout.Ranks

/-! # Rows of the hierarchical layout

    The hierarchical layout has three ways of giving a node its place: as a root, as a child of a
    placed node, and in the columns of what is left over.  All three put the node into the row of
    its rank.

    * `OnRows` says so of all nodes that are placed; `onRows_place` is one step of the layout, and
      `onRows_tree` all of them.
    * `levelsOf_ofGraph` : the levels of a scene are those above the entrances of its graph. -/

namespace DotLayout.Layout.Hierarchical

open Numeric

variable {s : Scene} {levels : Levels} {placed : Placed}

/-! ## Every place is in its row -/

/-- Whether every node that has a place stands in its row. -/
def OnRows (s : Scene) (levels : Levels) (placed : Placed) : Prop :=
  ∀ i q, placed.at i = some q → q.y = rowY s (row levels i)

theorem at_set_of_ne {i j : Nat} (h : i ≠ j) (p : Point) :
    Placed.at (placed.set i (some p)) j = placed.at j := by
  rw [Placed.at, List.getElem?_set_ne h, Placed.at]

/-- A node that is placed stands where it was put. -/
theorem eq_of_at_set {i : Nat} {p q : Point}
    (h : Placed.at (placed.set i (some p)) i = some q) : q = p := by
  rw [Placed.at, List.getElem?_set_self'] at h
  cases hi : placed[i]? with
  | none => simp [hi] at h
  | some old =>
    rw [hi] at h
    exact (Option.some.inj h).symm

theorem at_replicate (count i : Nat) : Placed.at (List.replicate count none) i = none := by
  rw [Placed.at, List.getElem?_replicate]
  split <;> rfl

/-- Placing one node keeps all nodes in their rows. -/
theorem onRows_place (h : OnRows s levels placed) (i : Nat) (x : Float32) :
    OnRows s levels (place s levels placed i x) := by
  intro j q hq
  by_cases hij : i = j
  · subst hij
    rw [eq_of_at_set hq]
  · rw [place, at_set_of_ne hij] at hq
    exact h j q hq

/-- Placing some nodes side by side keeps all nodes in their rows. -/
theorem onRows_placeRow (h : OnRows s levels placed) (start : Float32) (nodes : List Nat) :
    OnRows s levels (placeRow s levels placed start nodes) := by
  unfold placeRow
  generalize nodes.zipIdx = slots
  induction slots generalizing placed with
  | nil => exact h
  | cons slot slots ih => exact ih (onRows_place h _ _)

/-- Placing the children of the nodes in a queue keeps all nodes in their rows. -/
theorem onRows_visit (queue : List Nat) (h : OnRows s levels placed) :
    OnRows s levels (visit s levels queue placed) := by
  fun_induction visit s levels queue placed with
  | case1 placed => exact h
  | case2 placed parent queue hnone ih => exact ih h
  | case3 placed parent queue p hp below start ih => exact ih (onRows_placeRow h start below)

/-- All nodes of the tree stand in their rows. -/
theorem onRows_tree (s : Scene) : OnRows s (levelsOf s) (tree s) := by
  refine onRows_visit _ (onRows_placeRow ?_ _ _)
  intro i q hq
  exact nomatch (at_replicate s.count i).symm.trans hq

/-- Every point of the layout is in the row of its node. -/
theorem y_of_points {i : Nat} {q : Point} (h : (points s)[i]? = some q) :
    q.y = rowY s (row (levelsOf s) i) := by
  obtain ⟨j, hj, rfl⟩ : ∃ j, (List.range s.count)[i]? = some j ∧
      ((tree s).at j).getD (leftOver s (levelsOf s) (tree s) j) = q := by
    simpa [points, List.getElem?_map] using h
  obtain rfl : i = j := by
    obtain ⟨_, hij⟩ := List.getElem?_eq_some_iff.1 hj
    simpa using hij
  cases hat : (tree s).at i with
  | none => rfl
  | some q => exact onRows_tree s i q hat

/-! ## Rows and ranks -/

/-- The roots are the nodes that no edge from another node leads to, or the first node. -/
theorem roots_ofGraph (g : Graph) (p : Params) : roots (.ofGraph g p) = g.entrances := by
  have hany : ∀ i, ((Scene.ofGraph g p).arrows.any fun a => a.2 == i)
      = g.links.any fun l => l.2 == i := by
    intro i
    rw [Bool.eq_iff_iff, List.any_eq_true, List.any_eq_true]
    simp only [Prod.exists, mem_arrows_ofGraph, Graph.mem_links]
  simp only [roots, Graph.entrances, hany, count_ofGraph]

/-- The levels of a scene are those above the entrances of its graph. -/
theorem levelsOf_ofGraph (g : Graph) (p : Params) :
    levelsOf (.ofGraph g p) = Layout.levels g.nodes.length g.entrances g.links := by
  rw [levelsOf, count_ofGraph, roots_ofGraph]
  refine levels_congr (fun _ => Iff.rfl) ?_
  rintro ⟨i, j⟩
  rw [mem_arrows_ofGraph, Graph.mem_links]

/-- **Rows follow ranks.**  On every graph, with cycles or without, the hierarchical layout places
    every node in the row of its rank, counted from the nodes that no edge from another node leads
    to, or from the first node if there is none.  If the edges between different nodes have no
    cycle, every such edge leads to a higher rank, and the rank of a node is the length of the
    longest path that leads to it from a node without incoming edges. -/
theorem hierarchical_rows (g : Graph) (p : Params) :
    (∃ positions, Algorithm.hierarchical.layout g p = .ok positions ∧
      ∀ i n, g.nodes[i]? = some n → ∃ q, positions.get? n.id = some q ∧
        q.y = p.center.y + ofCount (g.rank i) * p.minRankSpacing (g.nodes.map Node.size)) ∧
    (∀ i, i ∈ g.entrances ↔ g.IsEntrance i ∨ i = 0 ∧ ∀ j, ¬ g.IsEntrance j) ∧
    ((∀ i, ¬ Relation.TransGen g.Leads i i) →
      (∀ i j, g.Leads i j → g.rank i + 1 ≤ g.rank j) ∧
      ∀ i < g.nodes.length,
        IsGreatest {k | ∃ r, g.IsEntrance r ∧ Path g.Leads r k i} (g.rank i)) := by
  refine ⟨?_, fun i => Graph.mem_entrances, ?_⟩
  · have hpoints : Algorithm.hierarchical.points (.ofGraph g p) = .ok (points (.ofGraph g p)) := rfl
    obtain ⟨positions, hlayout, hentries⟩ := entries_layout hpoints
    refine ⟨positions, hlayout, ?_⟩
    intro i n hn
    have hi : i < (points (.ofGraph g p)).length := by
      rw [length_points hpoints, count_ofGraph]
      exact (List.getElem?_eq_some_iff.1 hn).1
    have hq := List.getElem?_eq_getElem hi
    refine ⟨_, get?_of_entries hentries hn hq, ?_⟩
    rw [y_of_points hq, levelsOf_ofGraph]
    rfl
  · intro hac
    exact ⟨fun i j => Graph.rank_lt_of_leads hac, fun i => Graph.rank_isGreatest hac⟩

end DotLayout.Layout.Hierarchical
