import DotLayout.Proofs.Layout.Cells
import DotLayout.Proofs.Layout.Hub
import DotLayout.Proofs.Layout.Limits
import DotLayout.Proofs.Layout.Rows
import DotLayout.Proofs.Numeric.Zeros

/-! # Graphs without nodes and with one

    No algorithm has anything to place in an empty graph, and all of them put a node on its own into
    the center.  They come to it in five ways: the node is the hub, it is alone in a grid, in a row
    or above all rings, or nothing pushes it.  What is left of the formulas for places are zeros,
    which change no number.

    * `IsLone` : a scene with one node, in which no arrow can lead anywhere.
    * `Centered` : the node of such a scene is in the center, as numbers tell.
    * `centered_grid`, `centered_hierarchical`, `centered_radial` and so on : so it is, by each
      algorithm; `centered_run` says it of all steps of a simulation.
    * `trivial_graphs` : what is true of all five. -/

namespace DotLayout

open Numeric

/-- A point that equals one inside a rectangle stays as it is. -/
theorem Bounds.clampPoint_self {b : Bounds} {p q : Point} (h : (p == q) = true)
    (hinside : b.contains q = true) : b.clampPoint p = .ok p := by
  obtain ⟨hx, hy⟩ := Point.beq_iff.1 h
  obtain ⟨⟨hlowX, hhighX⟩, hlowY, hhighY⟩ := contains_iff.1 hinside
  rw [clampPoint, clampBetween_self hx hlowX hhighX, clampBetween_self hy hlowY hhighY]
  rfl

/-- Zeros lead nowhere. -/
theorem Point.beq_add_zeros {p q : Point} {z : Float32} (hq : q.isFinite = true)
    (h : (p == q) = true) (hz : IsZero z) : (p + ⟨z, z⟩ == q) = true := by
  obtain ⟨hqx, hqy⟩ := Bool.and_eq_true_iff.1 hq
  obtain ⟨hx, hy⟩ := beq_iff.1 h
  have hsumX := beq_add_of_isZero (isFinite_of_beq hx hqx) hz
  have hsumY := beq_add_of_isZero (isFinite_of_beq hy hqy) hz
  exact beq_iff.2 ⟨Numeric.beq_trans hsumX hx, Numeric.beq_trans hsumY hy⟩

namespace Layout

variable {g : Graph} {p : Params} {s : Scene} {n : Node} {points : List Point}

/-! ## Scenes with one node -/

/-- A scene with one node and no arrows. -/
structure IsLone (s : Scene) : Prop where
  count : s.count = 1
  arrows : s.arrows = []

/-- In a graph with one node all edges are self loops or lead out of the graph. -/
theorem isLone_ofGraph (h : g.nodes = [n]) (p : Params) : IsLone (.ofGraph g p) where
  count := by rw [count_ofGraph, h, List.length_singleton]
  arrows := by
    refine List.eq_nil_iff_forall_not_mem.2 fun a ha => ?_
    have hleads := mem_arrows_ofGraph.1 ha
    have hleft := hleads.lt_left
    have hright := hleads.lt_right
    rw [h, List.length_singleton] at hleft hright
    exact hleads.1 (by omega)

/-- The only node of a graph is its hub. -/
theorem hub?_of_lone (h : g.nodes = [n]) (p : Params) : (Scene.ofGraph g p).hub? = some 0 := by
  obtain ⟨hub, hhub⟩ := exists_hub p (by rw [h]; exact List.cons_ne_nil _ _)
  have hlt := (isHub_of_hub? hhub).lt
  rw [h, List.length_singleton] at hlt
  obtain rfl := Nat.lt_one_iff.1 hlt
  exact hhub

/-- There is one point, and it is the center, up to the signs of zeros. -/
def Centered (s : Scene) (points : List Point) : Prop :=
  ∃ q, points = [q] ∧ (q == s.measures.center) = true

/-- A point in a finite center is centered. -/
theorem centered_center (hcenter : s.measures.center.isFinite = true) :
    Centered s [s.measures.center] :=
  ⟨_, rfl, (Point.IsNumber.of_isFinite hcenter).beq_self⟩

/-- No cells take no room. -/
theorem isZero_ofCount_mul {x : Float32} (h : x.isFinite = true) : IsZero (ofCount 0 * x) := by
  rw [ofCount_zero]
  exact isZero_zero_mul h

/-! ## Formulas -/

/-- On a circle a lone node is in the center. -/
theorem centered_circular (h : g.nodes = [n]) (hcenter : p.center.isFinite = true) :
    Centered (.ofGraph g p) (Circular.points (.ofGraph g p)) := by
  have hpoints : Circular.points (.ofGraph g p) = [p.center] := by
    rw [Circular.points, hub?_of_lone h, (isLone_ofGraph h p).count]
    rfl
  rw [hpoints]
  exact centered_center hcenter

/-- In a grid a lone node is in the center. -/
theorem centered_grid (h : IsLone s) (hcenter : s.measures.center.isFinite = true)
    (hspacing : s.spacing.isFinite = true) : Centered s (Grid.points s) := by
  obtain ⟨hx, hy⟩ := Bool.and_eq_true_iff.1 hcenter
  have hcolumns : Grid.columns s.measures.gridColumns 1 = 1 := by
    obtain ⟨hpos, hle⟩ := Grid.columns_bounds s.measures.gridColumns Nat.one_ne_zero
    exact Nat.le_antisymm hle hpos
  have hzero := isZero_ofCount_mul hspacing
  rw [Grid.points, h.count, hcolumns]
  exact ⟨_, rfl, Point.beq_iff.2 ⟨beq_sub_add hx hzero.half hzero, beq_sub_add hy hzero.half hzero⟩⟩

/-! ## Levels -/

/-- A node on its own is on the first level. -/
theorem levels_lone : levels 1 [0] [] = #[some 0] := by decide +kernel

theorem roots_lone (h : IsLone s) : Hierarchical.roots s = [0] := by
  rw [Hierarchical.roots, h.count, h.arrows]
  rfl

/-- A lone node has no children. -/
theorem children_lone (h : IsLone s) (levels : Levels) (placed : Hierarchical.Placed) :
    Hierarchical.children s levels placed 0 = [] := by
  have htargets : Hierarchical.targetsOf s 0 = [] := by
    rw [Hierarchical.targetsOf, h.arrows]
    rfl
  rw [Hierarchical.children, htargets]
  exact List.filter_eq_nil_iff.2 fun i _ => by simp

/-- In the tree a lone node is in the center. -/
theorem centered_hierarchical (h : IsLone s) (hcenter : s.measures.center.isFinite = true)
    (hspacing : s.spacing.isFinite = true) (hrank : s.rankSpacing.isFinite = true) :
    Centered s (Hierarchical.points s) := by
  obtain ⟨hx, hy⟩ := Bool.and_eq_true_iff.1 hcenter
  have hlevels : Hierarchical.levelsOf s = #[some 0] := by
    rw [Hierarchical.levelsOf, roots_lone h, h.count, h.arrows, levels_lone]
  have hzero := isZero_ofCount_mul hspacing
  let q : Point := ⟨s.measures.center.x - Hierarchical.halfRow s 1 + ofCount 0 * s.spacing,
    Hierarchical.rowY s 0⟩
  have htree : Hierarchical.tree s = [some q] := by
    rw [Hierarchical.tree, roots_lone h, hlevels, h.count]
    show Hierarchical.visit s #[some 0] [0] [some q] = _
    rw [Hierarchical.visit]
    show Hierarchical.visit s #[some 0] ([] ++ Hierarchical.children s _ _ 0)
      (Hierarchical.placeRow s _ _ _ (Hierarchical.children s _ _ 0)) = _
    rw [children_lone h, List.append_nil, Hierarchical.visit]
    rfl
  have hpoints : Hierarchical.points s = [q] := by
    rw [Hierarchical.points, htree, hlevels, h.count]
    rfl
  have hbeqX : (q.x == s.measures.center.x) = true := beq_sub_add hx hzero.half hzero
  have hbeqY : (q.y == s.measures.center.y) = true :=
    beq_add_of_isZero hy (isZero_ofCount_mul hrank)
  exact ⟨q, hpoints, Point.beq_iff.2 ⟨hbeqX, hbeqY⟩⟩

/-- No node is left for the rings. -/
theorem spots_lone (h : IsLone s) : Radial.spots s 0 = [none] := by
  have hmembers : Radial.membersOf (Radial.rings #[some 0]) 1 = [] := by decide +kernel
  rw [Radial.spots, h.count, h.arrows, levels_lone]
  show Radial.fillRing s [none] 1 (Radial.membersOf (Radial.rings #[some 0]) 1) = [none]
  rw [hmembers, Radial.fillRing, Radial.ordered, List.map_nil, List.mergeSort_nil, List.map_nil]
  rfl

/-- On rings a lone node is in the center. -/
theorem centered_radial (h : g.nodes = [n]) (hcenter : p.center.isFinite = true) :
    Centered (.ofGraph g p) (Radial.points (.ofGraph g p)) := by
  have hlone := isLone_ofGraph h p
  have hpoints : Radial.points (.ofGraph g p) = [p.center] := by
    rw [Radial.points, hub?_of_lone h]
    dsimp only
    rw [spots_lone hlone, hlone.count]
    rfl
  rw [hpoints]
  exact centered_center hcenter

/-! ## A simulation -/

section Simulation

open ForceDirected

variable {f : Field} {q : Point}

/-- Nothing pushes or pulls a node on its own. -/
theorem velocity_lone (harrows : f.arrows = []) (q : Point) : velocity f [q] 0 q = .origin := by
  rw [velocity, harrows]
  rfl

/-- Without a velocity a node goes nowhere, or the damping leaves no number to go by. -/
theorem way_origin (hstep : 0 ≤ f.maxStep) (hfinite : (way f .origin).isFinite = true) :
    ∃ z, IsZero z ∧ way f .origin = ⟨z, z⟩ := by
  have hdamped : Point.origin.scale f.damping = ⟨0 * f.damping, 0 * f.damping⟩ := rfl
  obtain ⟨hnumber, hrank⟩ := nonneg_iff.1 hstep
  rw [way, hdamped] at hfinite ⊢
  cases hdamping : f.damping.isFinite with
  | false =>
    -- nothing is below what is no number
    have hlength : ¬ f.maxStep < Point.length ⟨notANumber, notANumber⟩ := by
      rw [lt_iff]
      exact fun h => absurd h.1.2 (by decide +kernel)
    rw [zero_mul_eq_notANumber hdamping, if_neg hlength] at hfinite
    exact absurd hfinite (by decide +kernel)
  | true =>
    have hzero := isZero_zero_mul hdamping
    have hlength : ∀ {z}, IsZero z → Point.length ⟨z, z⟩ = 0 := by
      rintro z (rfl | rfl) <;> decide +kernel
    have hshort : ¬ f.maxStep < 0 := by
      rw [negative_iff]
      omega
    refine ⟨_, hzero, ?_⟩
    rw [hlength hzero, if_neg hshort]

/-- A step leaves a node on its own in the center. -/
theorem centered_move (harrows : f.arrows = []) (hstep : 0 ≤ f.maxStep)
    (hcenter : f.center.isFinite = true) (hinside : f.bounds.contains f.center = true)
    (hq : (q == f.center) = true) :
    ∃ r, move f [q] 0 q = .ok r ∧ (r == f.center) = true := by
  by_cases hstirs : Stirs f [q] 0 q
  · have hfinite := hstirs.2
    rw [velocity_lone harrows] at hfinite
    obtain ⟨z, hz, hway⟩ := way_origin hstep hfinite
    have hsum := Point.beq_add_zeros hcenter hq hz
    refine ⟨_, ?_, hsum⟩
    rw [move_of_stirs hstirs, velocity_lone harrows, hway]
    exact Bounds.clampPoint_self hsum hinside
  · refine ⟨_, move_of_not_stirs hstirs, ?_⟩
    split
    · exact (Point.IsNumber.of_isFinite hcenter).beq_self
    · exact hq

/-- So do any number of steps. -/
theorem centered_run (harrows : f.arrows = []) (hstep : 0 ≤ f.maxStep)
    (hcenter : f.center.isFinite = true) (hinside : f.bounds.contains f.center = true)
    (steps : Nat) (hq : (q == f.center) = true) :
    ∃ r, run f steps [q] = .ok [r] ∧ (r == f.center) = true := by
  induction steps generalizing q with
  | zero => exact ⟨q, rfl, hq⟩
  | succ steps ih =>
    obtain ⟨moved, hmove, hmoved⟩ := centered_move harrows hstep hcenter hinside hq
    have hall : step f [q] = .ok [moved] :=
      mapM_eq_ok_map (r := fun _ => moved) fun a ha => by
        obtain rfl := List.mem_singleton.1 ha
        exact hmove
    rw [run_succ, hall]
    exact ih hmoved

/-- The rectangle of a simulation has the center in it. -/
theorem inside_ofScene (hcenter : s.measures.center.isFinite = true) (hspacing : 0 ≤ s.spacing)
    (hbounds : ∀ b, s.measures.bounds = some b → b.contains s.measures.center = true) :
    (Field.ofScene s).bounds.contains s.measures.center = true := by
  show (s.measures.bounds.getD (defaultBounds s)).contains s.measures.center = true
  cases hgiven : s.measures.bounds with
  | some b => exact hbounds b hgiven
  | none => exact defaultBounds_contains hcenter hspacing

/-- In a simulation a lone node stays in the center. -/
theorem centered_forceDirected (h : IsLone s) (hcenter : s.measures.center.isFinite = true)
    (hspacing : 0 ≤ s.spacing)
    (hbounds : ∀ b, s.measures.bounds = some b → b.contains s.measures.center = true) :
    ∃ points, ForceDirected.points s = .ok points ∧ Centered s points := by
  have hstart : startPoints s = [s.measures.center] := by
    rw [startPoints, h.count]
    exact congrArg (· :: []) (if_pos (.inr rfl))
  obtain ⟨q, hrun, hq⟩ := centered_run (f := .ofScene s) h.arrows hspacing hcenter
    (inside_ofScene hcenter hspacing hbounds) s.measures.force.iterations
    (Point.IsNumber.of_isFinite hcenter).beq_self
  rw [ForceDirected.points, hstart]
  exact ⟨[q], hrun, q, rfl, hq⟩

end Simulation

/-! ## All algorithms -/

/-- A scene without nodes has no points. -/
theorem points_of_empty (h : s.count = 0) (algorithm : Algorithm) :
    algorithm.points s = .ok [] := by
  have hpoints : ∃ points, algorithm.points s = .ok points := by
    cases algorithm with
    | forceDirected =>
      have hstart : ForceDirected.startPoints s = [] := by
        rw [ForceDirected.startPoints, h]
        rfl
      refine ⟨[], ?_⟩
      show ForceDirected.points s = .ok []
      rw [ForceDirected.points, hstart]
      exact ForceDirected.run_of_step_eq rfl _
    | circular | grid | hierarchical | radial => exact ⟨_, rfl⟩
  obtain ⟨points, hpoints⟩ := hpoints
  obtain rfl : points = [] := List.length_eq_zero_iff.1 ((length_points hpoints).trans h)
  exact hpoints

/-- Every algorithm puts a lone node into the center. -/
theorem centered_points (algorithm : Algorithm) (h : g.nodes = [n])
    (hcenter : p.center.isFinite = true) (hspacing : (p.minSpacing [n.size]).isFinite = true)
    (hnonneg : 0 ≤ p.minSpacing [n.size]) (hrank : (p.minRankSpacing [n.size]).isFinite = true)
    (hbounds : ∀ b, p.bounds = some b → b.contains p.center = true) :
    ∃ points, algorithm.points (.ofGraph g p) = .ok points ∧ Centered (.ofGraph g p) points := by
  have hlone := isLone_ofGraph h p
  have hsizes : g.nodes.map Node.size = [n.size] := by rw [h, List.map_singleton]
  have hspace : (Scene.ofGraph g p).spacing = p.minSpacing [n.size] := congrArg p.minSpacing hsizes
  have hrankSpace : (Scene.ofGraph g p).rankSpacing = p.minRankSpacing [n.size] :=
    congrArg p.minRankSpacing hsizes
  rw [← hspace] at hspacing hnonneg
  rw [← hrankSpace] at hrank
  cases algorithm with
  | circular => exact ⟨_, rfl, centered_circular h hcenter⟩
  | grid => exact ⟨_, rfl, centered_grid hlone hcenter hspacing⟩
  | hierarchical => exact ⟨_, rfl, centered_hierarchical hlone hcenter hspacing hrank⟩
  | forceDirected => exact centered_forceDirected hlone hcenter hnonneg hbounds
  | radial => exact ⟨_, rfl, centered_radial h hcenter⟩

/-- **Nothing to place, and one node.**  All five algorithms give an empty graph no positions,
    whatever the measures are, and a graph with one node the center for it.  The node may have self
    loops, and there may be edges that lead out of the graph.  The center is to be finite and the
    space between nodes finite, side by side not negative, and given bounds are to have the center
    in them; anchor, columns, forces and rings may be anything. -/
theorem trivial_graphs (algorithm : Algorithm) (g : Graph) (p : Params) :
    (g.nodes = [] →
      ∃ positions, algorithm.layout g p = .ok positions ∧ positions.entries = []) ∧
    ∀ n, g.nodes = [n] → p.center.isFinite = true →
      (p.minSpacing [n.size]).isFinite = true → 0 ≤ p.minSpacing [n.size] →
      (p.minRankSpacing [n.size]).isFinite = true →
      (∀ b, p.bounds = some b → b.contains p.center = true) →
        ∃ positions q, algorithm.layout g p = .ok positions ∧
          positions.entries = [(n.id, q)] ∧ (q == p.center) = true := by
  constructor
  · intro hempty
    have hcount : (Scene.ofGraph g p).count = 0 := by rw [count_ofGraph, hempty, List.length_nil]
    obtain ⟨positions, hlayout, hentries⟩ := entries_layout (points_of_empty hcount algorithm)
    exact ⟨positions, hlayout, by rw [hentries, List.zip_nil_right]⟩
  · intro n h hcenter hspacing hnonneg hrank hbounds
    obtain ⟨points, hpoints, q, rfl, hq⟩ :=
      centered_points algorithm h hcenter hspacing hnonneg hrank hbounds
    obtain ⟨positions, hlayout, hentries⟩ := entries_layout hpoints
    refine ⟨positions, q, hlayout, ?_, hq⟩
    rw [hentries, Graph.ids, h]
    rfl

/-- A node that is joined to nothing but itself. -/
def recluse : Graph := (Graph.empty true none).connect "a" "a" {} .curved

/-- A far center with a negative zero, no space between nodes, no columns, and a damping that is no
    number. -/
def unsettled : Params where
  center := ⟨-0, 3e38⟩
  spacing := 0
  padding := -1000
  rankSpacing := -7
  gridColumns := some 0
  force := { iterations := 5, damping := notANumber }
  anchor := some "a"

/-- The node is in the center all the same. -/
theorem trivial_graphs_recluse :
    (∃ positions, Algorithm.forceDirected.layout (.empty true none) unsettled = .ok positions ∧
      positions.entries = []) ∧
    (∃ positions q, Algorithm.forceDirected.layout recluse unsettled = .ok positions ∧
      positions.entries = [("a", q)] ∧ (q == ⟨-0, 3e38⟩) = true) ∧
    ∃ positions q, Algorithm.hierarchical.layout recluse unsettled = .ok positions ∧
      positions.entries = [("a", q)] ∧ (q == ⟨-0, 3e38⟩) = true := by
  have hnodes : recluse.nodes = [.named "a"] := rfl
  have hplaced := fun algorithm => (trivial_graphs algorithm recluse unsettled).2 _ hnodes
    (by decide +kernel) (by decide +kernel) (by decide +kernel) (by decide +kernel) nofun
  exact ⟨(trivial_graphs .forceDirected (.empty true none) unsettled).1 rfl,
    hplaced .forceDirected, hplaced .hierarchical⟩

end Layout

end DotLayout
