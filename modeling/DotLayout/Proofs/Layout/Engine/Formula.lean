import DotLayout.Proofs.Layout.Engine.Topology

/-! # The engines of the circular and the grid layout

    Both engines walk along the nodes once and compute each point by a formula.

    * The circular engine counts the slots that it has handed out; `ringPoints_eq` finds the slot of
      a node without counting, since only the anchor takes none.
    * The grid engine numbers rows and columns. -/

namespace DotLayout.Layout.Engine

open Numeric

variable {g : Graph} {p : Params}

/-! ## The circular engine -/

/-- Walks along nodes with the number of slots handed out so far: the anchor gets the center, any
    other node the next slot. -/
def ringPoints (center : Point) (radius : Float32) (ring anchor : Nat) : Nat → List Nat → List Point
  | _, [] => []
  | slot, i :: nodes =>
    if i = anchor then center :: ringPoints center radius ring anchor slot nodes
    else
      .polar center radius (-tau / 4 + tau * ofCount slot / ofCount ring)
        :: ringPoints center radius ring anchor (slot + 1) nodes

/-- The circular engine: the anchor in the center, and the other nodes in turn around it. -/
def circular (g : Graph) (p : Params) : Positions :=
  match anchorIndex g (.ofGraph g) p with
  | none => {}
  | some anchor =>
    let ring := g.nodes.length - 1
    let radius := larger p.minRadius (minSpacing g p * ofCount ring / tau)
    collect g (ringPoints p.center radius ring anchor 0 (List.range g.nodes.length))

/-- The next slot is the number of the node, or one less behind the anchor. -/
theorem ringPoints_eq (center : Point) (radius : Float32) (ring anchor : Nat) (first count : Nat) :
    ringPoints center radius ring anchor (if first ≤ anchor then first else first - 1)
        (List.range' first count)
      = (List.range' first count).map fun i =>
          if i = anchor then center
          else .polar center radius (Circular.angle ring (Circular.slot anchor i)) := by
  induction count generalizing first with
  | zero => rfl
  | succ count ih =>
    rw [List.range'_succ, List.map_cons, ringPoints, ← ih (first + 1)]
    by_cases hanchor : first = anchor
    · subst hanchor
      have hnext : ¬ first + 1 ≤ first := by omega
      simp [hnext]
    · by_cases hbefore : first < anchor
      · simp [hanchor, Circular.slot, Circular.angle, hbefore, Nat.le_of_lt hbefore,
          Nat.succ_le_of_lt hbefore]
      · have hbehind : ¬ first ≤ anchor := by omega
        have hnext : ¬ first + 1 ≤ anchor := by omega
        have hpos : first - 1 + 1 = first := by omega
        simp [hanchor, Circular.slot, Circular.angle, hbefore, hbehind, hnext, hpos]

/-- The circular engine computes the circular layout. -/
theorem circular_eq (g : Graph) (p : Params) :
    Algorithm.circular.layout g p = .ok (circular g p) := by
  rw [circular, anchorIndex_ofGraph]
  cases hhub : (Scene.ofGraph g p).hub? with
  | none =>
    refine layout_of_no_points ?_
    rw [Algorithm.points, Circular.points, hhub]
  | some anchor =>
    have heq := ringPoints_eq p.center (Circular.radius (.ofGraph g p) (g.nodes.length - 1))
      (g.nodes.length - 1) anchor 0 g.nodes.length
    rw [if_pos (Nat.zero_le anchor), ← List.range_eq_range'] at heq
    refine layout_of_points ?_
    rw [Algorithm.points, Circular.points, hhub, minSpacing_eq]
    simp only [count_ofGraph]
    exact congrArg Except.ok heq.symm

/-! ## The grid engine -/

/-- The grid engine: the nodes fill the rows from the top, and each row from the left. -/
def grid (g : Graph) (p : Params) : Positions :=
  let n := g.nodes.length
  if n = 0 then {}
  else
    let asked := (p.gridColumns.filter fun columns => 0 < columns).getD
      (ceilCount (Float32.sqrt (ofCount n)))
    let columns := min asked n
    let rows := (n + columns - 1) / columns
    let cell := minSpacing g p
    let first : Point :=
      ⟨p.center.x - ofCount (columns - 1) * cell / 2, p.center.y - ofCount (rows - 1) * cell / 2⟩
    collect g ((List.range n).map fun i =>
      first + ⟨ofCount (i % columns) * cell, ofCount (i / columns) * cell⟩)

/-- The number of columns, whether it is asked for or follows from the number of nodes. -/
theorem columns_eq (asked : Option Nat) (count : Nat) :
    min ((asked.filter fun columns => 0 < columns).getD (ceilCount (Float32.sqrt (ofCount count))))
        count
      = Grid.columns asked count := by
  cases asked with
  | none => exact Nat.min_comm ..
  | some columns => cases columns <;> exact Nat.min_comm ..

/-- The grid engine computes the grid layout. -/
theorem grid_eq (g : Graph) (p : Params) : Algorithm.grid.layout g p = .ok (grid g p) := by
  rw [grid]
  by_cases hempty : g.nodes.length = 0
  · rw [if_pos hempty]
    refine layout_of_no_points ?_
    rw [Algorithm.points, Grid.points, count_ofGraph, hempty]
    rfl
  · simp only [if_neg hempty, columns_eq, minSpacing_eq]
    refine layout_of_points ?_
    rw [Algorithm.points, Grid.points, count_ofGraph]
    rfl

end DotLayout.Layout.Engine
