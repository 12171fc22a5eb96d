import DotLayout.Proofs.Layout.Checked.Table
import DotLayout.Proofs.Layout.Engine.Formula
import DotLayout.Proofs.Numeric.Positive

/-! # The checked engines of the circular and the grid layout

    Joining two nodes of a topology needs both of them to be there, a circle needs a node that is
    not on it, and a grid needs a column.

    * `topology_eq` : the ends of an edge that is followed are nodes.
    * `circular_eq` : a graph with an anchor has a node.
    * `grid_eq` : a grid that is computed has a column, because the square root of a number of nodes
      is positive. -/

namespace DotLayout.Layout.Checked

open Numeric Engine

variable {g : Graph} {p : Params}

/-! ## Topologies -/

/-- Joins two nodes of a topology, which both have to be there. -/
def updateEdge (t : Topology) (source target : Nat) : Except Fault Topology :=
  if source < t.count ∧ target < t.count then .ok (t.updateEdge source target)
  else .error (.outOfRange (max source target))

/-- Follows an edge: one between different nodes of the graph that are not joined yet joins them. -/
def follow (g : Graph) (t : Topology) (e : Edge) : Except Fault Topology :=
  if e.isSelfLoop then .ok t
  else
    match g.indexOf? e.source, g.indexOf? e.target with
    | some source, some target => updateEdge t source target
    | _, _ => .ok t

theorem no_edges_nodup : ([] : List (Nat × Nat)).Nodup := List.nodup_nil

/-- The topology of a graph, made by following its edges one after the other. -/
def topology (g : Graph) : Except Fault Topology :=
  g.edges.foldlM (follow g) ⟨g.nodes.length, [], no_edges_nodup⟩

/-- The ends of an edge that is followed are nodes, so following it succeeds. -/
theorem follow_eq {t : Topology} (hcount : t.count = g.nodes.length) (e : Edge) :
    follow g t e = .ok (t.follow g e) := by
  rw [follow, Topology.follow]
  split
  · rfl
  · cases hsource : g.indexOf? e.source with
    | none => rfl
    | some source =>
      cases htarget : g.indexOf? e.target with
      | none => rfl
      | some target =>
        have hlt := And.intro (Graph.lt_of_indexOf? hsource) (Graph.lt_of_indexOf? htarget)
        rw [← hcount] at hlt
        exact if_pos hlt

/-- The topology of every graph can be made. -/
theorem topology_eq (g : Graph) : topology g = .ok (.ofGraph g) :=
  (foldlM_eq_ok (fun t : Topology => t.count = g.nodes.length) rfl fun e _ t hcount =>
    ⟨follow_eq hcount e, (count_foldl_follow [e] t).trans hcount⟩).1

/-- Both ends of an edge of the topology are numbers of nodes. -/
theorem lt_of_mem_edges {e : Nat × Nat} (h : e ∈ (Topology.ofGraph g).edges) :
    e.1 < (Topology.ofGraph g).count ∧ e.2 < (Topology.ofGraph g).count := by
  rw [edges_ofGraph g {}] at h
  rw [count_topology]
  have hleads := mem_arrows_ofGraph.1 h
  exact ⟨hleads.lt_left, hleads.lt_right⟩

/-- Only a graph with a node has a node that is given the first place. -/
theorem pos_of_anchorIndex {t : Topology} {i : Nat} (hcount : t.count = g.nodes.length)
    (h : anchorIndex g t p = some i) : 0 < g.nodes.length := by
  rw [anchorIndex, hcount] at h
  split at h
  · rename_i anchor hanchor
    obtain ⟨id, -, hindex⟩ := Option.bind_eq_some_iff.1 hanchor
    exact Nat.lt_of_le_of_lt (Nat.zero_le _) (Graph.lt_of_indexOf? hindex)
  · refine Nat.pos_of_ne_zero fun hzero => ?_
    rw [hzero] at h
    cases h

/-! ## The circular engine -/

/-- The circular engine, with a ring for all nodes but the anchor. -/
def circular (g : Graph) (p : Params) : Except Fault Positions := do
  let t ← topology g
  match anchorIndex g t p with
  | none => return {}
  | some anchor =>
    let ring ← minus g.nodes.length 1
    let radius := larger p.minRadius (minSpacing g p * ofCount ring / tau)
    return collect g (ringPoints p.center radius ring anchor 0 (List.range g.nodes.length))

/-- The circular engine never stops: a graph that has an anchor has a node to subtract. -/
theorem circular_eq (g : Graph) (p : Params) : circular g p = .ok (Engine.circular g p) := by
  rw [circular, topology_eq, ok_bind, Engine.circular]
  cases hanchor : anchorIndex g (.ofGraph g) p with
  | none => rfl
  | some anchor =>
    dsimp only
    rw [minus_eq (pos_of_anchorIndex (count_topology g) hanchor)]
    rfl

/-! ## The grid engine -/

/-- A quotient rounded up. -/
def ceilQuotient (a b : Nat) : Except Fault Nat := do
  let whole ← quotient a b
  let rest ← remainder a b
  return if 0 < rest then whole + 1 else whole

/-- A quotient by a number that is not zero can be rounded up. -/
theorem ceilQuotient_eq (a : Nat) {b : Nat} (h : b ≠ 0) :
    ceilQuotient a b = .ok ((a + b - 1) / b) := by
  rw [ceilQuotient, quotient_eq a h, ok_bind, remainder_eq a h, ok_bind]
  have hdiv := Nat.div_add_mod a b
  have hlt := Nat.mod_lt a (Nat.pos_of_ne_zero h)
  refine congrArg Except.ok ?_
  split
  · have hsum : a + b - 1 = (a % b - 1) + b * (a / b + 1) := by
      rw [Nat.mul_add]
      omega
    have hrest : (a % b - 1) / b = 0 := Nat.div_eq_of_lt (by omega)
    rw [hsum, Nat.add_mul_div_left _ _ (Nat.pos_of_ne_zero h), hrest, Nat.zero_add]
  · have hsum : a + b - 1 = (b - 1) + b * (a / b) := by omega
    have hrest : (b - 1) / b = 0 := Nat.div_eq_of_lt (by omega)
    rw [hsum, Nat.add_mul_div_left _ _ (Nat.pos_of_ne_zero h), hrest, Nat.zero_add]

/-- The grid engine, which divides the number of a node by that of the columns. -/
def grid (g : Graph) (p : Params) : Except Fault Positions :=
  let n := g.nodes.length
  if n = 0 then .ok {}
  else do
    let asked := (p.gridColumns.filter fun columns => 0 < columns).getD
      (ceilCount (Float32.sqrt (ofCount n)))
    let columns := min asked n
    let rows ← ceilQuotient n columns
    let cell := minSpacing g p
    let lastColumn ← minus columns 1
    let lastRow ← minus rows 1
    let first : Point :=
      ⟨p.center.x - ofCount lastColumn * cell / 2, p.center.y - ofCount lastRow * cell / 2⟩
    let points ← (List.range n).mapM fun i => do
      let row ← quotient i columns
      let column ← remainder i columns
      return first + ⟨ofCount column * cell, ofCount row * cell⟩
    return collect g points

/-- A grid for some nodes has a column. -/
theorem columns_pos {n : Nat} (hn : n ≠ 0) (asked : Option Nat) :
    min ((asked.filter fun columns => 0 < columns).getD (ceilCount (Float32.sqrt (ofCount n)))) n
      ≠ 0 := by
  have hcomputed := pos_ceilCount_sqrt hn
  cases asked with
  | none =>
    rw [Option.filter_none, Option.getD_none]
    omega
  | some columns =>
    rw [Option.filter_some]
    split
    · rename_i hpos
      have hpos := of_decide_eq_true hpos
      rw [Option.getD_some]
      omega
    · rw [Option.getD_none]
      omega

/-- The grid engine never stops: a graph with nodes has a column to divide by. -/
theorem grid_eq (g : Graph) (p : Params) : grid g p = .ok (Engine.grid g p) := by
  rw [grid, Engine.grid]
  by_cases hempty : g.nodes.length = 0
  · rw [if_pos hempty, if_pos hempty]
  · rw [if_neg hempty, if_neg hempty]
    have hcolumns := columns_pos hempty p.gridColumns
    dsimp only
    generalize min ((p.gridColumns.filter fun columns => 0 < columns).getD
      (ceilCount (Float32.sqrt (ofCount g.nodes.length)))) g.nodes.length = columns at *
    have hrows : 1 ≤ (g.nodes.length + columns - 1) / columns :=
      (Nat.one_le_div_iff (Nat.pos_of_ne_zero hcolumns)).2 (by omega)
    have hpoints : ∀ (first : Point) (cell : Float32), ((List.range g.nodes.length).mapM fun i => do
        let row ← quotient i columns
        let column ← remainder i columns
        return first + ⟨ofCount column * cell, ofCount row * cell⟩)
      = (.ok ((List.range g.nodes.length).map fun i =>
          first + ⟨ofCount (i % columns) * cell, ofCount (i / columns) * cell⟩)
        : Except Fault (List Point)) := by
      intro first cell
      refine mapM_eq_ok_map fun i _ => ?_
      rw [quotient_eq i hcolumns, ok_bind, remainder_eq i hcolumns, ok_bind]
      rfl
    rw [ceilQuotient_eq _ hcolumns, ok_bind, minus_eq (Nat.pos_of_ne_zero hcolumns), ok_bind,
      minus_eq hrows, ok_bind, hpoints, ok_bind]
    rfl

end DotLayout.Layout.Checked
