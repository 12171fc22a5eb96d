import DotLayout.Layout.Levels
import DotLayout.Layout.Scene

/-! # Hierarchical layout

    Nodes stand in rows by their level, counted from the nodes that no arrow leads to, or from the
    first node if there is no such node.

    * The roots are spread around the center.
    * Every node that is placed puts those of its successors on deeper levels that have no place
      yet under itself, in order.
    * A node that would stand too close to another one of its row is shifted to the right, at most
      `maxShifts` times.
    * What no placed node leads to goes into columns to the right of everything.

    Nodes are placed with the help of a queue: a node joins it when it gets its place, so the number
    of nodes without a place and the length of the queue fall together with each visit. -/

namespace DotLayout.Layout.Hierarchical

open Numeric

/-- A place for each node, once it has one. -/
abbrev Placed := List (Option Point)

/-- The place of a node, if it has one. -/
def Placed.at (placed : Placed) (i : Nat) : Option Point := (placed[i]?).join

namespace Placed

/-- Whether a node is still to be placed. -/
def isFree (placed : Placed) (i : Nat) : Bool :=
  match placed[i]? with
  | some none => true
  | _ => false

/-- The number of nodes that are still to be placed. -/
def unplaced (placed : Placed) : Nat := placed.countP Option.isNone

/-- A node is free if it has an entry without a place. -/
theorem isFree_iff {placed : Placed} {i : Nat} :
    placed.isFree i = true ↔ placed[i]? = some none := by
  unfold isFree
  split <;> simp_all

/-- A node that gets its place is one node less to be placed. -/
theorem unplaced_set {placed : Placed} {i : Nat} (h : placed.isFree i = true) (p : Point) :
    unplaced (placed.set i (some p)) + 1 = unplaced placed := by
  obtain ⟨hi, hnone⟩ := List.getElem?_eq_some_iff.1 (isFree_iff.1 h)
  have hpos : 0 < placed.countP Option.isNone :=
    List.countP_pos_iff.2 ⟨none, hnone ▸ List.getElem_mem hi, rfl⟩
  rw [unplaced, unplaced, List.countP_set hi, hnone]
  simp only [Option.isNone_none, Option.isNone_some, if_true, Bool.false_eq_true, if_false]
  omega

theorem isFree_set_of_ne {placed : Placed} {i j : Nat} (h : i ≠ j) (p : Point) :
    isFree (placed.set i (some p)) j = placed.isFree j := by
  rw [isFree, List.getElem?_set_ne h, isFree]

/-- Different nodes that get their places one after the other are no longer to be placed, whatever
    their places are. -/
theorem unplaced_foldl_set (spot : Placed → Nat × Nat → Point) {nodes : List Nat}
    (hnodes : nodes.Nodup) (first : Nat) {placed : Placed}
    (h : ∀ i ∈ nodes, placed.isFree i = true) :
    unplaced ((nodes.zipIdx first).foldl
      (fun placed slot => placed.set slot.1 (some (spot placed slot))) placed) + nodes.length
      = placed.unplaced := by
  induction nodes generalizing first placed with
  | nil => rfl
  | cons i nodes ih =>
    obtain ⟨hi, hrest⟩ := List.nodup_cons.1 hnodes
    have free : ∀ j ∈ nodes, isFree (placed.set i (some (spot placed (i, first)))) j = true := by
      intro j hj
      have hne : i ≠ j := fun heq => hi (heq ▸ hj)
      rw [isFree_set_of_ne hne]
      exact h j (List.mem_cons_of_mem i hj)
    have rest := ih hrest (first + 1) free
    have step := unplaced_set (h i List.mem_cons_self) (spot placed (i, first))
    rw [List.zipIdx_cons, List.foldl_cons, List.length_cons, ← Nat.add_assoc, rest, step]

end Placed

/-- How often a node gives way to others in its row. -/
def maxShifts : Nat := 8

/-- The nodes that no arrow leads to, or the first node if there is none. -/
def roots (s : Scene) : List Nat :=
  let free := (List.range s.count).filter fun i => !s.arrows.any fun a => a.2 == i
  if free.isEmpty then [0] else free

/-- The levels above the roots. -/
def levelsOf (s : Scene) : Levels := levels s.count (roots s) s.arrows

/-- The row of a node; a node without a level belongs to the first row. -/
def row (levels : Levels) (i : Nat) : Nat := (levels.at i).getD 0

/-- How far down a row is. -/
def rowY (s : Scene) (row : Nat) : Float32 := s.measures.center.y + ofCount row * s.rankSpacing

/-- The places of the other nodes in the row of `i`. -/
def rowMates (levels : Levels) (placed : Placed) (i : Nat) : List Point :=
  placed.zipIdx.filterMap fun (place, other) =>
    if other ≠ i ∧ row levels other = row levels i then place else none

/-- Whether one of some places is closer to the coordinate `x` than is allowed. -/
def crowded (mates : List Point) (allowed x : Float32) : Bool :=
  mates.any fun p => (p.x - x).abs < allowed

/-- The first free coordinate from `x` on, after at most so many steps to the right. -/
def giveWay (crowded : Float32 → Bool) (step : Float32) : Nat → Float32 → Float32
  | 0, x => x
  | shifts + 1, x => if crowded x then giveWay crowded step shifts (x + step) else x

/-- Puts a node into its row, as far to the right as it has to give way. -/
def place (s : Scene) (levels : Levels) (placed : Placed) (i : Nat) (x : Float32) : Placed :=
  let isCrowded := crowded (rowMates levels placed i) (s.spacing - s.measures.padding)
  let free := giveWay isCrowded (s.spacing / 2) maxShifts x
  placed.set i (some ⟨free, rowY s (row levels i)⟩)

/-- Finds places for nodes side by side, the first one near `start`. -/
def placeRow (s : Scene) (levels : Levels) (placed : Placed) (start : Float32)
    (nodes : List Nat) : Placed :=
  nodes.zipIdx.foldl
    (fun placed node => place s levels placed node.1 (start + ofCount node.2 * s.spacing)) placed

/-- The distance from the first of so many nodes side by side to their middle. -/
def halfRow (s : Scene) (count : Nat) : Float32 := ofCount (count - 1) * s.spacing / 2

/-- Whether a node is on a deeper level than another one. -/
def deeper (levels : Levels) (i parent : Nat) : Bool :=
  match levels.at parent, levels.at i with
  | some above, some below => above < below
  | _, _ => false

/-- The nodes that the arrows from a node lead to. -/
def targetsOf (s : Scene) (parent : Nat) : List Nat :=
  (s.arrows.filter fun a => a.1 == parent).map Prod.snd

/-- The targets of a node are those that arrows lead to from it. -/
theorem mem_targetsOf {s : Scene} {i j : Nat} : j ∈ targetsOf s i ↔ (i, j) ∈ s.arrows := by
  simp [targetsOf]

/-- The nodes that a node puts under itself, in order. -/
def children (s : Scene) (levels : Levels) (placed : Placed) (parent : Nat) : List Nat :=
  let targets := targetsOf s parent
  (List.range s.count).filter fun i =>
    targets.contains i && placed.isFree i && deeper levels i parent

/-- Placing free nodes leaves that many fewer nodes without a place. -/
theorem unplaced_placeRow (s : Scene) (levels : Levels) (start : Float32) {nodes : List Nat}
    (hnodes : nodes.Nodup) {placed : Placed} (h : ∀ i ∈ nodes, placed.isFree i = true) :
    (placeRow s levels placed start nodes).unplaced + nodes.length = placed.unplaced :=
  Placed.unplaced_foldl_set _ hnodes 0 h

/-- A node has each of its children once. -/
theorem children_nodup (s : Scene) (levels : Levels) (placed : Placed) (parent : Nat) :
    (children s levels placed parent).Nodup :=
  List.nodup_range.filter _

/-- A child of a node has no place yet. -/
theorem isFree_of_mem_children {s : Scene} {levels : Levels} {placed : Placed} {parent i : Nat}
    (h : i ∈ children s levels placed parent) : placed.isFree i = true := by
  simp only [children, List.mem_filter, Bool.and_eq_true] at h
  exact h.2.1.2

/-- Visits the nodes of a queue, and after them the nodes that they place. -/
def visit (s : Scene) (levels : Levels) (queue : List Nat) (placed : Placed) : Placed :=
  match queue with
  | [] => placed
  | parent :: queue =>
    match placed.at parent with
    | none => visit s levels queue placed
    | some p =>
      let below := children s levels placed parent
      let start := p.x - halfRow s below.length
      visit s levels (queue ++ below) (placeRow s levels placed start below)
  termination_by placed.unplaced + queue.length
  decreasing_by
    · simp only [List.length_cons]
      omega
    · have := unplaced_placeRow s levels (p.x - halfRow s (children s levels placed parent).length)
        (children_nodup s levels placed parent) fun _ => isFree_of_mem_children
      simp only [List.length_append, List.length_cons]
      omega

/-- The places of the roots and of all that follows from them. -/
def tree (s : Scene) : Placed :=
  let levels := levelsOf s
  let top := roots s
  let start := s.measures.center.x - halfRow s top.length
  visit s levels top (placeRow s levels (List.replicate s.count none) start top)

/-- The first column to the right of all places. -/
def freeColumn (s : Scene) (placed : Placed) : Float32 :=
  (placed.reduceOption.map Point.x).foldl larger (-infinity) + s.spacing

/-- The place of a node that the tree leaves out: as many columns to the right as nodes of its row
    were left out before it. -/
def leftOver (s : Scene) (levels : Levels) (placed : Placed) (i : Nat) : Point :=
  let before := (placed.zipIdx.take i).countP fun (place, j) =>
    place.isNone && row levels j == row levels i
  ⟨freeColumn s placed + ofCount before * s.spacing, rowY s (row levels i)⟩

/-- The points of all nodes: those of the tree, and columns behind it for what is left over. -/
def points (s : Scene) : List Point :=
  let levels := levelsOf s
  let placed := tree s
  (List.range s.count).map fun i => (placed.at i).getD (leftOver s levels placed i)

end DotLayout.Layout.Hierarchical
