import DotLayout.Proofs.Layout.Engine.Topology
import DotLayout.Proofs.Layout.LongestWalk

/-! # The engine of the hierarchical layout

    The engine keeps a table of places and a queue.  It follows the edges of the topology from every
    node of the queue, sorts the children that it finds, and puts each of them where its row has
    room.  What is left over is numbered row by row, with a table of counts.

    * `children_eq` : following and sorting edges finds the children of the layout over the scene.
    * `run_eq` : both runs make the same visits.
    * `fillIn_eq` : the counts are the numbers of nodes of a row that were left over before. -/

namespace DotLayout.Layout.Engine

open Numeric Hierarchical

/-- What a placer works with. -/
structure Placer where
  levels : Levels
  spacing : Float32
  clearance : Float32
  rank : Float32
  center : Point

namespace Placer

/-- The level of a node, and the first level if it has none. -/
def level (l : Placer) (i : Nat) : Nat := (l.levels.at i).getD 0

/-- How far down a node stands, which its level decides. -/
def rowY (l : Placer) (i : Nat) : Float32 := l.center.y + ofCount (l.level i) * l.rank

/-- Whether another node of the same level has a place that is too close to the coordinate `x`. -/
def crowded (l : Placer) (placed : Placed) (i : Nat) (x : Float32) : Bool :=
  placed.zipIdx.any fun (place, other) =>
    other != i && l.level other == l.level i && place.any fun q => (q.x - x).abs < l.clearance

/-- Shifts to the right while it is crowded, so many times at most. -/
def shift (l : Placer) (placed : Placed) (i : Nat) : Nat → Float32 → Float32
  | 0, x => x
  | attempts + 1, x =>
    if l.crowded placed i x then l.shift placed i attempts (x + l.spacing / 2) else x

/-- Puts a node into its row, as far to the right as it has to give way. -/
def place (l : Placer) (placed : Placed) (i : Nat) (x : Float32) : Placed :=
  placed.set i (some ⟨l.shift placed i maxShifts x, l.rowY i⟩)

/-- Puts some nodes side by side, each of them one space behind the one before. -/
def placeAll (l : Placer) (placed : Placed) (start : Float32) (nodes : List Nat) : Placed :=
  nodes.zipIdx.foldl
    (fun placed slot => l.place placed slot.1 (start + ofCount slot.2 * l.spacing)) placed

/-- The neighbours of a node that are on deeper levels and still to be placed, in order. -/
def children (t : Topology) (l : Placer) (placed : Placed) (parent level : Nat) : List Nat :=
  ((t.successors parent).filter fun child =>
    placed.isFree child && (l.levels.at child).any fun below => level < below).mergeSort

/-- A node leads to another node once at most. -/
theorem nodup_successors (t : Topology) (i : Nat) : (t.successors i).Nodup := by
  rw [Topology.successors]
  refine List.Nodup.map_on ?_ (List.nodup_reverse.2 (t.nodup.filter _))
  rintro ⟨a, b⟩ ha ⟨a', b'⟩ ha' rfl
  simp only [List.mem_reverse, List.mem_filter, beq_iff_eq] at ha ha'
  rw [ha.2, ha'.2]

/-- A node has each of its children once. -/
theorem nodup_children (t : Topology) (l : Placer) (placed : Placed) (parent level : Nat) :
    (children t l placed parent level).Nodup :=
  (List.mergeSort_perm ..).nodup_iff.2 ((nodup_successors t parent).filter _)

/-- A child that is found has no place yet. -/
theorem isFree_of_mem_children {t : Topology} {l : Placer} {placed : Placed}
    {parent level child : Nat} (h : child ∈ children t l placed parent level) :
    placed.isFree child = true := by
  have hfilter := (List.mergeSort_perm ..).mem_iff.1 h
  simp only [List.mem_filter, Bool.and_eq_true] at hfilter
  exact hfilter.2.1

/-- Placing free nodes leaves that many fewer nodes without a place. -/
theorem unplaced_placeAll (l : Placer) {placed : Placed} (start : Float32) {nodes : List Nat}
    (hnodes : nodes.Nodup) (h : ∀ i ∈ nodes, placed.isFree i = true) :
    (l.placeAll placed start nodes).unplaced + nodes.length = placed.unplaced :=
  Placed.unplaced_foldl_set _ hnodes 0 h

/-- Takes the nodes of the queue one after the other, and centers the children of each of them
    under it. -/
def run (t : Topology) (l : Placer) (queue : List Nat) (placed : Placed) : Placed :=
  match queue with
  | [] => placed
  | parent :: queue =>
    match l.levels.at parent, placed.at parent with
    | some level, some q =>
      let below := children t l placed parent level
      if below.isEmpty then run t l queue placed
      else
        let start := q.x - ofCount (below.length - 1) * l.spacing / 2
        run t l (queue ++ below) (l.placeAll placed start below)
    | _, _ => run t l queue placed
  termination_by placed.unplaced + queue.length
  decreasing_by
    · simp only [List.length_cons]
      omega
    · have hless := unplaced_placeAll l (q.x - ofCount
        ((children t l placed parent level).length - 1) * l.spacing / 2)
        (nodup_children t l placed parent level) fun _ => isFree_of_mem_children
      simp only [List.length_append, List.length_cons]
      omega
    · simp only [List.length_cons]
      omega

/-- Walks along the places with the number of nodes that were left over so far on each level, and
    gives a place to those that have none. -/
def fillIn (l : Placer) (column : Float32) : List Nat → Nat → Placed → List Point
  | _, _, [] => []
  | counts, i, some q :: rest => q :: l.fillIn column counts (i + 1) rest
  | counts, i, none :: rest =>
    ⟨column + ofCount (counts[l.level i]?.getD 0) * l.spacing, l.rowY i⟩
      :: l.fillIn column (counts.modify (l.level i) (· + 1)) (i + 1) rest

/-- The nodes of the first row: those without an edge into them, or else the first node. -/
def roots (t : Topology) : List Nat :=
  (if t.externals.isEmpty then (List.range t.count).take 1 else t.externals).mergeSort

/-- Spreads the nodes of the first row around the center, and places what they lead to. -/
def tree (t : Topology) (l : Placer) : Placed :=
  let start := l.center.x - ofCount ((roots t).length - 1) * l.spacing / 2
  run t l (roots t) (l.placeAll (List.replicate t.count none) start (roots t))

/-- The places, with columns to the right of them for what was left over. -/
def points (l : Placer) (placed : Placed) : List Point :=
  let column := (placed.reduceOption.map Point.x).foldl larger (-infinity) + l.spacing
  l.fillIn column (List.replicate placed.length 0) 0 placed

/-- The measures of the engine for a graph, with the levels of its topology. -/
def ofGraph (g : Graph) (t : Topology) (p : Params) : Placer where
  levels := Layout.levels t.count (roots t) t.edges
  spacing := minSpacing g p
  clearance := minSpacing g p - p.padding
  rank := rankSpacing g p
  center := p.center

end Placer

/-- The hierarchical engine: the tree, and then what is left over of each row. -/
def hierarchical (g : Graph) (p : Params) : Positions :=
  if g.nodes.length = 0 then {}
  else
    let t := Topology.ofGraph g
    let l := Placer.ofGraph g t p
    collect g (l.points (l.tree t))

/-! ## The placer of a scene -/

/-- The placer that works with the measures of a scene. -/
def Placer.ofScene (s : Scene) (levels : Levels) : Placer where
  levels := levels
  spacing := s.spacing
  clearance := s.spacing - s.measures.padding
  rank := s.rankSpacing
  center := s.measures.center

variable {s : Scene} {levels : Levels}

/-- A place is crowded for the engine exactly if it is for the layout. -/
theorem crowded_eq (placed : Placed) (i : Nat) (x : Float32) :
    Hierarchical.crowded (rowMates levels placed i) (s.spacing - s.measures.padding) x
      = (Placer.ofScene s levels).crowded placed i x := by
  have hrow : ∀ j, (Placer.ofScene s levels).level j = row levels j := fun _ => rfl
  have hclearance : (Placer.ofScene s levels).clearance = s.spacing - s.measures.padding := rfl
  rw [Hierarchical.crowded, rowMates, List.any_filterMap, Placer.crowded]
  refine congrArg (fun test => List.any placed.zipIdx test) (funext ?_)
  rintro ⟨place, other⟩
  dsimp only
  rw [hrow, hrow, hclearance]
  by_cases h : other ≠ i ∧ row levels other = row levels i
  · rw [if_pos h]
    cases place <;> simp [h]
  · rw [if_neg h]
    rcases not_and_or.1 h with hsame | hrow
    · simp [not_not.1 hsame]
    · simp [hrow]

/-- The engine shifts a node as far as the layout does. -/
theorem shift_eq (placed : Placed) (i attempts : Nat) (x : Float32) :
    giveWay (Hierarchical.crowded (rowMates levels placed i) (s.spacing - s.measures.padding))
        (s.spacing / 2) attempts x
      = (Placer.ofScene s levels).shift placed i attempts x := by
  induction attempts generalizing x with
  | zero => rfl
  | succ attempts ih =>
    rw [giveWay, Placer.shift, crowded_eq, ih]
    rfl

/-- The engine puts a node where the layout puts it. -/
theorem place_eq (placed : Placed) (i : Nat) (x : Float32) :
    Hierarchical.place s levels placed i x = (Placer.ofScene s levels).place placed i x := by
  simp only [Hierarchical.place, shift_eq]
  rfl

/-- The engine puts some nodes where the layout puts them. -/
theorem placeAll_eq (placed : Placed) (start : Float32) (nodes : List Nat) :
    placeRow s levels placed start nodes
      = (Placer.ofScene s levels).placeAll placed start nodes := by
  simp only [placeRow, Placer.placeAll, place_eq]
  rfl

/-! ## Visits -/

variable {t : Topology}

/-- Sorted lists of the same distinct nodes are the same. -/
theorem eq_of_sorted {l l' : List Nat} (hl : l.Pairwise (· < ·)) (hl' : l'.Pairwise (· < ·))
    (h : ∀ i, i ∈ l ↔ i ∈ l') : l = l' := by
  have hperm : l.Perm l' := (List.perm_ext_iff_of_nodup (hl.imp Nat.ne_of_lt)
    (hl'.imp Nat.ne_of_lt)).2 h
  exact hperm.eq_of_pairwise (fun _ _ _ _ hab hba => absurd hab (Nat.lt_asymm hba)) hl hl'

/-- Different numbers are sorted into a strictly increasing list. -/
theorem pairwise_mergeSort_lt {l : List Nat} (h : l.Nodup) : l.mergeSort.Pairwise (· < ·) := by
  have hle : l.mergeSort.Pairwise fun a b => decide (a ≤ b) = true := by
    refine List.pairwise_mergeSort ?_ ?_ l
    · intro a b c hab hbc
      simp only [decide_eq_true_eq] at hab hbc ⊢
      exact Nat.le_trans hab hbc
    · intro a b
      simp only [Bool.or_eq_true, decide_eq_true_eq]
      exact Nat.le_total a b
  have hne : l.mergeSort.Pairwise fun a b => a ≠ b := (List.mergeSort_perm ..).nodup_iff.2 h
  exact (hle.and hne).imp fun hab => Nat.lt_of_le_of_ne (of_decide_eq_true hab.1) hab.2

/-- The numbers that satisfy a test are found in increasing order. -/
theorem pairwise_filter_range (f : Nat → Bool) (count : Nat) :
    ((List.range count).filter f).Pairwise (· < ·) :=
  List.pairwise_lt_range.filter f

/-- The nodes that a node leads to are those at the other ends of its edges. -/
theorem mem_successors {i j : Nat} : j ∈ t.successors i ↔ (i, j) ∈ t.edges := by
  simp [Topology.successors]

/-- The engine finds the same children as the layout, in the same order. -/
theorem children_eq (hedges : t.edges = s.arrows) (hlt : ∀ a ∈ s.arrows, a.2 < s.count)
    {placed : Placed} {parent level : Nat} (hlevel : levels.at parent = some level) :
    Hierarchical.children s levels placed parent
      = Placer.children t (.ofScene s levels) placed parent level := by
  refine eq_of_sorted (pairwise_filter_range ..)
    (pairwise_mergeSort_lt ((Placer.nodup_successors t parent).filter _)) ?_
  intro i
  have hdeeper : deeper levels i parent = (levels.at i).any fun below => level < below := by
    rw [deeper, hlevel]
    cases levels.at i <;> rfl
  rw [Placer.children, (List.mergeSort_perm ..).mem_iff]
  simp only [Hierarchical.children, List.mem_filter, Bool.and_eq_true, List.contains_iff_mem,
    mem_targetsOf, hdeeper, mem_successors, hedges, List.mem_range]
  constructor
  · rintro ⟨-, ⟨harrow, hfree⟩, hbelow⟩
    exact ⟨harrow, hfree, hbelow⟩
  · rintro ⟨harrow, hfree, hbelow⟩
    exact ⟨hlt _ harrow, ⟨harrow, hfree⟩, hbelow⟩

/-- A node without a level has no children. -/
theorem children_of_none {placed : Placed} {parent : Nat} (h : levels.at parent = none) :
    Hierarchical.children s levels placed parent = [] := by
  rw [Hierarchical.children, List.filter_eq_nil_iff]
  intro i _
  simp [deeper, h]

/-- The engine makes the same visits as the layout over the scene. -/
theorem run_eq (hedges : t.edges = s.arrows) (hlt : ∀ a ∈ s.arrows, a.2 < s.count)
    (queue : List Nat) (placed : Placed) :
    visit s levels queue placed = Placer.run t (.ofScene s levels) queue placed := by
  fun_induction Placer.run t (.ofScene s levels) queue placed with
  -- without free children the queue only gets shorter
  | case1 placed => rw [visit]
  | case2 placed parent queue level q hplace hlevel below hempty ih =>
    have hchildren : Hierarchical.children s levels placed parent = [] :=
      (children_eq hedges hlt hlevel).trans (List.isEmpty_iff.1 hempty)
    rw [visit, hplace, ← ih]
    simp only [hchildren, List.append_nil]
    rfl
  | case3 placed parent queue level q hplace hlevel below hempty start ih =>
    have hchildren : Hierarchical.children s levels placed parent = below :=
      children_eq hedges hlt hlevel
    rw [visit, hplace, ← ih]
    simp only [hchildren, placeAll_eq]
    rfl
  -- no place or no level: the parent has no children
  | case4 placed parent queue hnone ih =>
    rw [visit, ← ih]
    cases hplace : placed.at parent with
    | none => rfl
    | some q =>
      have hlevel : levels.at parent = none :=
        Option.eq_none_iff_forall_ne_some.2 fun level h => hnone level q h hplace
      simp only [children_of_none hlevel, List.append_nil]
      rfl

/-! ## What is left over -/

/-- The number of nodes of a row that have no place in a list of places. -/
def tally (levels : Levels) (places : Placed) (r : Nat) : Nat :=
  places.zipIdx.countP fun (place, i) => place.isNone && row levels i == r

/-- One more place changes the count of its row alone, and only if it is empty. -/
theorem tally_concat (places : Placed) (place : Option Point) (r : Nat) :
    tally levels (places ++ [place]) r
      = tally levels places r
        + if place.isNone && row levels places.length == r then 1 else 0 := by
  simp [tally, List.zipIdx_append, List.countP_append, List.countP_cons]

/-- With the counts of the rows so far, the engine fills in the columns that the layout gives. -/
theorem fillIn_eq {count : Nat} (hrow : ∀ i, row levels i < count) (rest before : Placed)
    (counts : List Nat) (hcounts : ∀ r < count, counts[r]? = some (tally levels before r)) :
    (Placer.ofScene s levels).fillIn (freeColumn s (before ++ rest)) counts before.length rest
      = (List.range' before.length rest.length).map fun i =>
          (Placed.at (before ++ rest) i).getD (leftOver s levels (before ++ rest) i) := by
  -- along the rest, while `before` grows by the places that are passed
  induction rest generalizing before counts with
  | nil => rfl
  | cons place rest ih =>
    have hat : Placed.at (before ++ place :: rest) before.length = place := by
      simp [Placed.at]
    have hnext := ih (before ++ [place])
    simp only [List.append_assoc, List.singleton_append, List.length_append,
      List.length_singleton] at hnext
    rw [List.length_cons, List.range'_succ, List.map_cons, hat]
    cases place with
    | some q =>
      rw [Placer.fillIn, Option.getD_some, hnext counts]
      intro r hr
      rw [hcounts r hr, tally_concat]
      simp
    | none =>
      have hlevel : (Placer.ofScene s levels).level before.length = row levels before.length := rfl
      have hhere := hcounts _ (hrow before.length)
      have hleft : leftOver s levels (before ++ none :: rest) before.length
          = ⟨freeColumn s (before ++ none :: rest)
              + ofCount (tally levels before (row levels before.length)) * s.spacing,
            Hierarchical.rowY s (row levels before.length)⟩ := by
        simp [leftOver, tally, List.zipIdx_append, List.take_left']
      rw [Placer.fillIn, Option.getD_none, hleft, hlevel, hhere, hnext]
      · rfl
      · intro r hr
        rw [tally_concat, List.getElem?_modify, hcounts r hr]
        by_cases h : row levels before.length = r <;> simp [h]

/-! ## The engine -/

/-- A row has a number below that of the nodes. -/
theorem row_lt {count : Nat} {roots : List Nat} {arrows : List (Nat × Nat)} (hcount : 0 < count)
    (i : Nat) : row (Layout.levels count roots arrows) i < count := by
  rw [row]
  cases hl : (Layout.levels count roots arrows).at i with
  | none => exact hcount
  | some l =>
    obtain ⟨k, -, rfl⟩ := settled_levels.walk i l hl
    rw [Option.getD_some]
    omega

/-- The nodes that no edge leads to are the same for the engine and for the layout. -/
theorem externals_ofGraph (g : Graph) (p : Params) :
    (Topology.ofGraph g).externals
      = (List.range g.nodes.length).filter fun i =>
          !(Scene.ofGraph g p).arrows.any fun a => a.2 == i := by
  rw [Topology.externals, count_topology]
  refine List.filter_congr fun i _ => ?_
  rw [Bool.eq_iff_iff, Topology.predecessors, edges_ofGraph g p]
  simp

/-- The engine starts from the same roots as the layout. -/
theorem roots_ofGraph {g : Graph} (p : Params) (hcount : g.nodes.length ≠ 0) :
    Placer.roots (.ofGraph g) = roots (.ofGraph g p) := by
  have hfirst : (List.range g.nodes.length).take 1 = [0] := by
    obtain ⟨n, hn⟩ := Nat.exists_eq_succ_of_ne_zero hcount
    rw [hn, List.range_succ_eq_map]
    rfl
  have hroots : (if (Topology.ofGraph g).externals.isEmpty
      then (List.range (Topology.ofGraph g).count).take 1 else (Topology.ofGraph g).externals)
      = roots (.ofGraph g p) := by
    rw [roots, externals_ofGraph g p, count_topology, count_ofGraph, hfirst]
  have hsorted : (roots (.ofGraph g p)).Pairwise (· < ·) := by
    rw [← hroots, externals_ofGraph g p, count_topology, hfirst]
    split
    · exact List.pairwise_singleton ..
    · exact pairwise_filter_range ..
  rw [Placer.roots, hroots]
  exact List.mergeSort_of_pairwise (hsorted.imp fun h => decide_eq_true (Nat.le_of_lt h))

/-- The engine works with the measures and the levels of the scene. -/
theorem placer_ofGraph {g : Graph} (p : Params) (hcount : g.nodes.length ≠ 0) :
    Placer.ofGraph g (.ofGraph g) p = .ofScene (.ofGraph g p) (levelsOf (.ofGraph g p)) := by
  simp only [Placer.ofGraph, minSpacing_eq, rankSpacing_eq, roots_ofGraph p hcount,
    edges_ofGraph g p, count_topology, ← count_ofGraph g p]
  rfl

/-- The engine makes the same tree as the layout. -/
theorem tree_eq {g : Graph} (p : Params) (hcount : g.nodes.length ≠ 0) :
    Placer.tree (.ofGraph g) (.ofScene (.ofGraph g p) (levelsOf (.ofGraph g p)))
      = tree (.ofGraph g p) := by
  have hlt : ∀ a ∈ (Scene.ofGraph g p).arrows, a.2 < (Scene.ofGraph g p).count := by
    rintro ⟨i, j⟩ h
    rw [count_ofGraph]
    exact (mem_arrows_ofGraph.1 h).lt_right
  rw [Placer.tree, roots_ofGraph p hcount, ← run_eq (edges_ofGraph g p) hlt, ← placeAll_eq,
    count_topology, ← count_ofGraph g p]
  rfl

/-- Placing some nodes side by side keeps the length of the table. -/
theorem length_placeRow (placed : Placed) (start : Float32) (nodes : List Nat) :
    (placeRow s levels placed start nodes).length = placed.length :=
  List.foldlRecOn (motive := fun placed' : Placed => placed'.length = placed.length) nodes.zipIdx _
    rfl fun _ ih _ _ => (List.length_set ..).trans ih

/-- Placing the children of the nodes in a queue keeps the length of the table. -/
theorem length_visit (queue : List Nat) (placed : Placed) :
    (visit s levels queue placed).length = placed.length := by
  fun_induction visit s levels queue placed with
  | case1 placed => rfl
  | case2 placed parent queue hplace ih => exact ih
  | case3 placed parent queue q hplace below start ih => rw [ih, length_placeRow]

theorem length_tree (s : Scene) : (tree s).length = s.count := by
  rw [tree, length_visit, length_placeRow, List.length_replicate]

/-- The engine computes the same points as the layout. -/
theorem points_eq {s : Scene} (hcount : s.count ≠ 0) :
    (Placer.ofScene s (levelsOf s)).points (tree s) = points s := by
  have hcounts : ∀ r < s.count,
      (List.replicate s.count 0)[r]? = some (tally (levelsOf s) [] r) := by
    intro r hr
    rw [List.getElem?_replicate, if_pos hr]
    rfl
  have hfill := fillIn_eq (s := s) (row_lt (Nat.pos_of_ne_zero hcount)) (tree s) [] _
    hcounts
  rw [List.nil_append, length_tree, List.length_nil, ← List.range_eq_range'] at hfill
  rw [Placer.points, length_tree]
  exact hfill

/-- The engine places every node where the layout over the scene does. -/
theorem hierarchical_eq (g : Graph) (p : Params) :
    Algorithm.hierarchical.layout g p = .ok (hierarchical g p) := by
  rw [hierarchical]
  by_cases hempty : g.nodes.length = 0
  · rw [if_pos hempty]
    refine layout_of_no_points ?_
    rw [Algorithm.points, points, count_ofGraph, hempty]
    rfl
  · have hcount : (Scene.ofGraph g p).count ≠ 0 := by rwa [count_ofGraph]
    simp only [if_neg hempty, placer_ofGraph p hempty, tree_eq p hempty, points_eq hcount]
    exact layout_of_points rfl

end DotLayout.Layout.Engine
