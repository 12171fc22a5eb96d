import DotLayout.Proofs.Layout.Checked.Levels
import DotLayout.Proofs.Layout.Engine.Placer

/-! # The checked engine of the hierarchical layout

    The tables of levels and of places have an entry for every node, and the queue holds nodes
    only.  The table of counts is as long, which is enough because no level reaches the number of
    nodes.

    * `Placing` : the engine with the operation that places a node left open, so that it can be one
      that takes notes.
    * `Placing.tree_ok` : there is a first row, every round takes a node from the queue or gives one
      its place, and nothing but a node without a place is ever placed.
    * `points_eq` : the table of counts has an entry for the level of every node that is left. -/

namespace DotLayout.Layout.Checked

open Numeric Engine Hierarchical

variable {t : Topology} {l : Placer} {placed : Placed}

/-- The level of a node, which has to have an entry in the table. -/
def level (l : Placer) (i : Nat) : Except Fault Nat := do
  return (← fetch l.levels.toList i).getD 0

/-- Whether another node on a row has a place that is too close to the coordinate `x`. -/
def crowded (l : Placer) (placed : Placed) (i row : Nat) (x : Float32) : Except Fault Bool :=
  placed.zipIdx.anyM fun (place, other) => do
    if other = i then return false
    return (← level l other) == row && place.any fun q => (q.x - x).abs < l.clearance

/-- Shifts to the right while it is crowded, so many times at most. -/
def shift (l : Placer) (placed : Placed) (i row : Nat) : Nat → Float32 → Except Fault Float32
  | 0, x => return x
  | attempts + 1, x => do
    if ← crowded l placed i row x then shift l placed i row attempts (x + l.spacing / 2)
    else return x

/-- Puts a node into its row, as far to the right as it has to give way. -/
def place (l : Placer) (placed : Placed) (i : Nat) (x : Float32) : Except Fault Placed := do
  let row ← level l i
  let x ← shift l placed i row maxShifts x
  store placed i (some ⟨x, l.center.y + ofCount row * l.rank⟩)

/-- Puts some nodes side by side, each of them one space behind the one before. -/
def placeAll (l : Placer) (placed : Placed) (start : Float32) (nodes : List Nat) :
    Except Fault Placed :=
  nodes.zipIdx.foldlM
    (fun placed slot => place l placed slot.1 (start + ofCount slot.2 * l.spacing)) placed

/-- The neighbours of a node that are on deeper levels and still to be placed, in order. -/
def children (t : Topology) (l : Placer) (placed : Placed) (parent level : Nat) :
    Except Fault (List Nat) := do
  let below ← (t.successors parent).filterM fun child => do
    if (← fetch placed child).isSome then return false
    return (← fetch l.levels.toList child).any fun below => level < below
  return below.mergeSort

/-- Takes the next node of the queue and centers its children under it. -/
def serve (t : Topology) (l : Placer) (s : Placed × List Nat) :
    Except Fault (Option (Placed × List Nat)) :=
  match s.2 with
  | [] => return none
  | parent :: queue => do
    match ← fetch l.levels.toList parent, ← fetch s.1 parent with
    | some level, some q =>
      let below ← children t l s.1 parent level
      if below.isEmpty then return some (s.1, queue)
      let steps ← minus below.length 1
      let start := q.x - ofCount steps * l.spacing / 2
      return some (← placeAll l s.1 start below, queue ++ below)
    | _, _ => return some (s.1, queue)

/-- Places the roots, and then the children of the nodes in the queue. -/
def tree (t : Topology) (l : Placer) : Except Fault Placed := do
  let roots := Placer.roots t
  let steps ← minus roots.length 1
  let start := l.center.x - ofCount steps * l.spacing / 2
  let placed ← placeAll l (List.replicate t.count none) start roots
  let served ← drain (fun s : Placed × List Nat => s.1.unplaced + s.2.length) .stuck (serve t l)
    (placed, roots)
  return served.1

/-- Gives a place in the columns on the right to a node that has none. -/
def fillIn (l : Placer) (column : Float32) (s : List Nat × Placed) (i : Nat) :
    Except Fault (List Nat × Placed) := do
  if (← fetch s.2 i).isSome then return s
  let row ← level l i
  let before ← fetch s.1 row
  let counts ← update s.1 row (· + 1)
  let point : Point := ⟨column + ofCount before * l.spacing, l.center.y + ofCount row * l.rank⟩
  return (counts, ← store s.2 i (some point))

/-- The points of all nodes: the places of the tree, and columns behind it for what is left over. -/
def points (l : Placer) (placed : Placed) : Except Fault (List Point) := do
  let column := (placed.reduceOption.map Point.x).foldl larger (-infinity) + l.spacing
  let filled ← (List.range placed.length).foldlM (fillIn l column)
    (List.replicate placed.length 0, placed)
  return filled.2.map fun place => place.getD l.center

/-- The hierarchical engine, with every access to its tables checked. -/
def hierarchical (g : Graph) (p : Params) : Except Fault Positions :=
  if g.nodes.length = 0 then .ok {}
  else do
    let t ← topology g
    let levels ← levels t (Placer.roots t)
    let l : Placer := { Placer.ofGraph g t p with levels := levels }
    return collect g (← points l (← tree t l))

/-! ## The engine over any way to place nodes -/

/-- A way to place nodes one after the other: what it works on has their places in it. -/
structure Placing (σ : Type) where
  /-- What there is before any of so many nodes is placed. -/
  start : Nat → σ
  placed : σ → Placed
  place : Placer → σ → Nat → Float32 → Except Fault σ

namespace Placing

variable {σ : Type} (w : Placing σ)

/-- The way of the engine itself, which works on the places alone. -/
def plain : Placing Placed where
  start count := List.replicate count none
  placed := id
  place := Checked.place

/-- Places some nodes side by side. -/
def placeAll (l : Placer) (s : σ) (start : Float32) (nodes : List Nat) : Except Fault σ :=
  nodes.zipIdx.foldlM (fun s slot => w.place l s slot.1 (start + ofCount slot.2 * l.spacing)) s

/-- Takes a node out of the queue and places its children, as the engine does. -/
def serve (t : Topology) (l : Placer) (s : σ × List Nat) : Except Fault (Option (σ × List Nat)) :=
  match s.2 with
  | [] => return none
  | parent :: queue => do
    match ← fetch l.levels.toList parent, ← fetch (w.placed s.1) parent with
    | some level, some q =>
      let below ← children t l (w.placed s.1) parent level
      if below.isEmpty then return some (s.1, queue)
      let steps ← minus below.length 1
      let start := q.x - ofCount steps * l.spacing / 2
      return some (← w.placeAll l s.1 start below, queue ++ below)
    | _, _ => return some (s.1, queue)

/-- Places the roots, and then the children of the nodes in the queue, one by one. -/
def tree (t : Topology) (l : Placer) : Except Fault σ := do
  let roots := Placer.roots t
  let steps ← minus roots.length 1
  let start := l.center.x - ofCount steps * l.spacing / 2
  let first ← w.placeAll l (w.start t.count) start roots
  let served ← drain (fun s : σ × List Nat => (w.placed s.1).unplaced + s.2.length) .stuck
    (w.serve t l) (first, roots)
  return served.1

/-- The positions of a graph, and what placing its nodes one by one ends with. -/
def hierarchical (g : Graph) (p : Params) : Except Fault (σ × Positions) :=
  if g.nodes.length = 0 then .ok (w.start 0, {})
  else do
    let t ← topology g
    let levels ← levels t (Placer.roots t)
    let l : Placer := { Placer.ofGraph g t p with levels := levels }
    let s ← w.tree t l
    return (s, collect g (← points l (w.placed s)))

theorem tree_plain (t : Topology) (l : Placer) : plain.tree t l = Checked.tree t l := rfl

end Placing

/-! ## Places side by side -/

theorem fetch_level {i : Nat} (hi : i < l.levels.size) :
    fetch l.levels.toList i = .ok (l.levels.at i) :=
  fetch_levels (p := ⟨l.levels, []⟩) ⟨rfl, nofun⟩ hi

theorem level_eq {i : Nat} (hi : i < l.levels.size) : level l i = .ok (l.level i) := by
  rw [level, fetch_level hi]
  rfl

/-- Whether a place is crowded can be found out. -/
theorem crowded_eq (hlen : placed.length ≤ l.levels.size) (i : Nat) (x : Float32) :
    crowded l placed i (l.level i) x = .ok (l.crowded placed i x) := by
  refine anyM_eq_ok ?_
  rintro ⟨place, other⟩ h
  have hother : other < l.levels.size :=
    Nat.lt_of_lt_of_le (List.getElem?_eq_some_iff.1 (List.mem_zipIdx_iff_getElem?.1 h)).1 hlen
  dsimp only
  by_cases hsame : other = i
  · rw [if_pos hsame, hsame, bne_self_eq_false]
    rfl
  · rw [if_neg hsame, level_eq hother, bne_iff_ne.2 hsame]
    rfl

/-- Shifting a node succeeds. -/
theorem shift_eq (hlen : placed.length ≤ l.levels.size) (i attempts : Nat) (x : Float32) :
    shift l placed i (l.level i) attempts x = .ok (l.shift placed i attempts x) := by
  induction attempts generalizing x with
  | zero => rfl
  | succ attempts ih =>
    rw [shift, crowded_eq hlen, ok_bind, Placer.shift]
    split
    · exact ih _
    · rfl

/-- A node finds its place if every node has an entry in the table of levels. -/
theorem place_eq (hlen : placed.length ≤ l.levels.size) {i : Nat} (hi : i < placed.length)
    (x : Float32) : place l placed i x = .ok (l.place placed i x) := by
  rw [place, level_eq (Nat.lt_of_lt_of_le hi hlen), ok_bind, shift_eq hlen, ok_bind, store_eq hi]
  rfl

/-- A node that is free has an entry in the table of places. -/
theorem lt_of_isFree {i : Nat} (h : placed.isFree i = true) : i < placed.length :=
  (List.getElem?_eq_some_iff.1 (Placed.isFree_iff.1 h)).1

/-! ## The tree -/

/-- Every node has an entry in the table of places. -/
theorem exists_place (hlen : placed.length = l.levels.size) {i : Nat} (hi : i < l.levels.size) :
    ∃ place, placed[i]? = some place :=
  ⟨_, List.getElem?_eq_getElem (hlen ▸ hi)⟩

/-- The children of a node can be found. -/
theorem children_eq (hlen : placed.length = l.levels.size)
    (hedges : ∀ e ∈ t.edges, e.2 < l.levels.size) (parent level : Nat) :
    children t l placed parent level = .ok (Placer.children t l placed parent level) := by
  have hfilter : (t.successors parent).filterM (fun child => do
        if (← fetch placed child).isSome then return false
        return (← fetch l.levels.toList child).any fun below => level < below)
      = (.ok ((t.successors parent).filter fun child =>
          placed.isFree child && (l.levels.at child).any fun below => level < below)
        : Except Fault (List Nat)) := by
    refine filterM_eq_ok fun child hchild => ?_
    have hlt := hedges _ (mem_successors.1 hchild)
    obtain ⟨place, hplace⟩ := exists_place hlen hlt
    rw [fetch_eq hplace, ok_bind, fetch_level hlt, Placed.isFree, hplace]
    cases place <;> rfl
  rw [children, hfilter]
  rfl

/-- Children are numbers of nodes. -/
theorem lt_of_mem_children (hedges : ∀ e ∈ t.edges, e.2 < l.levels.size) {parent level i : Nat}
    (h : i ∈ Placer.children t l placed parent level) : i < l.levels.size := by
  have hsuccessor := List.mem_of_mem_filter ((List.mergeSort_perm ..).mem_iff.1 h)
  exact hedges _ (mem_successors.1 hsuccessor)

/-! ## The whole tree -/

/-- There is a first row. -/
theorem roots_ne_nil (hcount : t.count ≠ 0) : Placer.roots t ≠ [] := by
  have hrow : (if t.externals.isEmpty then (List.range t.count).take 1 else t.externals) ≠ [] := by
    split
    · simp [hcount]
    · rename_i hsome
      exact fun hnil => hsome (List.isEmpty_iff.2 hnil)
  intro hnil
  refine hrow (List.eq_nil_of_length_eq_zero ?_)
  rw [← List.length_mergeSort, ← Placer.roots, hnil]
  rfl

/-- The roots are numbers of nodes. -/
theorem lt_of_mem_roots {i : Nat} (h : i ∈ Placer.roots t) : i < t.count := by
  have hrow := (List.mergeSort_perm ..).mem_iff.1 h
  split at hrow
  · exact List.mem_range.1 (List.mem_of_mem_take hrow)
  · exact List.mem_range.1 (List.mem_of_mem_filter hrow)

/-- No root is there twice. -/
theorem nodup_roots (t : Topology) : (Placer.roots t).Nodup := by
  rw [Placer.roots, (List.mergeSort_perm ..).nodup_iff]
  split
  · exact List.nodup_range.take
  · exact List.nodup_range.filter _

/-- At first every node is free. -/
theorem isFree_replicate {count i : Nat} (h : i < count) :
    Placed.isFree (List.replicate count none) i = true := by
  rw [Placed.isFree_iff, List.getElem?_replicate, if_pos h]

namespace Placing

variable {σ : Type} {w : Placing σ} {I : σ → Prop} {s : σ}

/-- A way to place nodes that can place every node without a place, puts it where the engine does,
    and keeps something true in doing so. -/
structure Keeps (w : Placing σ) (l : Placer) (I : σ → Prop) : Prop where
  start : I (w.start l.levels.size)
  placed_start : w.placed (w.start l.levels.size) = List.replicate l.levels.size none
  place : ∀ {s i} x, I s → (w.placed s).length = l.levels.size → (w.placed s).isFree i = true →
    ∃ next, w.place l s i x = .ok next ∧ I next ∧ w.placed next = l.place (w.placed s) i x

/-- The plain operation places every free node where the engine places it. -/
theorem keeps_plain (l : Placer) : plain.Keeps l fun _ => True where
  start := trivial
  placed_start := rfl
  place x _ hlen hfree :=
    ⟨_, place_eq (Nat.le_of_eq hlen) (lt_of_isFree hfree) x, trivial, rfl⟩

/-- Different nodes without a place find their places side by side. -/
theorem placeAll_ok (h : w.Keeps l I) (start : Float32) {nodes : List Nat} (hnodes : nodes.Nodup)
    (hs : I s) (hlen : (w.placed s).length = l.levels.size)
    (hfree : ∀ i ∈ nodes, (w.placed s).isFree i = true) :
    ∃ next, w.placeAll l s start nodes = .ok next ∧ I next ∧
      (w.placed next).length = l.levels.size ∧
      w.placed next = l.placeAll (w.placed s) start nodes := by
  rw [placeAll, Placer.placeAll]
  -- along the nodes, the first of which may have any number
  generalize 0 = first
  induction nodes generalizing s first with
  | nil => exact ⟨s, rfl, hs, hlen, rfl⟩
  | cons i nodes ih =>
    obtain ⟨hi, hrest⟩ := List.nodup_cons.1 hnodes
    obtain ⟨next, hplace, hnext, hplaced⟩ :=
      h.place (start + ofCount first * l.spacing) hs hlen (hfree i List.mem_cons_self)
    have hlen' : (w.placed next).length = l.levels.size := by
      rw [hplaced]
      exact (List.length_set ..).trans hlen
    have hfree' : ∀ j ∈ nodes, (w.placed next).isFree j = true := by
      intro j hj
      have hne : i ≠ j := fun heq => hi (heq ▸ hj)
      rw [hplaced, Placer.place, Placed.isFree_set_of_ne hne]
      exact hfree j (List.mem_cons_of_mem i hj)
    rw [List.zipIdx_cons, List.foldlM_cons, List.foldl_cons, hplace, ← hplaced]
    exact ih hrest hnext hlen' hfree' (first + 1)

/-- What the loop over the queue works with. -/
structure Serving (w : Placing σ) (l : Placer) (I : σ → Prop) (s : σ × List Nat) : Prop where
  kept : I s.1
  length : (w.placed s.1).length = l.levels.size
  queue : ∀ i ∈ s.2, i < l.levels.size

/-- A round takes a node from the queue, and its children join the queue when they are placed. -/
theorem serve_cons (h : w.Keeps l I) (hedges : ∀ e ∈ t.edges, e.2 < l.levels.size)
    {queue : List Nat} {parent : Nat} (hs : w.Serving l I (s, parent :: queue)) :
    ∃ next, w.serve t l (s, parent :: queue) = .ok (some next) ∧
      (w.placed next.1).unplaced + next.2.length
        < (w.placed s).unplaced + (parent :: queue).length ∧
      w.Serving l I next ∧
      Placer.run t l (parent :: queue) (w.placed s) = Placer.run t l next.2 (w.placed next.1) := by
  -- A round takes `parent` off the queue; the count falls as every child it puts on gets a place.
  have hparent := hs.queue parent List.mem_cons_self
  have hrest : ∀ i ∈ queue, i < l.levels.size :=
    fun i hi => hs.queue i (List.mem_cons_of_mem parent hi)
  have hshorter : (w.placed s).unplaced + queue.length
      < (w.placed s).unplaced + (parent :: queue).length :=
    Nat.add_lt_add_left (Nat.lt_succ_self _) _
  have hskip : w.Serving l I (s, queue) := ⟨hs.kept, hs.length, hrest⟩
  obtain ⟨place, hplace⟩ := exists_place hs.length hparent
  have hat : (w.placed s).at parent = place := by
    rw [Placed.at, hplace, Option.join_some]
  rw [serve]
  dsimp only
  rw [fetch_level hparent, ok_bind, fetch_eq hplace, ok_bind, Placer.run, hat]
  -- a parent without level or place, and one without free children, is only taken off
  cases hlevel : l.levels.at parent with
  | none => exact ⟨(s, queue), rfl, hshorter, hskip, rfl⟩
  | some level =>
    cases place with
    | none => exact ⟨(s, queue), rfl, hshorter, hskip, rfl⟩
    | some q =>
      dsimp only
      rw [children_eq hs.length hedges, ok_bind]
      split
      · exact ⟨(s, queue), rfl, hshorter, hskip, rfl⟩
      · rename_i hsome
        generalize hbelow : Placer.children t l (w.placed s) parent level = below at hsome ⊢
        have hnodup : below.Nodup := hbelow ▸ Placer.nodup_children ..
        have hfree : ∀ i ∈ below, (w.placed s).isFree i = true :=
          fun i hi => Placer.isFree_of_mem_children (hbelow ▸ hi)
        have hpos : 1 ≤ below.length :=
          List.length_pos_iff.2 fun hnil => hsome (List.isEmpty_iff.2 hnil)
        obtain ⟨next, hplaced, hnext, hlen, hplaces⟩ :=
          placeAll_ok h (s := s) (q.x - ofCount (below.length - 1) * l.spacing / 2) hnodup hs.kept
            hs.length hfree
        have hless := Placer.unplaced_placeAll l
          (q.x - ofCount (below.length - 1) * l.spacing / 2) hnodup hfree
        rw [minus_eq hpos, ok_bind, hplaced, ok_bind]
        refine ⟨(next, queue ++ below), rfl, ?_, ⟨hnext, hlen, ?_⟩, by rw [← hplaces]⟩
        · dsimp only
          rw [hplaces, List.length_append, List.length_cons]
          omega
        · intro i hi
          rcases List.mem_append.1 hi with hold | hnew
          · exact hrest i hold
          · exact lt_of_mem_children hedges (hbelow ▸ hnew)

/-- The queue runs empty, and then all places are there. -/
theorem drain_serve_ok (h : w.Keeps l I) (hedges : ∀ e ∈ t.edges, e.2 < l.levels.size)
    {queue : List Nat} (hs : w.Serving l I (s, queue)) :
    ∃ last, drain (fun s : σ × List Nat => (w.placed s.1).unplaced + s.2.length) .stuck
        (w.serve t l) (s, queue) = .ok last ∧
      w.Serving l I last ∧ w.placed last.1 = Placer.run t l queue (w.placed s) := by
  -- the rounds keep what the run ends with
  have hrounds : ∀ r : σ × List Nat, w.Serving l I r ∧
      Placer.run t l r.2 (w.placed r.1) = Placer.run t l queue (w.placed s) →
        w.serve t l r = .ok none ∨ ∃ next, w.serve t l r = .ok (some next) ∧
          (w.placed next.1).unplaced + next.2.length < (w.placed r.1).unplaced + r.2.length ∧
          w.Serving l I next ∧
          Placer.run t l next.2 (w.placed next.1) = Placer.run t l queue (w.placed s) := by
    rintro ⟨r, left⟩ ⟨hr, hrun⟩
    cases left with
    | nil => exact .inl rfl
    | cons parent left =>
      obtain ⟨next, hround, hless, hnext, hsame⟩ := serve_cons h hedges hr
      exact .inr ⟨next, hround, hless, hnext, hsame.symm.trans hrun⟩
  obtain ⟨⟨last, left⟩, hdrain, ⟨hlast, hrun⟩, hdone⟩ :=
    exists_drain_eq_ok _ .stuck hrounds ⟨hs, rfl⟩
  cases left with
  | nil =>
    rw [Placer.run] at hrun
    exact ⟨_, hdrain, hlast, hrun⟩
  | cons parent left =>
    obtain ⟨next, hround, -⟩ := serve_cons h hedges hlast
    cases hdone.symm.trans hround

/-- The tree is placed in any way that can place the nodes that have no place. -/
theorem tree_ok (h : w.Keeps l I) (hcount : t.count ≠ 0) (hsize : l.levels.size = t.count)
    (hedges : ∀ e ∈ t.edges, e.2 < l.levels.size) :
    ∃ s, w.tree t l = .ok s ∧ I s ∧ w.placed s = Placer.tree t l ∧
      (w.placed s).length = t.count := by
  have hstart := h.placed_start
  have hroots : ∀ i ∈ Placer.roots t, i < l.levels.size := fun i hi => by
    rw [hsize]
    exact lt_of_mem_roots hi
  have hfree : ∀ i ∈ Placer.roots t, (w.placed (w.start l.levels.size)).isFree i = true :=
    fun i hi => by
      rw [hstart]
      exact isFree_replicate (hroots i hi)
  have hpos : 1 ≤ (Placer.roots t).length := List.length_pos_iff.2 (roots_ne_nil hcount)
  obtain ⟨first, hplaced, hfirst, hlen, hplaces⟩ :=
    placeAll_ok h (l.center.x - ofCount ((Placer.roots t).length - 1) * l.spacing / 2)
      (nodup_roots t) h.start (by rw [hstart, List.length_replicate]) hfree
  have hserving : w.Serving l I (first, Placer.roots t) := ⟨hfirst, hlen, hroots⟩
  obtain ⟨last, hserved, hlast, hrun⟩ := drain_serve_ok h hedges hserving
  rw [tree, minus_eq hpos, ok_bind]
  dsimp only
  rw [← hsize, hplaced, ok_bind, hserved]
  refine ⟨last.1, rfl, hlast.kept, ?_, hlast.length.trans rfl⟩
  rw [hrun, hplaces, hstart, hsize]
  rfl

end Placing

/-! ## What is left over -/

/-- A node with a place keeps it when the columns are filled in. -/
theorem fillIn_placed (column : Float32) {counts : List Nat} {i : Nat} {q : Point}
    (h : placed[i]? = some (some q)) :
    fillIn l column (counts, placed) i = .ok (counts, placed) := by
  rw [fillIn, fetch_eq h]
  rfl

/-- A node that is left takes the next column of its row. -/
theorem fillIn_free (column : Float32) {counts : List Nat} {i count : Nat}
    (h : placed[i]? = some none) (hi : i < l.levels.size)
    (hcount : counts[l.level i]? = some count) :
    fillIn l column (counts, placed) i
      = .ok (counts.modify (l.level i) (· + 1),
          placed.set i (some ⟨column + ofCount count * l.spacing, l.rowY i⟩)) := by
  have hlt := (List.getElem?_eq_some_iff.1 hcount).1
  have hplace := (List.getElem?_eq_some_iff.1 h).1
  rw [fillIn, fetch_eq h, ok_bind, Option.isSome_none, if_neg Bool.false_ne_true, level_eq hi]
  simp only [ok_bind, fetch_eq hcount, update_eq hlt, store_eq hplace]
  rfl

/-- The loop over the nodes that are left fills their places in as the walk along the places does,
    if the table of counts has an entry for every level. -/
theorem fillIn_eq (column : Float32) (rest before : Placed) (counts : List Nat)
    (hlen : (before ++ rest).length = l.levels.size)
    (hrow : ∀ i < l.levels.size, l.level i < counts.length) :
    ∃ counts', (List.range' before.length rest.length).foldlM (fillIn l column)
        (counts, before ++ rest)
      = .ok (counts', before ++ (l.fillIn column counts before.length rest).map some) := by
  -- along the rest, while `before` grows by the places that are passed
  induction rest generalizing before counts with
  | nil => exact ⟨counts, rfl⟩
  | cons place rest ih =>
    have hplace : (before ++ place :: rest)[before.length]? = some place := by simp
    rw [List.length_cons, List.range'_succ, List.foldlM_cons]
    cases place with
    | some q =>
      obtain ⟨counts', hrest⟩ := ih (before ++ [some q]) counts (by simpa using hlen) hrow
      refine ⟨counts', ?_⟩
      rw [fillIn_placed column hplace, ok_bind]
      simpa [Placer.fillIn] using hrest
    | none =>
      have hi : before.length < l.levels.size := by
        rw [← hlen, List.length_append, List.length_cons]
        omega
      obtain ⟨count, hcount⟩ : ∃ count, counts[l.level before.length]? = some count :=
        ⟨_, List.getElem?_eq_getElem (hrow before.length hi)⟩
      obtain ⟨counts', hrest⟩ := ih
        (before ++ [some ⟨column + ofCount count * l.spacing, l.rowY before.length⟩])
        (counts.modify (l.level before.length) (· + 1)) (by simpa using hlen)
        (by simpa using hrow)
      refine ⟨counts', ?_⟩
      rw [fillIn_free column hplace hi hcount, ok_bind]
      simpa [Placer.fillIn, hcount] using hrest

/-- The points of an engine can be computed from a table of all places. -/
theorem points_eq (hlen : placed.length = l.levels.size)
    (hrow : ∀ i < l.levels.size, l.level i < l.levels.size) :
    points l placed = .ok (l.points placed) := by
  obtain ⟨counts, hfill⟩ := fillIn_eq
    ((placed.reduceOption.map Point.x).foldl larger (-infinity) + l.spacing) placed []
    (List.replicate placed.length 0) hlen (by simpa [hlen] using hrow)
  rw [List.nil_append, List.length_nil, ← List.range_eq_range'] at hfill
  rw [points, hfill, ok_bind, List.nil_append]
  dsimp only
  rw [List.map_map]
  exact congrArg Except.ok (List.map_id' _)

/-- Every node has an entry in the table of levels. -/
theorem size_levels_ofGraph (g : Graph) (p : Params) :
    (Placer.ofGraph g (.ofGraph g) p).levels.size = (Topology.ofGraph g).count :=
  settled_levels.size

/-! ## Layouts -/

namespace Placing

/-- The positions of a graph are found in any way that can place the nodes that have no place. -/
theorem hierarchical_ok {σ : Type} {w : Placing σ} {I : σ → Prop} (g : Graph) (p : Params)
    (h : w.Keeps (.ofGraph g (.ofGraph g) p) I) :
    ∃ s, w.hierarchical g p = .ok (s, Engine.hierarchical g p) ∧ I s ∧
      w.placed s = Hierarchical.tree (.ofGraph g p) := by
  have hsize := size_levels_ofGraph g p
  rw [hierarchical, Engine.hierarchical]
  by_cases hempty : g.nodes.length = 0
  · -- without nodes nothing is placed, and the start is the result
    have hnone : (Placer.ofGraph g (.ofGraph g) p).levels.size = 0 := by
      rw [hsize, count_topology, hempty]
    have hlen : (Hierarchical.tree (.ofGraph g p)).length = 0 := by
      rw [length_tree, count_ofGraph, hempty]
    have hstart := h.start
    have hplaced := h.placed_start
    rw [hnone] at hstart hplaced
    rw [if_pos hempty, if_pos hempty]
    exact ⟨_, rfl, hstart, hplaced.trans (List.length_eq_zero_iff.1 hlen).symm⟩
  · have hedges : ∀ e ∈ (Topology.ofGraph g).edges,
        e.1 < (Topology.ofGraph g).count ∧ e.2 < (Topology.ofGraph g).count :=
      fun _ => lt_of_mem_edges
    have hcount : (Topology.ofGraph g).count ≠ 0 := by rwa [count_topology]
    obtain ⟨s, htree, hs, hplaced, hlength⟩ := tree_ok h hcount hsize fun e he => by
      rw [hsize]
      exact (hedges e he).2
    have hrow : ∀ i < (Placer.ofGraph g (.ofGraph g) p).levels.size,
        (Placer.ofGraph g (.ofGraph g) p).level i < (Placer.ofGraph g (.ofGraph g) p).levels.size :=
      fun i _ => by
        rw [hsize]
        exact row_lt (Nat.pos_of_ne_zero hcount) i
    rw [if_neg hempty, if_neg hempty, topology_eq, ok_bind, levels_eq hedges, ok_bind]
    have hsame : { Placer.ofGraph g (.ofGraph g) p with
        levels := Layout.levels (Topology.ofGraph g).count (Placer.roots (.ofGraph g))
          (Topology.ofGraph g).edges } = Placer.ofGraph g (.ofGraph g) p := rfl
    dsimp only
    rw [hsame, htree, ok_bind, points_eq (hlength.trans hsize.symm) hrow, hplaced]
    refine ⟨s, rfl, hs, ?_⟩
    rw [hplaced, placer_ofGraph p hempty, Engine.tree_eq p hempty]

end Placing

/-- The engine is its own way to place nodes. -/
theorem hierarchical_plain (g : Graph) (p : Params) :
    hierarchical g p = Prod.snd <$> Placing.plain.hierarchical g p := by
  rw [hierarchical, Placing.hierarchical]
  split
  · rfl
  · simp only [map_bind, map_pure, Placing.tree_plain]
    rfl

/-- The hierarchical engine never stops. -/
theorem hierarchical_eq (g : Graph) (p : Params) :
    hierarchical g p = .ok (Engine.hierarchical g p) := by
  obtain ⟨placed, hplain, -⟩ := Placing.hierarchical_ok g p (Placing.keeps_plain _)
  rw [hierarchical_plain, hplain]
  rfl

end DotLayout.Layout.Checked
