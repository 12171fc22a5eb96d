import DotLayout.Proofs.Layout.Engine.Topology
import Mathlib

/-! # The engine of the force-directed layout

    The engine keeps a table of velocities.  In each step it goes through the pairs of nodes, and
    then through the edges of the topology, and adds every force to the velocity of one end and
    takes it off the velocity of the other one.  Then it moves the nodes.

    * `getElem?_foldl_pair` : the velocity of a node is the sum of the forces at that node alone.
    * `filter_pairs` : the pairs in which a node takes part, in the order of the loop.
    * `step_eq` : a step of the engine is a step of the layout over the scene; so are all steps.
    * `polar_zero` : the circle of a node on its own has no radius, and is the center. -/

namespace DotLayout.Layout.Engine

open Numeric ForceDirected

/-- What an engine works with during a run. -/
structure Simulation where
  positions : List Point
  pinned : Option Nat
  edges : List (Nat × Nat)
  center : Point
  bounds : Bounds
  maxStep : Float32
  repulsion : Float32
  force : Force

/-- The pairs of a number with the larger numbers below a bound. -/
def pairsFrom (count i : Nat) : List (Nat × Nat) :=
  (List.range' (i + 1) (count - (i + 1))).map fun j => (i, j)

/-- The pairs of different numbers below a bound, the smaller number first. -/
def pairs (count : Nat) : List (Nat × Nat) := (List.range count).flatMap (pairsFrom count)

/-- Adds a vector to the entry of one node and takes it off the entry of another one. -/
def addPair (d : Point) (velocities : List Point) (e : Nat × Nat) : List Point :=
  (velocities.modify e.1 (· + d)).modify e.2 (· - d)

namespace Simulation

/-- The position of a node. -/
def position (s : Simulation) (i : Nat) : Point := s.positions[i]?.getD .origin

/-- The force between two nodes that push each other apart. -/
def push (s : Simulation) (e : Nat × Nat) : Point :=
  let delta := s.position e.1 - s.position e.2
  let distance := delta.length
  let direction :=
    if sameSpot < distance then delta.scale (1 / distance)
    else .polar .origin 1 (tau * ofCount e.1 / ofCount s.positions.length)
  let near := larger distance 1
  direction.scale (s.repulsion / (near * near))

/-- The force along an edge, which pulls its ends together. -/
def pull (s : Simulation) (e : Nat × Nat) : Point :=
  (s.position e.2 - s.position e.1).scale s.force.attraction

/-- The velocities: all pairs of nodes push each other away, and edges pull their ends together. -/
def velocities (s : Simulation) : List Point :=
  let still := List.replicate s.positions.length .origin
  let pushed := (pairs s.positions.length).foldl (fun v e => addPair (s.push e) v e) still
  s.edges.foldl (fun v e => addPair (s.pull e) v e) pushed

/-- Where a node is after a step. -/
def move (s : Simulation) (i : Nat) (p velocity : Point) : Except ClampFault Point :=
  if s.pinned = some i then .ok s.center
  else
    let step := velocity.scale s.force.damping
    let length := step.length
    let step := if s.maxStep < length then step.scale (s.maxStep / length) else step
    if step.isFinite then s.bounds.clampPoint (p + step) else .ok p

/-- One step, which moves every node by its velocity. -/
def step (s : Simulation) : Except ClampFault Simulation := do
  let positions ← (s.positions.zip s.velocities).zipIdx.mapM fun ((p, v), i) => s.move i p v
  return { s with positions }

/-- Some steps, one after the other. -/
def run : Nat → Simulation → Except ClampFault Simulation
  | 0, s => .ok s
  | steps + 1, s => do run steps (← s.step)

/-- The simulation of a graph, with its nodes at their starts. -/
def ofGraph (g : Graph) (p : Params) : Simulation :=
  let n := g.nodes.length
  let spacing := minSpacing g p
  let pinned := p.anchor.bind g.indexOf?
  let radius := if 1 < n then larger (spacing * ofCount n / tau) spacing else 0
  let reach := spacing * p.force.repulsion
  { positions := (List.range n).map fun i =>
      if some i = pinned then p.center
      else .polar p.center radius (-tau / 4 + tau * ofCount i / ofCount n)
    pinned := pinned
    edges := (Topology.ofGraph g).edges
    center := p.center
    bounds := p.bounds.getD (
      let half := larger (spacing * ofCount n / tau) spacing * 2
      .around p.center ⟨half * 2, half * 2⟩)
    maxStep := spacing
    repulsion := reach * reach
    force := p.force }

end Simulation

/-- The engine of the simulation. -/
def forceDirected (g : Graph) (p : Params) : Except ClampFault Positions :=
  if g.nodes.length = 0 then .ok {}
  else do
    let s ← (Simulation.ofGraph g p).run p.force.iterations
    return collect g s.positions

/-! ## The forces at one node -/

/-- What a loop that gives a force to both ends of every pair does to a single entry. -/
theorem getElem?_foldl_pair {l : List (Nat × Nat)} (d : Nat × Nat → Point)
    (h : ∀ e ∈ l, e.1 ≠ e.2) (velocities : List Point) (k : Nat) :
    (l.foldl (fun v e => addPair (d e) v e) velocities)[k]?
      = velocities[k]?.map fun v => l.foldl
          (fun total e =>
            if e.1 = k then total + d e else if e.2 = k then total - d e else total) v := by
  induction l generalizing velocities with
  | nil => simp
  | cons e l ih =>
    have hne := h e List.mem_cons_self
    rw [List.foldl_cons, ih (fun e' he' => h e' (List.mem_cons_of_mem e he')), addPair,
      List.getElem?_modify, List.getElem?_modify]
    cases velocities[k]? with
    | none => rfl
    | some v =>
      simp only [Option.map_eq_map, Option.map_some, List.foldl_cons]
      by_cases hsource : e.1 = k
      · have htarget : e.2 ≠ k := fun heq => hne (hsource.trans heq.symm)
        simp [hsource, htarget]
      · simp [hsource]

/-- The pairs of a node are those with the nodes behind it. -/
theorem mem_pairsFrom {count i : Nat} {e : Nat × Nat} :
    e ∈ pairsFrom count i ↔ e.1 = i ∧ i < e.2 ∧ e.2 < count := by
  simp only [pairsFrom, List.mem_map, List.mem_range'_1]
  constructor
  · rintro ⟨j, hj, rfl⟩
    exact ⟨rfl, by omega, by omega⟩
  · rintro ⟨rfl, hlt, hcount⟩
    exact ⟨e.2, ⟨hlt, by omega⟩, rfl⟩

/-- No node makes a pair with itself. -/
theorem fst_ne_snd_of_mem_pairs {count : Nat} {e : Nat × Nat} (h : e ∈ pairs count) :
    e.1 ≠ e.2 := by
  obtain ⟨i, -, he⟩ := List.mem_flatMap.1 h
  obtain ⟨rfl, hlt, -⟩ := mem_pairsFrom.1 he
  exact Nat.ne_of_lt hlt

/-- Of the pairs of a node, one is with a given node behind it. -/
theorem filter_pairsFrom_of_lt {count i k : Nat} (hik : i < k) (hk : k < count) :
    (pairsFrom count i).filter (fun e => e.1 == k || e.2 == k) = [(i, k)] := by
  have hone : (List.range' (i + 1) (count - (i + 1))).count k = 1 :=
    List.count_eq_one_of_mem List.nodup_range' (List.mem_range'_1.2 ⟨hik, by omega⟩)
  have htest : ((fun e : Nat × Nat => e.1 == k || e.2 == k) ∘ fun j => (i, j)) = (· == k) := by
    funext j
    simp [Nat.ne_of_lt hik]
  rw [pairsFrom, List.filter_map, htest, List.filter_beq, hone]
  rfl

/-- The nodes in front of one, that node and the nodes behind it are all nodes. -/
theorem range_split {count k : Nat} (h : k < count) :
    List.range count = List.range k ++ k :: List.range' (k + 1) (count - (k + 1)) := by
  have happend : List.range' 0 k ++ List.range' (0 + k) (count - (k + 1) + 1)
      = List.range' 0 (k + (count - (k + 1) + 1)) := List.range'_append_1
  have hcount : k + (count - (k + 1) + 1) = count := by omega
  rw [Nat.zero_add, hcount, List.range'_succ] at happend
  rw [List.range_eq_range', List.range_eq_range', happend]

/-- A node takes part in the pairs with all smaller numbers, and then in those with all larger
    ones. -/
theorem filter_pairs {count k : Nat} (h : k < count) :
    (pairs count).filter (fun e => e.1 == k || e.2 == k)
      = (List.range k).map (fun i => (i, k)) ++ pairsFrom count k := by
  have hbefore : ∀ i ∈ List.range k,
      (pairsFrom count i).filter (fun e => e.1 == k || e.2 == k) = [(i, k)] := fun i hi =>
    filter_pairsFrom_of_lt (List.mem_range.1 hi) h
  have hat : (pairsFrom count k).filter (fun e => e.1 == k || e.2 == k) = pairsFrom count k := by
    refine List.filter_eq_self.2 fun e he => ?_
    simp [(mem_pairsFrom.1 he).1]
  have hbehind : ∀ i ∈ List.range' (k + 1) (count - (k + 1)),
      (pairsFrom count i).filter (fun e => e.1 == k || e.2 == k) = [] := by
    intro i hi
    have hki := (List.mem_range'_1.1 hi).1
    refine List.filter_eq_nil_iff.2 fun e he => ?_
    obtain ⟨hfst, hlt, -⟩ := mem_pairsFrom.1 he
    simp only [Bool.or_eq_true, beq_iff_eq]
    omega
  rw [pairs, List.filter_flatMap, range_split h, List.flatMap_append, List.flatMap_cons, hat,
    List.flatMap_congr hbefore, List.flatMap_eq_nil_iff.2 hbehind, List.append_nil]
  exact congrArg (· ++ _) (List.flatMap_pure_eq_map ..)

/-! ## The simulation of a scene -/

/-- The simulation that has come to some positions. -/
def Simulation.ofScene (s : Scene) (points : List Point) : Simulation where
  positions := points
  pinned := s.anchor
  edges := s.arrows
  center := s.measures.center
  bounds := s.measures.bounds.getD (defaultBounds s)
  maxStep := s.spacing
  repulsion := (Field.ofScene s).repulsion
  force := s.measures.force

variable {s : Scene} {points : List Point}

/-- A pair of nodes pushes in the engine as it does in the layout. -/
theorem push_eq (hlen : points.length = s.count) {i j : Nat} (hi : i < s.count) :
    (Simulation.ofScene s points).push (i, j)
      = ForceDirected.push (.ofScene s) i (points[i]?.getD .origin) (points[j]?.getD .origin) := by
  have hescape : (Field.ofScene s).escapes[i]?.getD .origin
      = Point.polar .origin 1 (tau * ofCount i / ofCount s.count) := by
    simp [Field.ofScene, hi]
  simp only [Simulation.push, ForceDirected.push, hescape, ← hlen]
  rfl

/-- Numbering the points of a table is looking up each number. -/
theorem zipIdx_eq_map_range (points : List Point) :
    points.zipIdx = (List.range points.length).map fun j => (points[j]?.getD .origin, j) := by
  refine List.ext_getElem (by simp) ?_
  intro j hj hj'
  rw [List.length_zipIdx] at hj
  simp [hj]

/-- The loop over the pairs gives a node the pushes that the layout over the scene adds up. -/
theorem foldl_pairs_eq (hlen : points.length = s.count) {k : Nat} (hk : k < s.count) :
    (pairs s.count).foldl
      (fun total e =>
        if e.1 = k then total + (Simulation.ofScene s points).push e
        else if e.2 = k then total - (Simulation.ofScene s points).push e else total) .origin
    = pushes (.ofScene s) points k (points[k]?.getD .origin) := by
  -- pairs without the node give nothing to it
  have hskip : (fun (total : Point) (e : Nat × Nat) =>
        if e.1 = k then total + (Simulation.ofScene s points).push e
        else if e.2 = k then total - (Simulation.ofScene s points).push e else total)
      = fun total e => if e.1 == k || e.2 == k then
          (if e.1 = k then total + (Simulation.ofScene s points).push e
          else total - (Simulation.ofScene s points).push e) else total := by
    funext total e
    by_cases hsource : e.1 = k
    · simp [hsource]
    · by_cases htarget : e.2 = k <;> simp [hsource, htarget]
  rw [hskip, ← List.foldl_filter, filter_pairs hk, List.foldl_append, List.foldl_map, pairsFrom,
    List.foldl_map, pushes, zipIdx_eq_map_range, List.foldl_map, hlen, range_split hk,
    List.foldl_append, List.foldl_cons]
  simp only [Nat.lt_irrefl, if_false, if_true]
  have hbefore : ∀ total : Point, ∀ i ∈ List.range k,
      (if i = k then total + (Simulation.ofScene s points).push (i, k)
        else total - (Simulation.ofScene s points).push (i, k))
      = if i < k then total - ForceDirected.push (.ofScene s) i (points[i]?.getD .origin)
            (points[k]?.getD .origin)
          else if k < i then total + ForceDirected.push (.ofScene s) k (points[k]?.getD .origin)
            (points[i]?.getD .origin)
          else total := by
    intro total i hi
    have hik := List.mem_range.1 hi
    rw [if_neg (Nat.ne_of_lt hik), if_pos hik, push_eq hlen (Nat.lt_trans hik hk)]
  have hbehind : ∀ total : Point, ∀ j ∈ List.range' (k + 1) (s.count - (k + 1)),
      total + (Simulation.ofScene s points).push (k, j)
      = if j < k then total - ForceDirected.push (.ofScene s) j (points[j]?.getD .origin)
            (points[k]?.getD .origin)
          else if k < j then total + ForceDirected.push (.ofScene s) k (points[k]?.getD .origin)
            (points[j]?.getD .origin)
          else total := by
    intro total j hj
    have hkj : k < j := (List.mem_range'_1.1 hj).1
    rw [if_neg (Nat.lt_asymm hkj), if_pos hkj, push_eq hlen hk]
  rw [List.foldl_ext _ _ _ hbefore, List.foldl_ext _ _ _ hbehind]

/-- After the loops, the table holds the velocities of the layout over the scene. -/
theorem velocities_eq (hlen : points.length = s.count) (hne : ∀ a ∈ s.arrows, a.1 ≠ a.2) {k : Nat}
    (hk : k < s.count) :
    (Simulation.ofScene s points).velocities[k]?
      = some (velocity (.ofScene s) points k (points[k]?.getD .origin)) := by
  have hpairs : ∀ e ∈ pairs s.count, e.1 ≠ e.2 := fun e => fst_ne_snd_of_mem_pairs
  have hedges : ∀ e ∈ (Simulation.ofScene s points).edges, e.1 ≠ e.2 := hne
  have hcount : (Simulation.ofScene s points).positions.length = s.count := hlen
  rw [Simulation.velocities, hcount, getElem?_foldl_pair _ hedges, getElem?_foldl_pair _ hpairs,
    List.getElem?_replicate, if_pos hk, Option.map_some, Option.map_some, foldl_pairs_eq hlen hk]
  rfl

/-- There is a velocity for every node. -/
theorem length_velocities (s : Simulation) : s.velocities.length = s.positions.length := by
  have fold : ∀ (l : List (Nat × Nat)) (d : Nat × Nat → Point) (velocities : List Point),
      (l.foldl (fun v e => addPair (d e) v e) velocities).length = velocities.length := by
    intro l d velocities
    induction l generalizing velocities with
    | nil => rfl
    | cons e l ih => rw [List.foldl_cons, ih, addPair, List.length_modify, List.length_modify]
  rw [Simulation.velocities, fold, fold, List.length_replicate]

/-- The positions and the velocities side by side, as a step goes through them. -/
theorem zip_velocities (hlen : points.length = s.count) (hne : ∀ a ∈ s.arrows, a.1 ≠ a.2) :
    (points.zip (Simulation.ofScene s points).velocities).zipIdx
      = points.zipIdx.map fun slot =>
          ((slot.1, velocity (.ofScene s) points slot.2 slot.1), slot.2) := by
  have hlength : (Simulation.ofScene s points).velocities.length = points.length :=
    length_velocities (.ofScene s points)
  refine List.ext_getElem ?_ ?_
  · rw [List.length_zipIdx, List.length_zip, hlength, Nat.min_self, List.length_map,
      List.length_zipIdx]
  · intro k hk hk'
    have hbound : k < points.length := by rwa [List.length_map, List.length_zipIdx] at hk'
    have hvelocity := velocities_eq hlen hne (k := k) (by omega)
    rw [List.getElem?_eq_getElem (by omega), Option.some_inj,
      List.getElem?_eq_getElem hbound, Option.getD_some] at hvelocity
    rw [List.getElem_zipIdx, List.getElem_zip, List.getElem_map, List.getElem_zipIdx, hvelocity,
      Nat.zero_add]

/-- A step of the engine is a step of the layout over the scene. -/
theorem step_eq (hlen : points.length = s.count) (hne : ∀ a ∈ s.arrows, a.1 ≠ a.2) :
    (Simulation.ofScene s points).step
      = (ForceDirected.step (.ofScene s) points).map (Simulation.ofScene s) := by
  have hmoves : (points.zip (Simulation.ofScene s points).velocities).zipIdx.mapM
        (fun ((p, v), i) => (Simulation.ofScene s points).move i p v)
      = ForceDirected.step (.ofScene s) points := by
    rw [zip_velocities hlen hne, List.mapM_map]
    rfl
  have hstep : (Simulation.ofScene s points).step
      = (points.zip (Simulation.ofScene s points).velocities).zipIdx.mapM
          (fun ((p, v), i) => (Simulation.ofScene s points).move i p v) >>= fun positions =>
            .ok (Simulation.ofScene s positions) := rfl
  rw [hstep, hmoves]
  cases ForceDirected.step (.ofScene s) points <;> rfl

/-- The steps of the engine are the steps of the layout. -/
theorem run_ofScene (hne : ∀ a ∈ s.arrows, a.1 ≠ a.2) (steps : Nat)
    (hlen : points.length = s.count) :
    (Simulation.ofScene s points).run steps
      = (ForceDirected.run (.ofScene s) steps points).map (Simulation.ofScene s) := by
  induction steps generalizing points with
  | zero => rfl
  | succ steps ih =>
    rw [Simulation.run, step_eq hlen hne, run_succ]
    cases hstep : ForceDirected.step (.ofScene s) points with
    | error fault => rfl
    | ok moved =>
      have hmoved := length_mapM hstep
      rw [List.length_zipIdx, hlen] at hmoved
      exact ih hmoved

/-! ## The start -/

/-- The negative zero, which changes no number that it is added to.  The other zero changes this
    one. -/
def negativeZero : Float32 := .ofBits 0x80000000

open Float.Model UnpackedFloat in
/-- Adding a negative zero changes nothing, not even the sign of a zero. -/
theorem add_negativeZero (x : Float32) : x + negativeZero = x := by
  have hzero : negativeZero.toModel.unpack = .zero .negative := rfl
  have hadd : UnpackedFloat.add .binary32 x.toModel.unpack (.zero .negative)
      = x.toModel.unpack := by
    cases x.toModel.unpack with
    | infinity sign => rfl
    | notANumber => rfl
    | zero sign => cases sign <;> rfl
    | finite sign mantissa exponent h => rfl
  show Float32.ofModel
    (.pack (UnpackedFloat.add .binary32 x.toModel.unpack negativeZero.toModel.unpack)) = x
  rw [hzero, hadd]
  exact Float32.ofBits_toBits x

/-- The place of a node on its own, on a circle without a radius, is the center. -/
theorem polar_zero (center : Point) :
    Point.polar center 0 (-tau / 4 + tau * ofCount 0 / ofCount 1) = center := by
  have hcos : 0 * cos (-tau / 4 + tau * ofCount 0 / ofCount 1) = negativeZero := by decide +kernel
  have hsin : 0 * sin (-tau / 4 + tau * ofCount 0 / ofCount 1) = negativeZero := by decide +kernel
  rw [Point.polar, hcos, hsin, add_negativeZero, add_negativeZero]

/-- The engine starts from the points that the layout starts from. -/
theorem positions_ofGraph (g : Graph) (p : Params) :
    (Simulation.ofGraph g p).positions = startPoints (.ofGraph g p) := by
  have hanchor : (Scene.ofGraph g p).anchor = p.anchor.bind g.indexOf? := rfl
  have hcenter : (Scene.ofGraph g p).measures.center = p.center := rfl
  simp only [Simulation.ofGraph, startPoints, startRadius, count_ofGraph, minSpacing_eq, hanchor,
    hcenter]
  refine List.map_congr_left fun i hi => ?_
  have hlt := List.mem_range.1 hi
  by_cases hpinned : p.anchor.bind g.indexOf? = some i
  · rw [if_pos hpinned.symm, if_pos (.inl hpinned)]
  · rw [if_neg fun h => hpinned h.symm]
    by_cases hone : g.nodes.length = 1
    · have hfirst : i = 0 := by omega
      have hnot : ¬ 1 < g.nodes.length := by omega
      rw [if_neg hnot, if_pos (Or.inr hone), hone, hfirst, polar_zero]
    · have hmany : 1 < g.nodes.length := by omega
      rw [if_neg (not_or.2 ⟨hpinned, hone⟩), if_pos hmany]

/-- The simulation of a graph is that of its scene. -/
theorem simulation_ofGraph (g : Graph) (p : Params) :
    Simulation.ofGraph g p = .ofScene (.ofGraph g p) (startPoints (.ofGraph g p)) := by
  rw [← positions_ofGraph g p]
  simp only [Simulation.ofGraph, Simulation.ofScene, Field.ofScene, defaultBounds, startRadius,
    count_ofGraph, minSpacing_eq, edges_ofGraph g p]
  rfl

/-- The engine places every node where the layout over the scene does, and fails where it does. -/
theorem forceDirected_eq (g : Graph) (p : Params) :
    Algorithm.forceDirected.layout g p = forceDirected g p := by
  have hne : ∀ a ∈ (Scene.ofGraph g p).arrows, a.1 ≠ a.2 := by
    rintro ⟨i, j⟩ h
    exact (mem_arrows_ofGraph.1 h).1
  have hlen : (startPoints (.ofGraph g p)).length = (Scene.ofGraph g p).count := by
    rw [startPoints, List.length_map, List.length_range]
  rw [forceDirected]
  by_cases hempty : g.nodes.length = 0
  · have hstart : startPoints (.ofGraph g p) = [] :=
      List.length_eq_zero_iff.1 (by rw [hlen, count_ofGraph, hempty])
    have hstill : ForceDirected.step (.ofScene (.ofGraph g p)) [] = .ok [] := rfl
    rw [if_pos hempty]
    refine layout_of_no_points ?_
    rw [Algorithm.points, ForceDirected.points, hstart, run_of_step_eq hstill]
  · have hsteps : (Scene.ofGraph g p).measures.force.iterations = p.force.iterations := rfl
    rw [if_neg hempty, simulation_ofGraph, run_ofScene hne _ hlen, Algorithm.layout,
      Algorithm.points, ForceDirected.points, hsteps]
    cases ForceDirected.run (.ofScene (.ofGraph g p)) p.force.iterations
      (startPoints (.ofGraph g p)) with
    | error fault => rfl
    | ok points => exact congrArg Except.ok (collect_eq g points).symm

end DotLayout.Layout.Engine
