import DotLayout.Proofs.Layout.Checked.Formula
import DotLayout.Proofs.Layout.Engine.Simulation

/-! # The checked engine of the force-directed layout

    The table of velocities is as long as the table of positions, and no step changes either
    length.  Pairs and edges join nodes, so their ends have entries in both tables.  What is left to
    stop a simulation is its rectangle.

    * `velocities_eq` : all forces find the entries of both ends.
    * `step_eq` : the nodes move one after the other, each in its place in the table, and each as if
      all of them moved at once.
    * `forceDirected_eq` : the engine stops in its rectangle or not at all. -/

namespace DotLayout.Layout.Checked

open Numeric Engine
open ForceDirected (sameSpot)

variable {s : Simulation}

/-- The force between two nodes that push each other apart. -/
def push (s : Simulation) (e : Nat × Nat) : Except Fault Point := do
  let delta := (← fetch s.positions e.1) - (← fetch s.positions e.2)
  let distance := delta.length
  let direction :=
    if sameSpot < distance then delta.scale (1 / distance)
    else .polar .origin 1 (tau * ofCount e.1 / ofCount s.positions.length)
  let near := larger distance 1
  return direction.scale (s.repulsion / (near * near))

/-- The force along an edge, which pulls its ends together. -/
def pull (s : Simulation) (e : Nat × Nat) : Except Fault Point := do
  let target ← fetch s.positions e.2
  let source ← fetch s.positions e.1
  return (target - source).scale s.force.attraction

/-- Adds a force to the entry of one node and takes it off the entry of another one. -/
def exert (force : Nat × Nat → Except Fault Point) (velocities : List Point) (e : Nat × Nat) :
    Except Fault (List Point) := do
  let d ← force e
  update (← update velocities e.1 (· + d)) e.2 (· - d)

/-- The velocities: all pairs of nodes push each other away, and edges pull their ends together. -/
def velocities (s : Simulation) : Except Fault (List Point) := do
  let still := List.replicate s.positions.length .origin
  let pushed ← (pairs s.positions.length).foldlM (exert (push s)) still
  s.edges.foldlM (exert (pull s)) pushed

/-- Moves a node in its place in the table. -/
def move (s : Simulation) (velocities positions : List Point) (i : Nat) :
    Except Fault (List Point) :=
  if s.pinned = some i then store positions i s.center
  else do
    let step := (← fetch velocities i).scale s.force.damping
    let length := step.length
    let step := if s.maxStep < length then step.scale (s.maxStep / length) else step
    if step.isFinite then
      let p ← fetch positions i
      store positions i (← (s.bounds.clampPoint (p + step)).mapError .limits)
    else return positions

/-- One step, which moves every node by its velocity. -/
def step (s : Simulation) : Except Fault Simulation := do
  let velocities ← velocities s
  let positions ← (List.range s.positions.length).foldlM (move s velocities) s.positions
  return { s with positions }

/-- Some steps, one after the other. -/
def run : Nat → Simulation → Except Fault Simulation
  | 0, s => .ok s
  | steps + 1, s => do run steps (← step s)

/-- The simulation of a graph, with every access to its tables checked. -/
def forceDirected (g : Graph) (p : Params) : Except Fault Positions :=
  if g.nodes.length = 0 then .ok {}
  else do
    let t ← topology g
    let s ← run p.force.iterations { Simulation.ofGraph g p with edges := t.edges }
    return collect g s.positions

/-! ## Forces -/

/-- Whether the numbers of a pair are below a bound. -/
def Below (count : Nat) (e : Nat × Nat) : Prop := e.1 < count ∧ e.2 < count

/-- A pair of nodes has entries in the tables. -/
theorem below_of_mem_pairs {count : Nat} {e : Nat × Nat} (h : e ∈ pairs count) : Below count e := by
  obtain ⟨i, hi, he⟩ := List.mem_flatMap.1 h
  obtain ⟨rfl, -, hlt⟩ := mem_pairsFrom.1 he
  exact ⟨List.mem_range.1 hi, hlt⟩

/-- The position of a node can be read. -/
theorem fetch_position {i : Nat} (hi : i < s.positions.length) :
    fetch s.positions i = .ok (s.position i) := by
  have hentry := List.getElem?_eq_getElem hi
  rw [fetch_eq hentry, Simulation.position, hentry, Option.getD_some]

/-- How a pair of nodes pushes can be computed. -/
theorem push_eq {e : Nat × Nat} (h : Below s.positions.length e) :
    push s e = .ok (s.push e) := by
  rw [push, fetch_position h.1, ok_bind, fetch_position h.2]
  rfl

/-- How an edge pulls can be computed. -/
theorem pull_eq {e : Nat × Nat} (h : Below s.positions.length e) :
    pull s e = .ok (s.pull e) := by
  rw [pull, fetch_position h.2, ok_bind, fetch_position h.1]
  rfl

/-- A loop over forces that can be found, between nodes that have velocities. -/
theorem foldlM_exert_eq {force : Nat × Nat → Except Fault Point} {d : Nat × Nat → Point}
    {l : List (Nat × Nat)} {velocities : List Point}
    (hforce : ∀ e ∈ l, force e = .ok (d e)) (hl : ∀ e ∈ l, Below velocities.length e) :
    l.foldlM (exert force) velocities = .ok (l.foldl (fun v e => addPair (d e) v e) velocities)
      ∧ (l.foldl (fun v e => addPair (d e) v e) velocities).length = velocities.length := by
  refine foldlM_eq_ok (fun v : List Point => v.length = velocities.length) rfl ?_
  intro e he v hlen
  obtain ⟨hsource, htarget⟩ := hl e he
  have hadd : ∀ v' : List Point, (v'.modify e.1 (· + d e)).length = v'.length := fun v' =>
    List.length_modify ..
  refine ⟨?_, ?_⟩
  · rw [exert, hforce e he, ok_bind, update_eq (hlen ▸ hsource), ok_bind,
      update_eq ((hadd v).trans hlen ▸ htarget)]
    rfl
  · rw [addPair, List.length_modify, hadd, hlen]

/-- The velocities can be computed. -/
theorem velocities_eq (hedges : ∀ e ∈ s.edges, Below s.positions.length e) :
    velocities s = .ok s.velocities := by
  have hstill : (List.replicate s.positions.length Point.origin).length = s.positions.length :=
    List.length_replicate
  have hpairs : ∀ e ∈ pairs s.positions.length, Below s.positions.length e := fun e =>
    below_of_mem_pairs
  obtain ⟨hpushed, hlen⟩ := foldlM_exert_eq (fun e he => push_eq (hpairs e he))
    fun e he => hstill.symm ▸ hpairs e he
  rw [velocities, hpushed, ok_bind]
  exact (foldlM_exert_eq (fun e he => pull_eq (hedges e he))
    fun e he => (hlen.trans hstill).symm ▸ hedges e he).1

/-! ## Steps -/

/-- A move in the table puts the node where it goes, seen by itself. -/
theorem move_eq {velocities now : List Point} {i : Nat} {p : Point}
    (hlen : velocities.length = now.length) (hp : now[i]? = some p) :
    move s velocities now i
      = ((s.move i p (velocities[i]?.getD .origin)).mapError .limits).map (now.set i ·) := by
  obtain ⟨hi, hget⟩ := List.getElem?_eq_some_iff.1 hp
  have hvelocity := List.getElem?_eq_getElem (hlen ▸ hi)
  have hgo : ∀ way : Point,
      (if way.isFinite then do
          store now i (← (s.bounds.clampPoint (p + way)).mapError .limits)
        else return now)
      = ((if way.isFinite then s.bounds.clampPoint (p + way) else .ok p).mapError
          Fault.limits).map (now.set i ·) := by
    intro way
    split
    · cases s.bounds.clampPoint (p + way) with
      | error fault => rfl
      | ok q => exact store_eq hi q
    · have hsame : now.set i p = now := by rw [← hget, List.set_getElem_self]
      exact congrArg Except.ok hsame.symm
  rw [move, Simulation.move]
  split
  · exact store_eq hi _
  · rw [fetch_eq hvelocity, ok_bind, hvelocity, Option.getD_some, fetch_eq hp]
    exact hgo _

/-- The positions of nodes with their velocities, and with the numbers of the nodes. -/
theorem zipIdx_zip {points velocities : List Point} (h : velocities.length = points.length) :
    (points.zip velocities).zipIdx
      = points.zipIdx.map fun slot => ((slot.1, velocities[slot.2]?.getD .origin), slot.2) := by
  refine List.ext_getElem (by simp [h]) fun i hi hi' => ?_
  have hbound : i < velocities.length := by
    rw [List.length_map, List.length_zipIdx] at hi'
    omega
  simp [hbound]

/-- The places that all nodes move to in one step. -/
def moves (s : Simulation) : Except ClampFault (List Point) :=
  (s.positions.zip s.velocities).zipIdx.mapM fun slot => s.move slot.2 slot.1.1 slot.1.2

/-- A step moves the nodes one after the other. -/
theorem step_of_moves (s : Simulation) :
    s.step = (moves s).map fun positions => { s with positions } := by
  show (moves s >>= fun positions => pure { s with positions }) = _
  cases moves s <;> rfl

/-- A step succeeds unless the limits are crossed. -/
theorem step_eq (hedges : ∀ e ∈ s.edges, Below s.positions.length e) :
    step s = s.step.mapError .limits := by
  have hlen := length_velocities s
  have hmoves : (List.range s.positions.length).foldlM (move s s.velocities) s.positions
      = (moves s).mapError .limits := by
    rw [foldlM_update fun now i p hnow hp => move_eq (hlen.trans hnow.symm) hp, moves,
      zipIdx_zip hlen, List.mapM_map]
    exact mapM_mapError ..
  rw [step, velocities_eq hedges, ok_bind, hmoves, step_of_moves]
  cases moves s <;> rfl

/-- A step changes neither the edges nor the number of positions. -/
theorem shape_step {s' : Simulation} (h : s.step = .ok s') :
    s'.edges = s.edges ∧ s'.positions.length = s.positions.length := by
  rw [step_of_moves] at h
  cases hmoves : moves s with
  | error fault =>
    rw [hmoves] at h
    cases h
  | ok positions =>
    rw [hmoves] at h
    obtain rfl := Except.ok.inj h
    have hlen := length_mapM hmoves
    rw [List.length_zipIdx, List.length_zip, length_velocities, Nat.min_self] at hlen
    exact ⟨rfl, hlen⟩

/-- Some steps succeed unless the limits are crossed. -/
theorem run_eq (steps : Nat) (hedges : ∀ e ∈ s.edges, Below s.positions.length e) :
    run steps s = (s.run steps).mapError .limits := by
  induction steps generalizing s with
  | zero => rfl
  | succ steps ih =>
    rw [run, step_eq hedges, Simulation.run]
    cases hstep : s.step with
    | error fault => rfl
    | ok s' =>
      obtain ⟨hsame, hlen⟩ := shape_step hstep
      refine ih ?_
      rw [hsame, hlen]
      exact hedges

/-- The engine stops in its rectangle or not at all. -/
theorem forceDirected_eq (g : Graph) (p : Params) :
    forceDirected g p = (Engine.forceDirected g p).mapError .limits := by
  have hedges : ∀ e ∈ (Simulation.ofGraph g p).edges,
      Below (Simulation.ofGraph g p).positions.length e := by
    intro e he
    have hlen : (Simulation.ofGraph g p).positions.length = (Topology.ofGraph g).count := by
      rw [count_topology, Simulation.ofGraph, List.length_map, List.length_range]
    rw [hlen]
    exact lt_of_mem_edges he
  rw [forceDirected, Engine.forceDirected]
  split
  · rfl
  · rw [topology_eq, ok_bind]
    show run p.force.iterations (Simulation.ofGraph g p) >>= _ = _
    rw [run_eq _ hedges]
    cases (Simulation.ofGraph g p).run p.force.iterations <;> rfl

end DotLayout.Layout.Checked
