import DotLayout.Proofs.Layout.Checked.Levels
import DotLayout.Proofs.Layout.Engine.RingTable
import Mathlib.Data.List.ReduceOption

/-! # The checked engine of the radial layout

    The table of rings has an entry for every level and one more for the nodes without a level, and
    the rings hold nodes only.  So every access to the tables of parents, directions and points
    finds an entry.

    * `ringTable_eq` : no level is beyond the deepest one.
    * `headingLe_total`, `headingLe_trans` : headings are in one order.
    * `fill_eq` : the members of a ring find their spots. -/

namespace DotLayout.Layout.Checked

open Numeric Engine Radial

variable {t : Topology} {p : Params}

/-- The members of every ring, in order. -/
def ringTable (levels : Levels) : Except Fault (List (List Nat)) :=
  levels.toList.zipIdx.foldlM
    (fun rings e => update rings (e.1.getD (outerRing levels)) (· ++ [e.2]))
    (List.replicate (outerRing levels + 1) [])

/-- The mean of the directions that are known of some nodes. -/
def circularMean (parents : List Nat) (angles : List (Option Float32)) :
    Except Fault (Option Float32) := do
  let known ← parents.mapM (fetch angles)
  let (sines, cosines, count) := known.reduceOption.foldl
    (fun ((sines, cosines, count) : Float32 × Float32 × Nat) angle =>
      (sines + sin angle, cosines + cos angle, count + 1))
    (0, 0, 0)
  return if count == 0 || hypot sines cosines < 1e-6 then none
    else some (wrapAngle (atan2 sines cosines))

/-- Fills a ring. -/
def fill (parents : List (List Nat)) (spacing : Float32) (p : Params) (found : Found) (ring : Nat)
    (members : List Nat) : Except Fault Found :=
  if members.isEmpty then return found
  else do
    let headed ← members.mapM fun i => do
      return (i, ← circularMean (← fetch parents i) found.1)
    let ordered ← sorted (fun a b => headingLe a.2 b.2) headed
    let count := ordered.length
    let radius := larger (p.rings.baseRadius + ofCount ring * p.rings.radiusStep)
      (ofCount count * spacing / tau)
    ordered.zipIdx.foldlM
      (fun found slot => do
        let angle := tau * ofCount slot.2 / ofCount count
        return (← store found.1 slot.1.1 (some angle),
          ← store found.2 slot.1.1 (.polar p.center radius angle)))
      found

/-- The radial engine, with every access to its tables checked. -/
def radial (g : Graph) (p : Params) : Except Fault Positions := do
  let t ← topology g
  match anchorIndex g t p with
  | none => return {}
  | some hub =>
    let n := g.nodes.length
    let levels ← levels t [hub]
    let parents := (List.range t.count).map t.predecessors
    let rings ← ringTable levels
    let found ← (rings.zipIdx.drop 1).foldlM
      (fun found ring => fill parents (minSpacing g p) p found ring.2 ring.1)
      (List.replicate n none, List.replicate n p.center)
    return collect g found.2

/-! ## The table of rings -/

/-- Every level has an entry in the table of rings. -/
theorem ringTable_eq (levels : Levels) : ringTable levels = .ok (Engine.ringTable levels) := by
  refine (foldlM_eq_ok (fun rings : List (List Nat) => rings.length = outerRing levels + 1)
    List.length_replicate ?_).1
  rintro ⟨level, i⟩ h rings hlen
  have hring : level.getD (outerRing levels) < rings.length := by
    rw [hlen]
    cases level with
    | none => exact Nat.lt_succ_self _
    | some level =>
      have hmem : level ∈ levels.toList.reduceOption :=
        List.mem_filterMap.2
          ⟨some level, List.mem_of_getElem? (List.mem_zipIdx_iff_getElem?.1 h), rfl⟩
      have hle := List.le_max?_getD_of_mem (k := 0) hmem
      rw [Option.getD_some, outerRing]
      omega
  exact ⟨update_eq hring _, (List.length_modify ..).trans hlen⟩

/-- The members of a ring are numbers of nodes. -/
theorem lt_of_mem_ring {levels : Levels} {ring : List Nat × Nat}
    (h : ring ∈ (Engine.ringTable levels).zipIdx.drop 1) {i : Nat} (hi : i ∈ ring.1) :
    i < levels.size := by
  rw [zipIdx_ringTable] at h
  obtain ⟨inner, -, rfl⟩ := List.mem_map.1 h
  have hlt := List.mem_range.1 (List.mem_of_mem_filter hi)
  rwa [rings, Array.size_map] at hlt

/-! ## Directions and points -/

/-- The mean direction of nodes of the table can be computed. -/
theorem circularMean_eq {parents : List Nat} {angles : List (Option Float32)}
    (h : ∀ i ∈ parents, i < angles.length) :
    circularMean parents angles = .ok (Engine.circularMean parents angles) := by
  have hknown : parents.mapM (fetch angles) = .ok (parents.map fun i => angles[i]?.join) := by
    refine mapM_eq_ok_map fun i hi => ?_
    have hentry := List.getElem?_eq_getElem (h i hi)
    rw [fetch_eq hentry, hentry, Option.join_some]
  rw [circularMean, hknown, ok_bind, List.reduceOption, List.filterMap_map]
  rfl

/-- The tables of directions and of points have an entry for so many nodes. -/
structure Holds (count : Nat) (found : Found) : Prop where
  angles : found.1.length = count
  points : found.2.length = count

/-- The headings of some nodes can be found, since their parents have entries. -/
theorem headed_eq {count : Nat} {angles : List (Option Float32)} {members : List Nat}
    (hedges : ∀ e ∈ t.edges, e.1 < count) (hangles : angles.length = count)
    (hmembers : ∀ i ∈ members, i < count) :
    (members.mapM fun i => do
        return (i, ← circularMean (← fetch ((List.range count).map t.predecessors) i) angles))
      = (.ok (members.map fun i => (i, Engine.circularMean (t.predecessors i) angles))
        : Except Fault (List (Nat × Option Float32))) := by
  refine mapM_eq_ok_map fun i hi => ?_
  have hparents : ((List.range count).map t.predecessors)[i]? = some (t.predecessors i) := by
    rw [List.getElem?_map, List.getElem?_range (hmembers i hi)]
    rfl
  have hknown : ∀ parent ∈ t.predecessors i, parent < angles.length := by
    intro parent hparent
    obtain ⟨e, he, rfl⟩ := List.mem_map.1 hparent
    rw [hangles]
    exact hedges e (List.mem_of_mem_filter (List.mem_reverse.1 he))
  rw [fetch_eq hparents, ok_bind, circularMean_eq hknown]
  rfl

/-- Of two headings, one comes before the other one or they are the same. -/
theorem headingLe_total (a b : Option Float32) : headingLe a b || headingLe b a := by
  cases a with
  | none => rfl
  | some a =>
    cases b with
    | none => rfl
    | some b => simpa [headingLe] using Int.le_total (totalKey a) (totalKey b)

/-- Headings are in one order. -/
theorem headingLe_trans (a b c : Option Float32) (hab : headingLe a b) (hbc : headingLe b c) :
    headingLe a c := by
  cases a with
  | none => rfl
  | some a =>
    cases b with
    | none => exact nomatch hab
    | some b =>
      cases c with
      | none => exact nomatch hbc
      | some c =>
        simp only [headingLe, decide_eq_true_eq] at *
        exact Int.le_trans hab hbc

/-- The members of a ring find their spots. -/
theorem fill_eq {count : Nat} {found : Found} {members : List Nat}
    (hedges : ∀ e ∈ t.edges, e.1 < count) (h : Holds count found)
    (hmembers : ∀ i ∈ members, i < count) (spacing : Float32) (p : Params) (ring : Nat) :
    fill ((List.range count).map t.predecessors) spacing p found ring members
      = .ok (Engine.fill t spacing p found ring members)
      ∧ Holds count (Engine.fill t spacing p found ring members) := by
  rw [fill, Engine.fill]
  by_cases hempty : members.isEmpty
  · rw [if_pos hempty, if_pos hempty]
    exact ⟨rfl, h⟩
  · rw [if_neg hempty, if_neg hempty, headed_eq hedges h.angles hmembers, ok_bind,
      sorted_eq (fun a b => headingLe_total a.2 b.2) (fun a b c => headingLe_trans a.2 b.2 c.2),
      ok_bind]
    refine foldlM_eq_ok (Holds count) h fun slot hslot found hfound => ?_
    have hi : slot.1.1 < count := by
      have hordered := List.mem_of_getElem? (List.mem_zipIdx_iff_getElem?.1 hslot)
      obtain ⟨i, hi, heq⟩ := List.mem_map.1 ((List.mergeSort_perm ..).mem_iff.1 hordered)
      rw [← heq]
      exact hmembers i hi
    refine ⟨?_, ⟨(List.length_set ..).trans hfound.angles,
      (List.length_set ..).trans hfound.points⟩⟩
    dsimp only
    rw [store_eq (hfound.angles ▸ hi), ok_bind, store_eq (hfound.points ▸ hi)]
    rfl

/-- The radial engine never stops. -/
theorem radial_eq (g : Graph) (p : Params) : radial g p = .ok (Engine.radial g p) := by
  rw [radial, topology_eq, ok_bind, Engine.radial]
  cases hanchor : anchorIndex g (.ofGraph g) p with
  | none => rfl
  | some hub =>
    have hedges : ∀ e ∈ (Topology.ofGraph g).edges,
        e.1 < (Topology.ofGraph g).count ∧ e.2 < (Topology.ofGraph g).count :=
      fun _ => lt_of_mem_edges
    have hstart : Holds (Topology.ofGraph g).count
        (List.replicate g.nodes.length none, List.replicate g.nodes.length p.center) := by
      rw [count_topology]
      exact ⟨List.length_replicate, List.length_replicate⟩
    have hsize : (Layout.levels (Topology.ofGraph g).count [hub] (Topology.ofGraph g).edges).size
        = (Topology.ofGraph g).count := settled_levels.size
    obtain ⟨hfound, -⟩ := foldlM_eq_ok (Holds (Topology.ofGraph g).count)
      (f := fun found ring => fill ((List.range (Topology.ofGraph g).count).map
        (Topology.ofGraph g).predecessors) (minSpacing g p) p found ring.2 ring.1)
      (g := fun found ring => Engine.fill (.ofGraph g) (minSpacing g p) p found ring.2 ring.1)
      (l := (Engine.ringTable
        (Layout.levels (Topology.ofGraph g).count [hub] (Topology.ofGraph g).edges)).zipIdx.drop 1)
      hstart fun ring hring found hholds =>
        fill_eq (fun e he => (hedges e he).1) hholds
          (fun i hi => hsize ▸ lt_of_mem_ring hring hi) _ _ _
    dsimp only
    rw [levels_eq hedges, ok_bind, ringTable_eq, ok_bind, hfound]
    rfl

end DotLayout.Layout.Checked
