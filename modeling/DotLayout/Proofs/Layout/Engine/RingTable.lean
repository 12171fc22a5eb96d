import DotLayout.Proofs.Layout.Engine.Topology

/-! # The engine of the radial layout

    The engine puts the nodes into a table of rings by their levels and fills the rings from the
    inside.  It keeps the directions and the points of the nodes in two tables.

    * `getElem?_ringTable` : a ring of the table has the members of the ring, in order.
    * `circularMean_eq` : one loop adds up sines, cosines and their number.
    * `fill_eq` : the two tables hold what the spots of the layout over the scene hold. -/

namespace DotLayout.Layout.Engine

open Numeric Radial

/-- The number of the innermost ring behind all levels. -/
def outerRing (levels : Levels) : Nat := levels.toList.reduceOption.max?.getD 0 + 1

/-- The members of every ring, in order. -/
def ringTable (levels : Levels) : List (List Nat) :=
  levels.toList.zipIdx.foldl
    (fun rings e => rings.modify (e.1.getD (outerRing levels)) (· ++ [e.2]))
    (List.replicate (outerRing levels + 1) [])

/-- The mean of the directions that are known of some nodes. -/
def circularMean (parents : List Nat) (angles : List (Option Float32)) : Option Float32 :=
  let (sines, cosines, count) := (parents.filterMap fun parent => angles[parent]?.join).foldl
    (fun ((sines, cosines, count) : Float32 × Float32 × Nat) angle =>
      (sines + sin angle, cosines + cos angle, count + 1))
    (0, 0, 0)
  if count == 0 || hypot sines cosines < 1e-6 then none
  else some (wrapAngle (atan2 sines cosines))

/-- What an engine works with: the directions and the points found so far. -/
abbrev Found := List (Option Float32) × List Point

/-- Fills a ring. -/
def fill (t : Topology) (spacing : Float32) (p : Params) (found : Found) (ring : Nat)
    (members : List Nat) : Found :=
  if members.isEmpty then found
  else
    let ordered := (members.map fun i => (i, circularMean (t.predecessors i) found.1)).mergeSort
      fun a b => headingLe a.2 b.2
    let count := ordered.length
    let radius := larger (p.rings.baseRadius + ofCount ring * p.rings.radiusStep)
      (ofCount count * spacing / tau)
    ordered.zipIdx.foldl
      (fun found slot =>
        let angle := tau * ofCount slot.2 / ofCount count
        (found.1.set slot.1.1 (some angle),
          found.2.set slot.1.1 (.polar p.center radius angle)))
      found

def radial (g : Graph) (p : Params) : Positions :=
  let t := Topology.ofGraph g
  match anchorIndex g t p with
  | none => {}
  | some hub =>
    let n := g.nodes.length
    let rings := ringTable (levels t.count [hub] t.edges)
    let found := (rings.zipIdx.drop 1).foldl
      (fun found ring => fill t (minSpacing g p) p found ring.2 ring.1)
      (List.replicate n none, List.replicate n p.center)
    collect g found.2

/-! ## The table of rings -/

theorem outerRing_eq (levels : Levels) : outerRing levels = deepest levels + 1 := by
  rw [outerRing, deepest]
  cases levels.toList.reduceOption with
  | nil => rfl
  | cons level rest => rw [List.max?_cons', List.foldl_cons, Nat.zero_max, Option.getD_some]

/-- Entries that are pushed into the bucket of their value are in order there. -/
theorem getElem?_buckets (l : List Nat) {count r : Nat} (h : r < count) :
    (l.zipIdx.foldl (fun buckets e => buckets.modify e.1 (· ++ [e.2]))
      (List.replicate count []))[r]?
    = some ((List.range l.length).filter fun i => l[i]? == some r) := by
  -- from the last entry backwards: it comes behind all others of its bucket
  induction l using List.reverseRecOn with
  | nil => simp [h]
  | append_singleton l x ih =>
    have hfront : (List.range l.length).filter (fun i => (l ++ [x])[i]? == some r)
        = (List.range l.length).filter fun i => l[i]? == some r := by
      refine List.filter_congr fun i hi => ?_
      rw [List.getElem?_append_left (List.mem_range.1 hi)]
    rw [List.zipIdx_append, List.foldl_append, List.length_append, List.length_singleton,
      List.range_succ, List.filter_append, hfront, List.zipIdx_singleton, List.foldl_cons,
      List.foldl_nil, List.getElem?_modify, ih]
    by_cases hx : x = r <;> simp [hx]

/-- The table has the members of every ring. -/
theorem getElem?_ringTable (levels : Levels) {r : Nat} (h : r < deepest levels + 2) :
    (ringTable levels)[r]? = some (membersOf (rings levels) r) := by
  have hrings : (rings levels).toList
      = levels.toList.map fun level => level.getD (deepest levels + 1) := Array.toList_map ..
  have hbuckets := getElem?_buckets (rings levels).toList h
  rw [hrings, List.zipIdx_map, List.foldl_map, ← hrings] at hbuckets
  rw [ringTable, outerRing_eq]
  refine hbuckets.trans ?_
  rw [membersOf, Array.length_toList]
  refine congrArg some (List.filter_congr fun i _ => ?_)
  rw [Array.getElem?_toList]

theorem length_ringTable (levels : Levels) : (ringTable levels).length = deepest levels + 2 := by
  rw [ringTable, outerRing_eq]
  refine List.foldlRecOn (motive := fun buckets : List (List Nat) =>
    buckets.length = deepest levels + 2) _ _ List.length_replicate ?_
  intro buckets ih e _
  exact (List.length_modify ..).trans ih

/-- The rings around the hub with their numbers, as the engine goes through them. -/
theorem zipIdx_ringTable (levels : Levels) :
    (ringTable levels).zipIdx.drop 1
      = (List.range (deepest levels + 1)).map fun inner =>
          (membersOf (rings levels) (inner + 1), inner + 1) := by
  refine List.ext_getElem ?_ ?_
  · rw [List.length_drop, List.length_zipIdx, length_ringTable, List.length_map,
      List.length_range]
    rfl
  · intro i hi hi'
    rw [List.length_map, List.length_range] at hi'
    have hbound : 1 + i < deepest levels + 2 := by omega
    have hring := getElem?_ringTable levels hbound
    rw [List.getElem?_eq_getElem (by rwa [length_ringTable]), Option.some_inj] at hring
    rw [List.getElem_drop, List.getElem_zipIdx, List.getElem_map, List.getElem_range, hring,
      Nat.zero_add, Nat.add_comm 1 i]

/-! ## Directions and points -/

variable {s : Scene} {t : Topology}

/-- The directions and the points of some spots; a node without a spot is in the center. -/
def split (center : Point) (spots : Spots) : Found :=
  (spots.map fun spot => spot.map Spot.angle,
    spots.map fun spot => (spot.map Spot.point).getD center)

/-- One loop that adds up three things adds up each of them. -/
theorem foldl_means (angles : List Float32) (sines cosines : Float32) (count : Nat) :
    angles.foldl
      (fun ((sines, cosines, count) : Float32 × Float32 × Nat) angle =>
        (sines + sin angle, cosines + cos angle, count + 1))
      (sines, cosines, count)
    = (angles.foldl (fun sum a => sum + sin a) sines,
        angles.foldl (fun sum a => sum + cos a) cosines, count + angles.length) := by
  induction angles generalizing sines cosines count with
  | nil => rfl
  | cons angle angles ih =>
    simp only [List.foldl_cons, ih, List.length_cons]
    rw [Nat.add_assoc, Nat.add_comm 1]

theorem circularMean_eq (center : Point) (spots : Spots) (parents : List Nat) :
    circularMean parents (split center spots).1
      = Radial.circularMean (parents.filterMap fun i => (spots.at i).map Spot.angle) := by
  have hangles : (fun parent => (split center spots).1[parent]?.join)
      = fun i => (spots.at i).map Spot.angle := by
    funext i
    simp only [split, Spots.at, List.getElem?_map]
    cases spots[i]? <;> rfl
  rw [circularMean, Radial.circularMean, hangles, foldl_means]
  simp only [Nat.zero_add]
  cases parents.filterMap fun i => (spots.at i).map Spot.angle <;> rfl

theorem split_set (center : Point) (spots : Spots) (i : Nat) (spot : Spot) :
    split center (spots.set i (some spot))
      = ((split center spots).1.set i (some spot.angle),
          (split center spots).2.set i spot.point) := by
  rw [split, List.map_set, List.map_set]
  rfl

/-- A ring of the engine is a ring of the layout over the scene. -/
theorem fill_eq (g : Graph) (p : Params) (spots : Spots) (ring : Nat) (members : List Nat) :
    fill (.ofGraph g) (minSpacing g p) p (split p.center spots) ring members
      = split p.center (fillRing (.ofGraph g p) spots ring members) := by
  have hheadings : members.map (fun i =>
        (i, circularMean ((Topology.ofGraph g).predecessors i) (split p.center spots).1))
      = members.map fun i => (i, heading (.ofGraph g p) spots i) := by
    refine List.map_congr_left fun i _ => ?_
    rw [circularMean_eq, heading, Topology.predecessors, predecessors, edges_ofGraph g p]
  have hlength : ((members.map fun i => (i, heading (.ofGraph g p) spots i)).mergeSort
      fun a b => headingLe a.2 b.2).length = members.length := by
    rw [List.length_mergeSort, List.length_map]
  rw [fill, fillRing, ordered]
  by_cases hempty : members.isEmpty
  · rw [if_pos hempty, List.isEmpty_iff.1 hempty, List.map_nil, List.mergeSort_nil]
    rfl
  · rw [if_neg hempty]
    simp only [hheadings, hlength, minSpacing_eq, List.zipIdx_map, List.foldl_map]
    refine List.foldl_hom (split p.center) fun spots slot => ?_
    exact (split_set p.center spots slot.1.1 ⟨_, _⟩).symm

theorem length_fillRing (s : Scene) (spots : Spots) (ring : Nat) (members : List Nat) :
    (fillRing s spots ring members).length = spots.length :=
  List.foldlRecOn (motive := fun spots' : Spots => spots'.length = spots.length) _ _ rfl
    fun _ ih _ _ => (List.length_set ..).trans ih

theorem length_spots (s : Scene) (hub : Nat) : (spots s hub).length = s.count :=
  List.foldlRecOn (motive := fun spots : Spots => spots.length = s.count) _ _
    List.length_replicate fun _ ih _ _ => (length_fillRing ..).trans ih

/-- Filling the rings of the table one after the other finds the spots of a scene. -/
theorem foldl_fill (g : Graph) (p : Params) (hub : Nat) :
    ((ringTable (levels (Topology.ofGraph g).count [hub] (Topology.ofGraph g).edges)).zipIdx.drop
        1).foldl
      (fun found ring => fill (.ofGraph g) (minSpacing g p) p found ring.2 ring.1)
      (List.replicate g.nodes.length none, List.replicate g.nodes.length p.center)
    = split p.center (spots (.ofGraph g p) hub) := by
  have hstart : (List.replicate g.nodes.length none, List.replicate g.nodes.length p.center)
      = split p.center (List.replicate (Scene.ofGraph g p).count none) := by
    rw [split, List.map_replicate, List.map_replicate, count_ofGraph]
    rfl
  rw [count_topology, edges_ofGraph g p, ← count_ofGraph g p, zipIdx_ringTable, List.foldl_map,
    count_ofGraph, hstart, spots, count_ofGraph]
  exact List.foldl_hom (split p.center) fun spots inner => fill_eq g p spots (inner + 1) _

/-- The engine places every node where the layout over the scene does. -/
theorem radial_eq (g : Graph) (p : Params) :
    Algorithm.radial.layout g p = .ok (radial g p) := by
  rw [radial, anchorIndex_ofGraph]
  cases hhub : (Scene.ofGraph g p).hub? with
  | none =>
    refine layout_of_no_points ?_
    rw [Algorithm.points, Radial.points, hhub]
  | some hub =>
    have hpoints : (split p.center (spots (.ofGraph g p) hub)).2
        = (List.range (Scene.ofGraph g p).count).map fun i =>
            (((spots (.ofGraph g p) hub).at i).map Spot.point).getD p.center := by
      refine List.ext_getElem ?_ ?_
      · rw [split, List.length_map, length_spots, List.length_map, List.length_range]
      · intro i hi _
        rw [split, List.length_map] at hi
        simp [split, Spots.at, hi]
    simp only [foldl_fill]
    refine layout_of_points ?_
    rw [Algorithm.points, Radial.points, hhub, hpoints]
    rfl

end DotLayout.Layout.Engine
