import DotLayout.Proofs.Geometry.Points
import DotLayout.Proofs.Layout.Limits

/-! # Confined nodes

    A simulation may be tuned so that its forces become infinite or no numbers at all.  Its nodes
    stay where they belong all the same: a node goes only a finite way at a time, and what comes out
    is taken back into the bounds.

    * `clampPoint_of_numbers` : a rectangle with its limits in order takes in every point that is
      given by numbers.
    * `Confined` : the pinned node is in the center, and any other one in the bounds or where it
      started.
    * `confined_step` and, by induction, `confined_run` : steps keep it so.
    * `forceDirected_confined` says it of the positions of a layout. -/

namespace DotLayout

open Numeric

/-- A rectangle with its limits in order takes in every point that is given by numbers. -/
theorem Bounds.clampPoint_of_numbers {b : Bounds} {p : Point} (h : b.Ordered) (hp : p.IsNumber) :
    ∃ q, b.clampPoint p = .ok q ∧ b.contains q = true := by
  obtain ⟨x, hx, hlowX, hhighX⟩ := clampBetween_of_le h.1 hp.x
  obtain ⟨y, hy, hlowY, hhighY⟩ := clampBetween_of_le h.2 hp.y
  refine ⟨⟨x, y⟩, ?_, contains_iff.2 ⟨⟨hlowX, hhighX⟩, hlowY, hhighY⟩⟩
  rw [clampPoint, hx, hy]
  rfl

namespace Layout

open ForceDirected

variable {g : Graph} {f : Field} {starts points : List Point} {i : Nat} {q : Point}

/-! ## One step and many -/

/-- Where node `i` may be: the pinned node in the center, and any other one in the bounds or where
    it started. -/
def ConfinedAt (f : Field) (starts : List Point) (i : Nat) (q : Point) : Prop :=
  if f.pinned = some i then q = f.center
  else f.bounds.contains q = true ∨ starts[i]? = some q

/-- All nodes are where they may be. -/
def Confined (f : Field) (starts points : List Point) : Prop :=
  ∀ i q, points[i]? = some q → ConfinedAt f starts i q

/-- All nodes but the pinned one start at finite places. -/
def StartsFinite (f : Field) (starts : List Point) : Prop :=
  ∀ i q, starts[i]? = some q → f.pinned ≠ some i → q.isFinite = true

/-- A node that is not pinned is always at a place given by numbers. -/
theorem ConfinedAt.isNumber (h : ConfinedAt f starts i q) (hfree : f.pinned ≠ some i)
    (hstarts : StartsFinite f starts) : q.IsNumber := by
  rw [ConfinedAt, if_neg hfree] at h
  rcases h with hinside | hstart
  · exact Bounds.isNumber_of_contains hinside
  · exact .of_isFinite (hstarts i q hstart hfree)

/-- A node that moves comes back into the bounds, and one that does not is where it may be. -/
theorem confinedAt_move (hbounds : f.bounds.Ordered) (hstarts : StartsFinite f starts)
    (h : ConfinedAt f starts i q) : ∃ r, move f points i q = .ok r ∧ ConfinedAt f starts i r := by
  by_cases hstirs : Stirs f points i q
  · have hnumber : (q + way f (velocity f points i q)).IsNumber :=
      (h.isNumber hstirs.1 hstarts).add hstirs.2
    obtain ⟨r, hr, hinside⟩ := Bounds.clampPoint_of_numbers hbounds hnumber
    refine ⟨r, by rw [move_of_stirs hstirs, hr], ?_⟩
    rw [ConfinedAt, if_neg hstirs.1]
    exact .inl hinside
  · refine ⟨_, move_of_not_stirs hstirs, ?_⟩
    by_cases hpinned : f.pinned = some i
    · rw [if_pos hpinned, ConfinedAt, if_pos hpinned]
    · rwa [if_neg hpinned]

/-- A step keeps all nodes where they may be. -/
theorem confined_step (hbounds : f.bounds.Ordered) (hstarts : StartsFinite f starts)
    (h : Confined f starts points) :
    ∃ moved, step f points = .ok moved ∧ Confined f starts moved := by
  have hmove : ∀ a ∈ points.zipIdx, ∃ r, move f points a.2 a.1 = .ok r ∧
      ConfinedAt f starts a.2 r := by
    intro a ha
    exact confinedAt_move hbounds hstarts (h a.2 a.1 (List.mem_zipIdx_iff_getElem?.1 ha))
  choose! r hr using hmove
  refine ⟨points.zipIdx.map r, mapM_eq_ok_map fun a ha => (hr a ha).1, ?_⟩
  intro i q hq
  rw [List.getElem?_map, List.getElem?_zipIdx, Option.map_map, Option.map_eq_some_iff] at hq
  obtain ⟨before, hbefore, rfl⟩ := hq
  have hmem : (before, i) ∈ points.zipIdx := List.mem_zipIdx_iff_getElem?.2 hbefore
  simpa using (hr _ hmem).2

/-- So does any number of steps. -/
theorem confined_run (hbounds : f.bounds.Ordered) (hstarts : StartsFinite f starts) (steps : Nat)
    (h : Confined f starts points) :
    ∃ moved, run f steps points = .ok moved ∧ Confined f starts moved := by
  induction steps generalizing points with
  | zero => exact ⟨points, rfl, h⟩
  | succ steps ih =>
    obtain ⟨moved, hstep, hmoved⟩ := confined_step hbounds hstarts h
    rw [run_succ, hstep]
    exact ih hmoved

/-- At the start all nodes are where they may be. -/
theorem confined_startPoints (s : Scene) :
    Confined (.ofScene s) (startPoints s) (startPoints s) := by
  intro i q hq
  rw [ConfinedAt]
  split
  · exact startPoints_pinned hq ‹_›
  · exact .inr hq

/-! ## Layouts -/

/-- The pinned node is the one whose id is that of the anchor. -/
theorem pinned_eq_some_iff {p : Params} {n : Node} (hn : g.nodes[i]? = some n) :
    (Field.ofScene (.ofGraph g p)).pinned = some i ↔ p.anchor = some n.id := by
  have hid : g.ids[i]? = some n.id := by rw [Graph.ids, List.getElem?_map, hn, Option.map_some]
  show p.anchor.bind g.indexOf? = some i ↔ _
  rw [Option.bind_eq_some_iff]
  constructor
  · rintro ⟨id, hanchor, hindex⟩
    rw [hanchor, ← hid, Graph.indexOf?_eq_some_iff.1 hindex]
  · intro hanchor
    exact ⟨n.id, hanchor, Graph.indexOf?_eq_some_iff.2 hid⟩

/-- Parameters that ask for another number of steps. -/
def Params.withSteps (p : Params) (steps : Nat) : Params :=
  { p with force := { p.force with iterations := steps } }

/-- **Nothing leaves the bounds.**  Let the bounds of a simulation, given or made for it, have their
    limits in order, and let all nodes but the anchor start at finite places.  Then for every number
    of steps the force layout has a position for every node.  It puts the anchor exactly into the
    center, and any other node into the bounds or exactly where it started. -/
theorem forceDirected_confined (g : Graph) (p : Params)
    (hbounds : (p.bounds.getD (defaultBounds (.ofGraph g p))).Ordered)
    (hstarts : ∀ (i : Nat) n q, g.nodes[i]? = some n → p.anchor ≠ some n.id →
      (startPoints (.ofGraph g p))[i]? = some q → q.isFinite = true) (steps : Nat) :
    ∃ positions, Algorithm.forceDirected.layout g (p.withSteps steps) = .ok positions ∧
      positions.keys = g.ids ∧
      (∀ id ∈ g.ids, p.anchor = some id → positions.get? id = some p.center) ∧
      ∀ (i : Nat) n, g.nodes[i]? = some n → p.anchor ≠ some n.id →
        ∃ q, positions.get? n.id = some q ∧
          ((p.bounds.getD (defaultBounds (.ofGraph g p))).contains q = true ∨
            (startPoints (.ofGraph g p))[i]? = some q) := by
  have hfinite : StartsFinite (.ofScene (.ofGraph g p)) (startPoints (.ofGraph g p)) := by
    intro i q hq hfree
    have hlt : i < g.nodes.length := by
      have := (List.getElem?_eq_some_iff.1 hq).1
      rwa [startPoints, List.length_map, List.length_range, count_ofGraph] at this
    have hn := List.getElem?_eq_getElem hlt
    exact hstarts i _ q hn (fun hanchor => hfree ((pinned_eq_some_iff hn).2 hanchor)) hq
  obtain ⟨points, hpoints, hconfined⟩ :=
    confined_run (f := .ofScene (.ofGraph g p)) hbounds hfinite steps (confined_startPoints _)
  -- the number of steps is no part of the field, nor of the start
  have hpoints : Algorithm.forceDirected.points (.ofGraph g (p.withSteps steps)) = .ok points :=
    hpoints
  obtain ⟨positions, hlayout, hplaces⟩ := layout_of_points_ok hpoints
  have hplace : ∀ (i : Nat) n, g.nodes[i]? = some n → ∃ q, positions.get? n.id = some q ∧
      ConfinedAt (.ofScene (.ofGraph g p)) (startPoints (.ofGraph g p)) i q := by
    intro i n hn
    obtain ⟨q, hq, hget⟩ := hplaces i n hn
    exact ⟨q, hget, hconfined i q hq⟩
  refine ⟨positions, hlayout, (layout_eq_ok hlayout).2, ?_, ?_⟩
  · intro id hid hanchor
    obtain ⟨n, hmem, rfl⟩ := List.mem_map.1 hid
    obtain ⟨i, hn⟩ := List.mem_iff_getElem?.1 hmem
    obtain ⟨q, hget, hq⟩ := hplace i n hn
    rw [ConfinedAt, if_pos ((pinned_eq_some_iff hn).2 hanchor)] at hq
    rw [hget, hq]
    rfl
  · intro i n hn hfree
    obtain ⟨q, hget, hq⟩ := hplace i n hn
    rw [ConfinedAt, if_neg fun hpinned => hfree ((pinned_eq_some_iff hn).1 hpinned)] at hq
    exact ⟨q, hget, hq⟩

/-- Forces without limits, in bounds that are far from the center. -/
def torn : Params where
  anchor := some "a"
  bounds := some ⟨1000, 1000, 1010, Numeric.infinity⟩
  force := { attraction := Numeric.infinity, repulsion := 3e38 }

/-- The anchor is in the center, outside of the bounds, and the other node is not lost. -/
theorem forceDirected_confined_torn :
    let room : Bounds := ⟨1000, 1000, 1010, Numeric.infinity⟩
    let starts := startPoints (.ofGraph joined torn)
    room.Ordered ∧ (∀ q ∈ starts, q.isFinite = true) ∧
      ∃ positions, Algorithm.forceDirected.layout joined (torn.withSteps 40) = .ok positions ∧
        positions.get? "a" = some .origin ∧
        ∃ q, positions.get? "b" = some q ∧ (room.contains q = true ∨ starts[1]? = some q) := by
  intro room starts
  have hbounds : room.Ordered := by decide +kernel
  have hstarts : ∀ q ∈ starts, q.isFinite = true := by decide +kernel
  obtain ⟨positions, hlayout, -, hanchor, hothers⟩ :=
    forceDirected_confined joined torn hbounds
      (fun i n q _ _ hq => hstarts q (List.mem_of_getElem? hq)) 40
  exact ⟨hbounds, hstarts, positions, hlayout, hanchor "a" (by decide) rfl,
    hothers 1 (joined.nodes.get ⟨1, by decide⟩) rfl (by decide)⟩

end Layout

end DotLayout
