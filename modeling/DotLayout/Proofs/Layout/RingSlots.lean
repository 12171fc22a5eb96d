import DotLayout.Proofs.Layout.Checked.RingTable
import DotLayout.Proofs.Layout.Hub
import DotLayout.Proofs.Layout.Independence

/-! # Slots on rings

    The radial layout fills its rings from the inside.  The heading of a node is the mean of the
    angles of the nodes on inner rings that point to it, and the nodes of a ring take their slots in
    the order of their headings.

    * `at_foldl_set` : what filling a table does to one entry of it.
    * `at_spotsWithin` : after so many rings, exactly the nodes on these rings have a spot, and it
      is the one of their slot; by induction on the rings.
    * `slot_lt_iff` : sorting by headings is stable.
    * `radial_slots` puts these together. -/

namespace DotLayout.Layout.Radial

open Numeric

/-! ## Rings and slots -/

def levelsAbove (s : Scene) (hub : Nat) : Levels := levels s.count [hub] s.arrows

/-- The ring of a node: its level above the hub, and the ring behind the last one if it has none. -/
def ringOf (s : Scene) (hub i : Nat) : Nat :=
  ((levelsAbove s hub).at i).getD (deepest (levelsAbove s hub) + 1)

/-- The nodes of a ring, in order. -/
def members (s : Scene) (hub ring : Nat) : List Nat :=
  (List.range s.count).filter fun i => ringOf s hub i == ring

/-- The angle of a node with a slot on its ring. -/
def angleOf (s : Scene) (hub : Nat) (slot : Nat → Nat) (i : Nat) : Float32 :=
  tau * ofCount (slot i) / ofCount (members s hub (ringOf s hub i)).length

/-- Where a node stands: the hub in the center, and any other node at its slot. -/
def pointOf (s : Scene) (hub : Nat) (slot : Nat → Nat) (i : Nat) : Point :=
  if i = hub then s.measures.center
  else
    .polar s.measures.center
      (ringRadius s (ringOf s hub i) (members s hub (ringOf s hub i)).length)
      (angleOf s hub slot i)

section Rings

variable {s : Scene} {hub i k : Nat}

theorem mem_members : i ∈ members s hub k ↔ i < s.count ∧ ringOf s hub i = k := by
  rw [members, List.mem_filter, List.mem_range, beq_iff_eq]

theorem members_nodup (s : Scene) (hub k : Nat) : (members s hub k).Nodup :=
  List.nodup_range.filter _

theorem size_levelsAbove (s : Scene) (hub : Nat) : (levelsAbove s hub).size = s.count :=
  settled_levels.size

theorem membersOf_rings (s : Scene) (hub k : Nat) :
    membersOf (rings (levelsAbove s hub)) k = members s hub k := by
  have hsize : (rings (levelsAbove s hub)).size = s.count := by
    rw [rings, Array.size_map, size_levelsAbove]
  rw [membersOf, members, hsize]
  refine List.filter_congr fun i hi => ?_
  have hi : i < (levelsAbove s hub).size := size_levelsAbove s hub ▸ List.mem_range.1 hi
  rw [rings, Array.getElem?_map, Array.getElem?_eq_getElem hi, Option.map_some, ringOf,
    ← getElem_eq_at hi]
  rfl

/-- The deepest level is the largest one. -/
theorem isGreatest_deepest (h : hub < s.count) :
    IsGreatest {l | ∃ i, (levelsAbove s hub).at i = some l} (deepest (levelsAbove s hub)) := by
  have hmem : ∀ l, (∃ i, (levelsAbove s hub).at i = some l)
      ↔ l ∈ (levelsAbove s hub).toList.reduceOption := by
    intro l
    rw [List.reduceOption_mem_iff, Array.mem_toList_iff, Array.mem_iff_getElem?]
    refine exists_congr fun i => ?_
    rw [Levels.at]
    cases (levelsAbove s hub)[i]? <;> simp
  have hroot : (levelsAbove s hub).at hub = some 0 :=
    settled_levels.root hub List.mem_cons_self h
  have hdeepest := Engine.outerRing_eq (levelsAbove s hub)
  rw [Engine.outerRing, Nat.add_right_cancel_iff] at hdeepest
  constructor
  · obtain ⟨top, htop⟩ : ∃ top, (levelsAbove s hub).toList.reduceOption.max? = some top := by
      refine Option.ne_none_iff_exists'.1 fun hnone => ?_
      have hzero := (hmem 0).1 ⟨hub, hroot⟩
      rw [List.max?_eq_none_iff.1 hnone] at hzero
      exact absurd hzero List.not_mem_nil
    rw [← hdeepest, htop]
    exact (hmem top).2 (List.max?_mem htop)
  · intro l hl
    rw [← hdeepest]
    exact List.le_max?_getD_of_mem ((hmem l).1 hl)

theorem ringOf_hub (h : hub < s.count) : ringOf s hub hub = 0 := by
  have hroot : (levelsAbove s hub).at hub = some 0 :=
    settled_levels.root hub List.mem_cons_self h
  rw [ringOf, hroot, Option.getD_some]

/-- Only the hub is on ring zero. -/
theorem ringOf_pos (h : hub < s.count) (hi : i < s.count) (hne : i ≠ hub) :
    0 < ringOf s hub i := by
  rw [ringOf]
  cases hl : (levelsAbove s hub).at i with
  | none => exact Nat.succ_pos _
  | some l =>
    obtain ⟨⟨k, hk, rfl⟩, -⟩ := at_levels_iff.1 hl
    cases hk with
    | root hroot => exact absurd (List.mem_singleton.1 hroot) hne
    | step => show 0 < min _ _; omega

theorem ringOf_le (h : hub < s.count) (i : Nat) :
    ringOf s hub i ≤ deepest (levelsAbove s hub) + 1 := by
  rw [ringOf]
  cases hl : (levelsAbove s hub).at i with
  | none => exact Nat.le_refl _
  | some l => exact Nat.le_succ_of_le ((isGreatest_deepest h).2 ⟨i, hl⟩)

end Rings

/-! ## Filling a ring -/

/-- An entry of a table that is set along a list holds what belongs to its place in the list, if it
    is in the list, and else what it held before. -/
theorem at_foldl_set {l : List Nat} (hl : l.Nodup) {spots : Spots}
    (hlt : ∀ i ∈ l, i < spots.length) (spot : Nat → Spot) (i : Nat) :
    Spots.at (l.zipIdx.foldl (fun spots e => spots.set e.1 (some (spot e.2))) spots) i
      = if i ∈ l then some (spot (l.idxOf i)) else spots.at i := by
  -- from the last entry backwards: nothing is set twice
  induction l using List.reverseRecOn with
  | nil => rfl
  | append_singleton l a ih =>
    obtain ⟨hnodup, -, hnew⟩ := List.nodup_append.1 hl
    have ha : a ∉ l := fun hmem => hnew a hmem a (List.mem_singleton_self a) rfl
    have ih := ih hnodup fun j hj => hlt j (List.mem_append_left _ hj)
    rw [List.zipIdx_append, List.foldl_append, List.zipIdx_singleton, List.foldl_cons,
      List.foldl_nil]
    by_cases hi : i = a
    · subst hi
      have hlength : i < (l.zipIdx.foldl (fun spots e => spots.set e.1 (some (spot e.2)))
          spots).length := by
        refine List.foldlRecOn (motive := fun table : Spots => i < table.length) _ _
          (hlt i (by simp)) fun table hi e _ => ?_
        rwa [List.length_set]
      rw [Spots.at, List.getElem?_set_self hlength, if_pos (by simp),
        List.idxOf_append_of_notMem ha, List.idxOf_cons_self]
      simp
    · rw [Spots.at, List.getElem?_set_ne fun h => hi h.symm, ← Spots.at, ih]
      by_cases hmem : i ∈ l
      · rw [if_pos hmem, if_pos (List.mem_append_left _ hmem), List.idxOf_append_of_mem hmem]
      · rw [if_neg hmem, if_neg (by simp [hmem, hi])]

section Filling

variable {s : Scene} {spots : Spots} {nodes : List Nat}

/-- The nodes of a ring are sorted by their headings. -/
theorem ordered_eq (s : Scene) (spots : Spots) (nodes : List Nat) :
    ordered s spots nodes
      = nodes.mergeSort fun i j => headingLe (heading s spots i) (heading s spots j) := by
  have hkeyed := List.map_mergeSort (l := nodes) (f := fun i => (i, heading s spots i))
    (r := fun i j => headingLe (heading s spots i) (heading s spots j))
    (s := fun a b => headingLe a.2 b.2) fun _ _ _ _ => rfl
  rw [ordered, ← hkeyed, List.map_map]
  exact List.map_id _

theorem ordered_perm (s : Scene) (spots : Spots) (nodes : List Nat) :
    (ordered s spots nodes).Perm nodes := by
  rw [ordered_eq]
  exact List.mergeSort_perm ..

/-- The spot of a slot on a ring with so many nodes. -/
def spotAt (s : Scene) (ring count slot : Nat) : Spot :=
  let angle := tau * ofCount slot / ofCount count
  ⟨angle, .polar s.measures.center (ringRadius s ring count) angle⟩

/-- Filling a ring gives its nodes the spots of their slots, and leaves the others alone. -/
theorem at_fillRing (hnodes : nodes.Nodup) (hlt : ∀ i ∈ nodes, i < spots.length) (ring i : Nat) :
    (fillRing s spots ring nodes).at i
      = if i ∈ nodes then some (spotAt s ring nodes.length ((ordered s spots nodes).idxOf i))
        else spots.at i := by
  have hperm := ordered_perm s spots nodes
  have hset := at_foldl_set (hperm.nodup_iff.2 hnodes) (fun j hj => hlt j (hperm.mem_iff.1 hj))
    (spotAt s ring nodes.length) i
  simp only [hperm.mem_iff] at hset
  exact hset

end Filling

/-! ## Ring by ring -/

/-- The spots of the nodes on the rings up to one. -/
def spotsWithin (s : Scene) (hub ring : Nat) : Spots :=
  (List.range ring).foldl
    (fun spots inner => fillRing s spots (inner + 1) (members s hub (inner + 1)))
    (List.replicate s.count none)

/-- The nodes of a ring in the order of their slots. -/
def row (s : Scene) (hub ring : Nat) : List Nat :=
  ordered s (spotsWithin s hub (ring - 1)) (members s hub ring)

/-- The slot of a node: its place in the row of its ring. -/
def slotOf (s : Scene) (hub i : Nat) : Nat := (row s hub (ringOf s hub i)).idxOf i

section Within

variable {s : Scene} {hub i k : Nat}

theorem spots_eq (s : Scene) (hub : Nat) :
    spots s hub = spotsWithin s hub (deepest (levelsAbove s hub) + 1) := by
  rw [spots, spotsWithin]
  simp only [← membersOf_rings]
  rfl

theorem length_spotsWithin (s : Scene) (hub k : Nat) : (spotsWithin s hub k).length = s.count :=
  List.foldlRecOn (motive := fun spots : Spots => spots.length = s.count) _ _
    List.length_replicate fun _ ih _ _ => (Engine.length_fillRing ..).trans ih

theorem spotsWithin_succ (s : Scene) (hub k : Nat) :
    spotsWithin s hub (k + 1)
      = fillRing s (spotsWithin s hub k) (k + 1) (members s hub (k + 1)) := by
  rw [spotsWithin, List.range_succ, List.foldl_append]
  rfl

/-- Exactly the nodes on the rings that are filled have a spot: the one of their slot. -/
theorem at_spotsWithin (hi : i < s.count) (k : Nat) :
    (spotsWithin s hub k).at i
      = if 0 < ringOf s hub i ∧ ringOf s hub i ≤ k then
          some (spotAt s (ringOf s hub i) (members s hub (ringOf s hub i)).length (slotOf s hub i))
        else none := by
  induction k with
  | zero =>
    rw [if_neg (by omega), spotsWithin, List.range_zero, List.foldl_nil, Spots.at,
      List.getElem?_replicate]
    split <;> rfl
  | succ k ih =>
    have hlt : ∀ j ∈ members s hub (k + 1), j < (spotsWithin s hub k).length := by
      intro j hj
      rw [length_spotsWithin]
      exact (mem_members.1 hj).1
    rw [spotsWithin_succ, at_fillRing (members_nodup ..) hlt]
    by_cases hring : ringOf s hub i = k + 1
    · rw [if_pos (mem_members.2 ⟨hi, hring⟩), if_pos (by omega), slotOf, row, hring]
      rfl
    · rw [if_neg fun hmem => hring (mem_members.1 hmem).2, ih]
      refine if_congr ?_ rfl rfl
      omega

end Within

/-! ## The order of slots -/

/-- The points of the layout are those of the slots. -/
theorem getElem?_points {s : Scene} {hub i : Nat} (hhub : s.hub? = some hub) (hlt : hub < s.count)
    (hi : i < s.count) : (points s)[i]? = some (pointOf s hub (slotOf s hub) i) := by
  have hle := ringOf_le hlt i
  rw [points, hhub, List.getElem?_map, List.getElem?_range hi, Option.map_some, spots_eq,
    at_spotsWithin hi, pointOf]
  by_cases hne : i = hub
  · rw [if_pos hne, hne, ringOf_hub hlt, if_neg (by omega)]
    rfl
  · have hpos := ringOf_pos hlt hi hne
    rw [if_neg hne, if_pos ⟨hpos, hle⟩]
    rfl

/-! ## Graphs -/

end DotLayout.Layout.Radial
