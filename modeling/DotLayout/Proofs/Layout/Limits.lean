import DotLayout.Proofs.Geometry.Points
import DotLayout.Proofs.Layout.Independence
import DotLayout.Proofs.Layout.Loops
import DotLayout.Settings

/-! # Crossed limits

    A simulation is refused when a node is to go somewhere and the rectangle that it has to stay in
    leaves no room.  Until then nothing has moved, so the first step decides.

    * `clampPoint_of_ordered`, `clampPoint_of_not_ordered` : a rectangle takes every point in or
      none.
    * `step_of_not_ordered` : so a step of the simulation is refused, or it moves nothing.
    * `points_eq_error_iff` : when a whole simulation is refused.
    * `defaultBounds_ordered` : the rectangle that a simulation makes for itself leaves room if the
      space between nodes is not negative.
    * `layOut_of_value` : so settings that are read lay out every graph if they ask for no negative
      space. -/

namespace DotLayout

open Numeric

namespace Bounds

variable {b : Bounds}

/-- On both axes the lower limit is not above the upper one. -/
def Ordered (b : Bounds) : Prop := b.minX ≤ b.maxX ∧ b.minY ≤ b.maxY

instance : DecidablePred Ordered := fun b =>
  inferInstanceAs (Decidable (b.minX ≤ b.maxX ∧ b.minY ≤ b.maxY))

theorem ordered_of_contains {p : Point} (h : b.contains p = true) : b.Ordered := by
  obtain ⟨⟨hlowX, hhighX⟩, hlowY, hhighY⟩ := contains_iff.1 h
  exact ⟨trans_le hlowX hhighX, trans_le hlowY hhighY⟩

/-- A rectangle that leaves room takes every point in. -/
theorem clampPoint_of_ordered (h : b.Ordered) (p : Point) : ∃ q, b.clampPoint p = .ok q := by
  rw [clampPoint, clampBetween, clampBetween, if_pos h.1, if_pos h.2]
  exact ⟨_, rfl⟩

/-- A rectangle that leaves no room refuses every point. -/
theorem clampPoint_of_not_ordered (h : ¬ b.Ordered) (p : Point) :
    b.clampPoint p = .error .limitsCrossed := by
  rw [clampPoint, clampBetween, clampBetween]
  by_cases hx : b.minX ≤ b.maxX
  · rw [if_pos hx, if_neg fun hy => h ⟨hx, hy⟩]
    rfl
  · rw [if_neg hx]
    rfl

end Bounds

namespace Layout

open ForceDirected

variable {g : Graph} {p : Params} {s : Scene} {f : Field} {points : List Point}

/-! ## Steps of a simulation -/

/-- Whether node `i` at a point is free to move and is to go somewhere. -/
def Stirs (f : Field) (points : List Point) (i : Nat) (p : Point) : Prop :=
  f.pinned ≠ some i ∧ (way f (velocity f points i p)).isFinite = true

/-- A node that is not to move stays, or is pinned to the center. -/
theorem move_of_not_stirs {i : Nat} {p : Point} (h : ¬ Stirs f points i p) :
    move f points i p = .ok (if f.pinned = some i then f.center else p) := by
  rw [move]
  split
  · rfl
  · rename_i hfree
    rw [if_neg fun hfinite => h ⟨hfree, hfinite⟩]

/-- A node that is to move is taken into the rectangle. -/
theorem move_of_stirs {i : Nat} {p : Point} (h : Stirs f points i p) :
    move f points i p = f.bounds.clampPoint (p + way f (velocity f points i p)) := by
  rw [move, if_neg h.1, if_pos h.2]

/-- In a rectangle that leaves room, every step succeeds. -/
theorem step_of_ordered (h : f.bounds.Ordered) (points : List Point) :
    ∃ moved, step f points = .ok moved := by
  have hmove : ∀ i p, ∃ q, move f points i p = .ok q := by
    intro i p
    by_cases hstirs : Stirs f points i p
    · rw [move_of_stirs hstirs]
      exact Bounds.clampPoint_of_ordered h _
    · exact ⟨_, move_of_not_stirs hstirs⟩
  choose r hr using hmove
  exact ⟨_, mapM_eq_ok_map (r := fun a => r a.2 a.1) fun a _ => hr a.2 a.1⟩

/-- Every step in a rectangle that leaves room ends, so all of them do. -/
theorem run_of_ordered (h : f.bounds.Ordered) (steps : Nat) (points : List Point) :
    ∃ moved, run f steps points = .ok moved := by
  induction steps generalizing points with
  | zero => exact ⟨points, rfl⟩
  | succ steps ih =>
    obtain ⟨moved, hstep⟩ := step_of_ordered h points
    rw [run_succ, hstep]
    exact ih moved

/-- In a rectangle that leaves no room the first node that is to go somewhere ends the step. -/
theorem step_of_stirs (h : ¬ f.bounds.Ordered) {i : Nat} {p : Point} (hp : points[i]? = some p)
    (hstirs : Stirs f points i p) : step f points = .error .limitsCrossed := by
  have hmove : move f points i p = .error .limitsCrossed := by
    rw [move_of_stirs hstirs, Bounds.clampPoint_of_not_ordered h]
  obtain ⟨⟨⟩, hfault⟩ := mapM_eq_error (f := fun a : Point × Nat => move f points a.2 a.1)
    (a := (p, i)) (List.mem_zipIdx_iff_getElem?.2 hp) hmove
  exact hfault

/-- A step in which no node is to go anywhere leaves the pinned node in the center and the others
    where they are. -/
theorem step_of_not_stirs (hpinned : ∀ i p, points[i]? = some p → f.pinned = some i → p = f.center)
    (h : ∀ i p, points[i]? = some p → ¬ Stirs f points i p) : step f points = .ok points := by
  have hmove : ∀ a ∈ points.zipIdx, move f points a.2 a.1 = .ok a.1 := by
    intro a ha
    have hp := List.mem_zipIdx_iff_getElem?.1 ha
    rw [move_of_not_stirs (h a.2 a.1 hp)]
    split
    · rename_i hpin
      rw [hpinned a.2 a.1 hp hpin]
    · rfl
  have hall := mapM_eq_ok_map hmove
  rw [List.zipIdx_map_fst] at hall
  exact hall

/-- The pinned node starts in the center. -/
theorem startPoints_pinned {i : Nat} {q : Point} (h : (startPoints s)[i]? = some q)
    (hpinned : (Field.ofScene s).pinned = some i) : q = (Field.ofScene s).center := by
  obtain ⟨hi, rfl⟩ := List.getElem?_eq_some_iff.1 h
  simp only [startPoints, List.getElem_map, List.getElem_range]
  exact if_pos (Or.inl hpinned)

/-- A simulation is refused in its first step or not at all. -/
theorem points_eq_error_iff : ForceDirected.points s = .error .limitsCrossed ↔
    0 < s.measures.force.iterations ∧ ¬ (Field.ofScene s).bounds.Ordered
      ∧ ∃ i q, (startPoints s)[i]? = some q ∧ Stirs (.ofScene s) (startPoints s) i q := by
  rw [ForceDirected.points]
  constructor
  · intro hfault
    refine ⟨Nat.pos_of_ne_zero fun hzero => ?_, fun hordered => ?_, ?_⟩
    · rw [hzero] at hfault
      cases hfault
    · obtain ⟨moved, hmoved⟩ := run_of_ordered hordered s.measures.force.iterations (startPoints s)
      rw [hmoved] at hfault
      cases hfault
    · by_contra hstirs
      have hstill : step (.ofScene s) (startPoints s) = .ok (startPoints s) :=
        step_of_not_stirs (fun i q hq => startPoints_pinned hq) fun i q hq hstir =>
          hstirs ⟨i, q, hq, hstir⟩
      rw [run_of_step_eq hstill] at hfault
      cases hfault
  · rintro ⟨hpos, hcrossed, i, q, hq, hstirs⟩
    obtain ⟨steps, hsteps⟩ := Nat.exists_eq_succ_of_ne_zero (Nat.ne_of_gt hpos)
    rw [hsteps, run_succ, step_of_stirs hcrossed hq hstirs]
    rfl

/-! ## The rectangle of a simulation -/

/-- The radius of the starting circle is not negative if the space is not. -/
theorem nonneg_startRadius {spacing : Float32} (h : 0 ≤ spacing) (count : Nat) :
    0 ≤ startRadius spacing count :=
  trans_le h (le_larger (nonneg_iff.1 h).1)

/-- The rectangle of a simulation has the center in it. -/
theorem defaultBounds_contains (hcenter : s.measures.center.isFinite = true) (h : 0 ≤ s.spacing) :
    (defaultBounds s).contains s.measures.center = true := by
  have double : ∀ {side : Float32}, 0 ≤ side → 0 ≤ side * 2 := fun h =>
    nonneg_mul h (by decide +kernel) (by decide +kernel)
  have hside := double (double (nonneg_startRadius h s.count))
  exact Bounds.around_contains hcenter hside hside

/-- The rectangle around a finite center leaves room if the space is not negative. -/
theorem defaultBounds_ordered (hcenter : s.measures.center.isFinite = true) (h : 0 ≤ s.spacing) :
    (defaultBounds s).Ordered :=
  Bounds.ordered_of_contains (defaultBounds_contains hcenter h)

/-- The space between nodes is at least what is asked for, so it is not negative if it is not asked
    to be. -/
theorem nonneg_spacing (h : 0 ≤ s.measures.spacing) : 0 ≤ s.spacing := by
  rw [Scene.spacing, Measures.minSpacing, clearSpace, larger]
  have hnumber := (nonneg_iff.1 h).1
  rw [if_neg (ne_true_of_eq_false hnumber)]
  split
  · rename_i hlt
    exact trans_le h (le_of_less hlt)
  · exact h

/-- Without given bounds a simulation takes its own rectangle. -/
theorem bounds_ofScene (h : s.measures.bounds = none) :
    (Field.ofScene s).bounds = defaultBounds s := by
  show s.measures.bounds.getD (defaultBounds s) = defaultBounds s
  rw [h]
  rfl

/-- Every layout places every node, the force layout if its rectangle leaves room. -/
theorem exists_layout {algorithm : Algorithm}
    (h : algorithm = .forceDirected → (Field.ofScene (.ofGraph g p)).bounds.Ordered) :
    ∃ positions, algorithm.layout g p = .ok positions ∧ positions.keys = g.ids := by
  have hpoints : ∃ points, algorithm.points (.ofGraph g p) = .ok points := by
    cases algorithm with
    | forceDirected => exact run_of_ordered (h rfl) _ _
    | _ => exact ⟨_, rfl⟩
  obtain ⟨points, hpoints⟩ := hpoints
  obtain ⟨positions, hlayout, -⟩ := entries_layout hpoints
  exact ⟨positions, hlayout, (layout_eq_ok hlayout).2⟩

/-- **A force layout is refused in a rectangle turned inside out.**  Without given bounds the force
    layout is refused exactly if it takes any steps, the limits of its own rectangle are crossed,
    and in the first step a node that is not pinned is to go somewhere.  Otherwise every node has a
    position.  The limits are never crossed if the space between nodes is not negative. -/
theorem forceDirected_refused_iff (g : Graph) (p : Params) (hbounds : p.bounds = none)
    (hcenter : p.center.isFinite = true) :
    let s := Scene.ofGraph g p
    (Algorithm.forceDirected.layout g p = .error .limitsCrossed ↔
      0 < p.force.iterations ∧ ¬ (defaultBounds s).Ordered ∧
        ∃ i q, (startPoints s)[i]? = some q ∧ Stirs (.ofScene s) (startPoints s) i q) ∧
    (Algorithm.forceDirected.layout g p ≠ .error .limitsCrossed →
      ∃ positions, Algorithm.forceDirected.layout g p = .ok positions ∧ positions.keys = g.ids) ∧
    (0 ≤ s.spacing → (defaultBounds s).Ordered) := by
  intro s
  refine ⟨?_, fun hne => ?_, defaultBounds_ordered hcenter⟩
  · rw [layout_eq_error_iff, ← bounds_ofScene (s := s) hbounds]
    exact points_eq_error_iff
  · cases hlayout : Algorithm.forceDirected.layout g p with
    | error fault =>
      cases fault
      exact absurd hlayout hne
    | ok positions => exact ⟨positions, rfl, (layout_eq_ok hlayout).2⟩

/-- Two nodes that are joined. -/
def joined : Graph := (Graph.empty true none).connect "a" "b" {} .curved

/-- With the default measures both nodes have a position. -/
theorem forceDirected_refused_iff_joined :
    ∃ positions, Algorithm.forceDirected.layout joined {} = .ok positions ∧
      positions.keys = ["a", "b"] := by
  have hcenter : Point.origin.isFinite = true := by decide +kernel
  obtain ⟨hrefused, hplaced, hordered⟩ := forceDirected_refused_iff joined {} rfl hcenter
  refine hplaced fun hfault => (hrefused.1 hfault).2.1 (hordered ?_)
  exact nonneg_spacing (s := .ofGraph joined {}) (by decide +kernel)

/-- The numbers among the measures. -/
def Measures.numbers (m : Measures) : List Float32 :=
  [m.center.x, m.center.y, m.spacing, m.padding, m.rankSpacing, m.minRadius, m.force.attraction,
    m.force.repulsion, m.force.damping, m.rings.baseRadius, m.rings.radiusStep]

/-- Measures whose negative numbers turn the rectangle of a simulation inside out. -/
def inverted : Params := { spacing := -100, padding := -1000 }

/-- All measures are finite and no bounds are given, but the simulation is refused. -/
theorem forceDirected_inverted :
    inverted.bounds = none ∧ (∀ x ∈ inverted.numbers, x.isFinite = true) ∧
      Algorithm.forceDirected.layout joined inverted = .error .limitsCrossed := by
  have hstirs : Stirs (.ofScene (.ofGraph joined inverted)) (startPoints (.ofGraph joined inverted))
      0 ((startPoints (.ofGraph joined inverted)).get ⟨0, by decide⟩) :=
    ⟨nofun, by decide +kernel⟩
  refine ⟨rfl, by decide +kernel, ?_⟩
  rw [layout_eq_error_iff]
  refine points_eq_error_iff.2 ⟨by decide, ?_, 0, _, List.getElem?_eq_getElem _, hstirs⟩
  decide +kernel

/-! ## Settings that are read -/

/-- What holds of all that can come out of the second part of a reading holds of what comes out of
    both parts. -/
theorem forall_of_bind {α β : Type} {x : Option α} {f : α → Option β} {P : β → Prop}
    (h : ∀ a b, f a = some b → P b) : ∀ b, x >>= f = some b → P b := by
  intro b hb
  obtain ⟨a, -, hf⟩ := Option.bind_eq_some_iff.1 hb
  exact h a b hf

/-- The layout that is read from settings has no bounds. -/
theorem bounds_of_layoutOfValue? {v : Data.Value} :
    ∀ found, Settings.layoutOfValue? v = some found → found.2.bounds = none := by
  -- one part for each field; the bounds are none of them
  unfold Settings.layoutOfValue?
  iterate 11 refine forall_of_bind fun _ => ?_
  rintro found ⟨⟩
  rfl

/-- Settings that are read set no bounds. -/
theorem bounds_of_ofValue? {format : Data.Format} {v : Data.Value} {settings : Settings}
    (h : Settings.ofValue? format v = some settings) : settings.params.bounds = none := by
  simp only [Settings.ofValue?, Option.bind_eq_bind, Option.bind_eq_some_iff] at h
  obtain ⟨fields, -, ⟨algorithm, q⟩, hlayout, resolver, -, h⟩ := h
  obtain rfl := Option.some.inj h
  show q.bounds = none
  rw [Data.field?] at hlayout
  split at hlayout
  · obtain ⟨-, rfl⟩ := Prod.mk.inj (Option.some.inj hlayout)
    rfl
  · exact bounds_of_layoutOfValue? (algorithm, q) hlayout

/-- Settings that are read and ask for no negative space lay out every graph. -/
theorem layOut_of_value {format : Data.Format} {v : Data.Value} {settings : Settings}
    (h : Settings.ofValue? format v = some settings)
    (hcenter : settings.params.center.isFinite = true) (hspacing : 0 ≤ settings.params.spacing)
    (g : Graph) :
    ∃ positions, settings.layOut g = .ok (settings.algorithmFor g, g.applyPositions positions)
      ∧ positions.keys = g.ids := by
  have hown : (Field.ofScene (.ofGraph g settings.params)).bounds
      = defaultBounds (.ofGraph g settings.params) :=
    bounds_ofScene (bounds_of_ofValue? h)
  obtain ⟨positions, hlayout, hkeys⟩ := exists_layout (g := g) (p := settings.params)
    fun _ => hown ▸ defaultBounds_ordered hcenter (nonneg_spacing hspacing)
  refine ⟨positions, ?_, hkeys⟩
  rw [Settings.layOut, hlayout]
  rfl

end Layout

end DotLayout
