import DotLayout.Proofs.Layout.Limits
import DotLayout.Proofs.Numeric.Middle
import DotLayout.Proofs.Routing.Paths

/-! # Anchors on borders

    An anchor is the middle of a side, and the middle of two numbers is half of their sum.  It lies
    between them after all roundings, but the sum may be too large for a single; then the middle is
    infinite and the anchor is nowhere near its rectangle, although the side has a finite middle.

    * `anchored_on` : what is true of the anchor on one side of a rectangle.
    * `anchors_on_borders` : so anchors lie on the borders of their rectangles exactly if the limits
      at the ends of their sides have finite sums.
    * `anchor_beyond_border` : a rectangle that is too far away for this. -/

namespace DotLayout.Routing

open Numeric

variable {b : Bounds}

/-- The limits of a rectangle between which a side of it runs. -/
def Side.ends : Side → Bounds → Float32 × Float32
  | .top, b | .bottom, b => (b.minX, b.maxX)
  | .left, b | .right, b => (b.minY, b.maxY)

/-- The sum of these limits. -/
def Side.reach (side : Side) (b : Bounds) : Float32 := (side.ends b).1 + (side.ends b).2

/-- A coordinate of a point equals a limit of a rectangle. -/
def OnLimit (b : Bounds) (p : Point) : Prop :=
  (p.x == b.minX) = true ∨ (p.x == b.maxX) = true ∨ (p.y == b.minY) = true ∨ (p.y == b.maxY) = true

/-- No limit is larger than half of the largest single. -/
structure Near (b : Bounds) : Prop where
  minX : b.minX.abs ≤ halfLargest
  minY : b.minY.abs ≤ halfLargest
  maxX : b.maxX.abs ≤ halfLargest
  maxY : b.maxY.abs ≤ halfLargest

/-- An anchor is at a limit of its rectangle.  It is inside, and so on the border, and finite
    exactly if the sum of the limits at the ends of its side is finite, as it is in a near
    rectangle. -/
structure Anchored (b : Bounds) (a : Anchor) : Prop where
  onLimit : OnLimit b a.point
  inside_iff : b.contains a.point = true ↔ (a.side.reach b).isFinite = true
  isFinite_iff : a.point.isFinite = true ↔ (a.side.reach b).isFinite = true
  near : Near b → (a.side.reach b).isFinite = true

/-- What is true of the anchor on each side. -/
theorem anchored_on (hfinite : b.IsFinite) (hordered : b.Ordered) (side : Side) :
    Anchored b (.on b side) := by
  obtain ⟨hx, hy⟩ := hordered
  have hminX := le_self (isNaN_of_isFinite hfinite.minX)
  have hminY := le_self (isNaN_of_isFinite hfinite.minY)
  have hmaxX := le_self (isNaN_of_isFinite hfinite.maxX)
  have hmaxY := le_self (isNaN_of_isFinite hfinite.maxY)
  have hbetweenX := middle_between_iff hfinite.minX hfinite.maxX hx
  have hbetweenY := middle_between_iff hfinite.minY hfinite.maxY hy
  have hmiddleX := isFinite_middle_iff hfinite.minX hfinite.maxX hx
  have hmiddleY := isFinite_middle_iff hfinite.minY hfinite.maxY hy
  have hnearX := fun h : Near b => isFinite_add_of_le hfinite.minX hfinite.maxX h.minX h.maxX
  have hnearY := fun h : Near b => isFinite_add_of_le hfinite.minY hfinite.maxY h.minY h.maxY
  cases side with
  | top =>
    refine ⟨?_, ?_, ?_, hnearX⟩
    · exact .inr (.inr (.inl (beq_self_iff.2 (isNaN_of_isFinite hfinite.minY))))
    · exact Bounds.contains_iff.trans ((and_iff_left ⟨hminY, hy⟩).trans hbetweenX)
    · exact Bool.and_eq_true_iff.trans ((and_iff_left hfinite.minY).trans hmiddleX)
  | right =>
    refine ⟨?_, ?_, ?_, hnearY⟩
    · exact .inr (.inl (beq_self_iff.2 (isNaN_of_isFinite hfinite.maxX)))
    · exact Bounds.contains_iff.trans ((and_iff_right ⟨hx, hmaxX⟩).trans hbetweenY)
    · exact Bool.and_eq_true_iff.trans ((and_iff_right hfinite.maxX).trans hmiddleY)
  | bottom =>
    refine ⟨?_, ?_, ?_, hnearX⟩
    · exact .inr (.inr (.inr (beq_self_iff.2 (isNaN_of_isFinite hfinite.maxY))))
    · exact Bounds.contains_iff.trans ((and_iff_left ⟨hy, hmaxY⟩).trans hbetweenX)
    · exact Bool.and_eq_true_iff.trans ((and_iff_left hfinite.maxY).trans hmiddleX)
  | left =>
    refine ⟨?_, ?_, ?_, hnearY⟩
    · exact .inl (beq_self_iff.2 (isNaN_of_isFinite hfinite.minX))
    · exact Bounds.contains_iff.trans ((and_iff_right ⟨hminX, hx⟩).trans hbetweenY)
    · exact Bool.and_eq_true_iff.trans ((and_iff_right hfinite.minX).trans hmiddleY)

/-- **Anchors on borders.**  Between two finite rectangles with their limits in order, both anchors
    of a path are at a limit of their rectangles, for every kind of edge, every curvature and all
    ports.  Each is inside its rectangle exactly if the limits at the ends of its side have a finite
    sum, and finite exactly then; so it is if no limit is larger than half of the largest single. -/
theorem anchors_on_borders (r : Resolver) {source target : Bounds} (hsource : source.IsFinite)
    (htarget : target.IsFinite) (hsourceOrdered : source.Ordered) (htargetOrdered : target.Ordered)
    (kind : EdgeKind) :
    let way := r.resolve source target kind
    Anchored source way.source ∧ Anchored target way.target := by
  have hon := fun side => anchored_on hsource hsourceOrdered side
  have hon' := fun side => anchored_on htarget htargetOrdered side
  cases kind with
  | curved => exact ⟨hon _, hon' _⟩
  | orthogonal => exact ⟨hon _, hon' _⟩

/-- A rectangle as wide as singles allow, and as low as they allow. -/
def slit : Bounds := ⟨-3.4e38, -1e-45, 3.4e38, 0⟩

/-- A rectangle on one side of the origin, so far away that its limits along the first axis have no
    finite sum. -/
def outlying : Bounds := ⟨2e38, 0, 3e38, 10⟩

/-- A path leaves the border of the one and ends far from the other. -/
theorem anchors_on_borders_outlying :
    slit.IsFinite ∧ outlying.IsFinite ∧ slit.Ordered ∧ outlying.Ordered ∧
      let way := Resolver.resolve {} slit outlying .orthogonal
      (slit.contains way.source.point = true ∧ OnLimit slit way.source.point) ∧
        OnLimit outlying way.target.point ∧ ¬ way.target.point.isFinite = true := by
  have hslit : slit.IsFinite := by constructor <;> decide +kernel
  have houtlying : outlying.IsFinite := by constructor <;> decide +kernel
  have hordered : slit.Ordered := by constructor <;> decide +kernel
  have hordered' : outlying.Ordered := by constructor <;> decide +kernel
  obtain ⟨hsource, htarget⟩ :=
    anchors_on_borders {} hslit houtlying hordered hordered' .orthogonal
  refine ⟨hslit, houtlying, hordered, hordered', ⟨hsource.inside_iff.2 ?_, hsource.onLimit⟩,
    htarget.onLimit, htarget.isFinite_iff.not.2 ?_⟩ <;> decide +kernel

/-- Not all anchors between finite rectangles in order are inside and finite. -/
theorem anchor_beyond_border :
    ¬ ∀ (r : Resolver) (source target : Bounds) (kind : EdgeKind), source.IsFinite →
      target.IsFinite → source.Ordered → target.Ordered →
        source.contains (r.resolve source target kind).source.point = true ∧
          (r.resolve source target kind).source.point.isFinite = true := by
  intro h
  have hfinite : outlying.IsFinite := by constructor <;> decide +kernel
  have hordered : outlying.Ordered := by constructor <;> decide +kernel
  obtain ⟨hinside, -⟩ := h {} outlying outlying .orthogonal hfinite hfinite hordered hordered
  exact absurd hinside (by decide +kernel)

end DotLayout.Routing
