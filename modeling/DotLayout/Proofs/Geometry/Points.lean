import DotLayout.Geometry.Bounds
import DotLayout.Proofs.Numeric.Steps

/-! # Points and rectangles given by numbers

    A point is given by numbers if none of its coordinates is undefined; they may be infinite, as in
    the center of a finite rectangle that is too far away.  Such points are equal to themselves.

    * `Point.IsNumber.add` : a finite way leads from such a point to another one.
    * `Bounds.contains_iff` : what it takes to be inside a rectangle.
    * `Bounds.around_contains` : a rectangle around a point has the point inside.
    * `Bounds.IsFinite.isNumber_center` : finite rectangles have centers given by numbers. -/

namespace DotLayout

open Numeric

namespace Point

variable {p q r : Point}

/-- Both coordinates are numbers, infinite or not. -/
structure IsNumber (p : Point) : Prop where
  x : p.x.isNaN = false
  y : p.y.isNaN = false

theorem IsNumber.of_isFinite (h : p.isFinite = true) : p.IsNumber := by
  obtain ⟨hx, hy⟩ := Bool.and_eq_true_iff.1 h
  exact ⟨isNaN_of_isFinite hx, isNaN_of_isFinite hy⟩

/-- A finite way leads from numbers to numbers. -/
theorem IsNumber.add (hp : p.IsNumber) (hq : q.isFinite = true) : (p + q).IsNumber := by
  obtain ⟨hx, hy⟩ := Bool.and_eq_true_iff.1 hq
  exact ⟨isNaN_add hp.x hx, isNaN_add hp.y hy⟩

theorem beq_iff : (p == q) = true ↔ (p.x == q.x) = true ∧ (p.y == q.y) = true :=
  Bool.and_eq_true_iff

theorem IsNumber.beq_self (h : p.IsNumber) : (p == p) = true :=
  beq_iff.2 ⟨beq_self_iff.2 h.x, beq_self_iff.2 h.y⟩

end Point

namespace Bounds

variable {b : Bounds} {p : Point}

/-- A rectangle contains the points between its limits on both axes. -/
theorem contains_iff :
    b.contains p = true ↔ (b.minX ≤ p.x ∧ p.x ≤ b.maxX) ∧ b.minY ≤ p.y ∧ p.y ≤ b.maxY := by
  simp only [contains, Bool.and_eq_true, decide_eq_true_eq, and_assoc]

theorem isNumber_of_contains (h : b.contains p = true) : p.IsNumber := by
  obtain ⟨⟨-, hx⟩, -, hy⟩ := contains_iff.1 h
  exact ⟨(le_iff.1 hx).1.1, (le_iff.1 hy).1.1⟩

/-- A rectangle around a finite point with sides that are not negative has the point inside. -/
theorem around_contains {center : Point} {size : Size} (hcenter : center.isFinite = true)
    (hwidth : 0 ≤ size.width) (hheight : 0 ≤ size.height) :
    (around center size).contains center = true := by
  obtain ⟨hx, hy⟩ := Bool.and_eq_true_iff.1 hcenter
  have half : ∀ {side : Float32}, 0 ≤ side → 0 ≤ side / 2 := fun h =>
    nonneg_div h (by decide +kernel) (by decide +kernel)
  exact contains_iff.2 ⟨⟨sub_le hx (half hwidth), le_add hx (half hwidth)⟩,
    sub_le hy (half hheight), le_add hy (half hheight)⟩

/-- All four limits are finite, in order or not. -/
structure IsFinite (b : Bounds) : Prop where
  minX : b.minX.isFinite = true
  minY : b.minY.isFinite = true
  maxX : b.maxX.isFinite = true
  maxY : b.maxY.isFinite = true

/-- The number half way between finite ones may be too large, but it is a number. -/
theorem isNaN_middle {x y : Float32} (hx : x.isFinite = true) (hy : y.isFinite = true) :
    ((x + y) / 2).isNaN = false :=
  isNaN_div (isNaN_add (isNaN_of_isFinite hx) hy) (by decide +kernel) (by decide +kernel)

theorem IsFinite.isNumber_center (h : b.IsFinite) : b.center.IsNumber where
  x := isNaN_middle h.minX h.maxX
  y := isNaN_middle h.minY h.maxY

end Bounds

end DotLayout
