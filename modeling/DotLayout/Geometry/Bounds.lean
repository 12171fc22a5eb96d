import DotLayout.Geometry.Point

/-! # Sizes and rectangles

    A `Bounds` is a rectangle given by the smallest and largest coordinates on both axes.  Nothing
    forces the limits into order: a size may be negative or no number, and `clampPoint` refuses a
    rectangle whose limits leave no room. -/

namespace DotLayout

open Numeric

/-- A width and a height. -/
structure Size where
  width : Float32
  height : Float32
  deriving Repr

namespace Size

/-- The larger width and the larger height of two sizes. -/
def larger (s t : Size) : Size :=
  ⟨Numeric.larger s.width t.width, Numeric.larger s.height t.height⟩

/-- A size that is larger by a factor. -/
def scale (s : Size) (factor : Float32) : Size := ⟨s.width * factor, s.height * factor⟩

/-- Whether both sides are zeros, of any sign. -/
def isZero (s : Size) : Bool := s.width == 0 && s.height == 0

end Size

/-- A rectangle with sides along the axes. -/
structure Bounds where
  minX : Float32
  minY : Float32
  maxX : Float32
  maxY : Float32
  deriving Repr

namespace Bounds

/-- The rectangle of a size around a center. -/
def around (center : Point) (size : Size) : Bounds where
  minX := center.x - size.width / 2
  minY := center.y - size.height / 2
  maxX := center.x + size.width / 2
  maxY := center.y + size.height / 2

/-- The rectangle of a size below and to the right of a corner. -/
def fromCorner (corner : Point) (size : Size) : Bounds where
  minX := corner.x
  minY := corner.y
  maxX := corner.x + size.width
  maxY := corner.y + size.height

/-- The center of a rectangle: the mean of its limits on both axes. -/
def center (b : Bounds) : Point := ⟨(b.minX + b.maxX) / 2, (b.minY + b.maxY) / 2⟩

/-- How far a rectangle reaches to the right. -/
def width (b : Bounds) : Float32 := b.maxX - b.minX

/-- How far a rectangle reaches down. -/
def height (b : Bounds) : Float32 := b.maxY - b.minY

/-- Whether a point lies inside a rectangle or on its border. -/
def contains (b : Bounds) (p : Point) : Bool :=
  b.minX ≤ p.x && p.x ≤ b.maxX && b.minY ≤ p.y && p.y ≤ b.maxY

/-- Moves a point to the nearest place inside a rectangle. -/
def clampPoint (b : Bounds) (p : Point) : Except ClampFault Point := do
  let x ← clampBetween p.x b.minX b.maxX
  let y ← clampBetween p.y b.minY b.maxY
  return ⟨x, y⟩

end Bounds

end DotLayout
