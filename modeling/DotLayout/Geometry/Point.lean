import DotLayout.Numeric.Trigonometry

/-! # Points

    The plane has its origin at the top left; the first axis runs to the right, the second one
    down.  A `Point` also serves as the vector from the origin to it. -/

namespace DotLayout

open Numeric

/-- A place in the plane, or the vector that leads there from the origin. -/
structure Point where
  x : Float32
  y : Float32
  deriving Repr, DecidableEq

namespace Point

/-- The top left corner of the plane. -/
def origin : Point := ⟨0, 0⟩

instance : Inhabited Point := ⟨origin⟩

/-- Numbers decide equality, so a signed zero equals zero and what is no number equals nothing. -/
instance : BEq Point := ⟨fun p q => p.x == q.x && p.y == q.y⟩

instance : Add Point := ⟨fun p q => ⟨p.x + q.x, p.y + q.y⟩⟩

instance : Sub Point := ⟨fun p q => ⟨p.x - q.x, p.y - q.y⟩⟩

/-- The point at distance `radius` from `center` in the direction `angle`. -/
def polar (center : Point) (radius angle : Float32) : Point :=
  ⟨center.x + radius * cos angle, center.y + radius * sin angle⟩

/-- A vector that is longer by a factor. -/
def scale (p : Point) (factor : Float32) : Point := ⟨p.x * factor, p.y * factor⟩

/-- The length of a vector. -/
def length (p : Point) : Float32 := hypot p.x p.y

/-- The length of the way from one point to another one. -/
def distance (p q : Point) : Float32 := (p - q).length

/-- Whether both coordinates are zeros, of any sign. -/
def isZero (p : Point) : Bool := p.x == 0 && p.y == 0

/-- Whether both coordinates are finite numbers. -/
def isFinite (p : Point) : Bool := p.x.isFinite && p.y.isFinite

end Point

end DotLayout
