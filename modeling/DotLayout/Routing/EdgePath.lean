import DotLayout.Geometry.Bounds
import DotLayout.Numeric.Decimal

/-! # Sides and paths

    An edge leaves a rectangle in the middle of one of its sides and enters another rectangle in
    the same way.  Between the two anchors it runs along an `EdgePath`, which can be written as a
    drawing command. -/

namespace DotLayout.Routing

open Numeric

/-- A side of a rectangle. -/
inductive Side where
  | top
  | right
  | bottom
  | left
  deriving Repr, DecidableEq

namespace Side

/-- The four sides, clockwise from the top. -/
def all : List Side := [.top, .right, .bottom, .left]

def name : Side → String
  | .top => "top"
  | .right => "right"
  | .bottom => "bottom"
  | .left => "left"

/-- The side with a name, if there is one. -/
def ofName? (name : String) : Option Side := all.find? fun side => side.name == name

/-- The middle of a side of a rectangle. -/
def anchor (side : Side) (b : Bounds) : Point :=
  match side with
  | .top => ⟨b.center.x, b.minY⟩
  | .right => ⟨b.maxX, b.center.y⟩
  | .bottom => ⟨b.center.x, b.maxY⟩
  | .left => ⟨b.minX, b.center.y⟩

/-- The direction that leads out of a rectangle across a side. -/
def outward : Side → Point
  | .top => ⟨0, -1⟩
  | .right => ⟨1, 0⟩
  | .bottom => ⟨0, 1⟩
  | .left => ⟨-1, 0⟩

/-- Whether an edge crosses a side along the first axis. -/
def isHorizontal : Side → Bool
  | .left | .right => true
  | .top | .bottom => false

end Side

/-- Where an edge meets a rectangle. -/
structure Anchor where
  side : Side
  point : Point

/-- The anchor in the middle of a side. -/
def Anchor.on (b : Bounds) (side : Side) : Anchor := ⟨side, side.anchor b⟩

/-- The line of an edge. -/
inductive EdgePath where
  /-- A curve from its start to its end with two control points. -/
  | cubic (start control₁ control₂ stop : Point)
  /-- Straight lines from point to point. -/
  | elbow (points : List Point)

namespace EdgePath

/-- Where a path starts, if it has any point. -/
def start? : EdgePath → Option Point
  | .cubic start _ _ _ => some start
  | .elbow points => points.head?

/-- Where a path ends, if it has any point. -/
def stop? : EdgePath → Option Point
  | .cubic _ _ _ stop => some stop
  | .elbow points => points.getLast?

/-- The points of a path, in order. -/
def points : EdgePath → List Point
  | .cubic start control₁ control₂ stop => [start, control₁, control₂, stop]
  | .elbow points => points

/-- The coordinates of a point in a drawing command. -/
def pointText (p : Point) : String :=
  NumberStyle.plain.render p.x ++ " " ++ NumberStyle.plain.render p.y

/-- The drawing command for a path. -/
def svg : EdgePath → String
  | .cubic start control₁ control₂ stop =>
    "M " ++ pointText start ++ " C " ++ pointText control₁ ++ ", " ++ pointText control₂ ++ ", "
      ++ pointText stop
  | .elbow [] => ""
  | .elbow (first :: rest) =>
    "M " ++ pointText first ++ String.join (rest.map fun p => " L " ++ pointText p)

end EdgePath

/-- The way an edge takes from one rectangle to another. -/
structure EdgeGeometry where
  source : Anchor
  target : Anchor
  path : EdgePath

end DotLayout.Routing
