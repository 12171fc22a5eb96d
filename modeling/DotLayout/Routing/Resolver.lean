import DotLayout.Graph.Basic
import DotLayout.Routing.EdgePath

/-! # Routing

    A `Resolver` finds the way of an edge between two rectangles.  A curved edge joins the sides
    that face each other, and its control points lie outward of them; an orthogonal edge joins
    the two ports by lines along the axes. -/

namespace DotLayout.Routing

/-- The sides that orthogonal edges leave from and arrive at. -/
structure Ports where
  source : Side := .bottom
  target : Side := .top
  deriving Repr, DecidableEq

/-- How edges are drawn: `curvature` is the part of the way between the anchors that the control
    points of a curve lie ahead. -/
structure Resolver where
  curvature : Float32 := 0.25
  ports : Ports := {}

/-- The sides of two rectangles that face each other. -/
def facingSides (source target : Bounds) : Side × Side :=
  let way := target.center - source.center
  if way.y.abs < way.x.abs then
    if 0 < way.x then (.right, .left) else (.left, .right)
  else if 0 ≤ way.y then (.bottom, .top)
  else (.top, .bottom)

/-- Leaves out every point that equals the one before it. -/
def dropRepeats : List Point → List Point
  | p :: q :: rest =>
    if p == q then dropRepeats (p :: rest) else p :: dropRepeats (q :: rest)
  | points => points
  termination_by points => points.length

/-- The points of an orthogonal path between two points, which leaves and arrives along the given
    axes. -/
def bends (leavesHorizontally arrivesHorizontally : Bool) (start stop : Point) : List Point :=
  match leavesHorizontally, arrivesHorizontally with
  | false, false =>
    let middle := (start.y + stop.y) / 2
    [⟨start.x, middle⟩, ⟨stop.x, middle⟩]
  | true, true =>
    let middle := (start.x + stop.x) / 2
    [⟨middle, start.y⟩, ⟨middle, stop.y⟩]
  | false, true => [⟨start.x, stop.y⟩]
  | true, false => [⟨stop.x, start.y⟩]

namespace Resolver

def resolveCurved (r : Resolver) (source target : Bounds) : EdgeGeometry :=
  let (sourceSide, targetSide) := facingSides source target
  let leaving := Anchor.on source sourceSide
  let arriving := Anchor.on target targetSide
  let way := arriving.point - leaving.point
  let span := if sourceSide.isHorizontal then way.x.abs else way.y.abs
  let ahead := span * r.curvature
  ⟨leaving, arriving,
    .cubic leaving.point (leaving.point + sourceSide.outward.scale ahead)
      (arriving.point + targetSide.outward.scale ahead) arriving.point⟩

def resolveOrthogonal (r : Resolver) (source target : Bounds) : EdgeGeometry :=
  let leaving := Anchor.on source r.ports.source
  let arriving := Anchor.on target r.ports.target
  let middle := bends r.ports.source.isHorizontal r.ports.target.isHorizontal leaving.point
    arriving.point
  ⟨leaving, arriving, .elbow (dropRepeats (leaving.point :: middle ++ [arriving.point]))⟩

/-- The way of an edge of a kind between two rectangles. -/
def resolve (r : Resolver) (source target : Bounds) (kind : EdgeKind) : EdgeGeometry :=
  match kind with
  | .curved => r.resolveCurved source target
  | .orthogonal => r.resolveOrthogonal source target

/-- The way of an edge of a graph, if both of its ends are nodes. -/
def resolveEdge (r : Resolver) (g : Graph) (e : Edge) : Option EdgeGeometry := do
  let source ← g.bounds? e.source
  let target ← g.bounds? e.target
  return r.resolve source target e.kind

end Resolver

end DotLayout.Routing
