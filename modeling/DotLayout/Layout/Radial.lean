import DotLayout.Layout.Levels
import DotLayout.Layout.Scene

/-! # Radial layout

    The hub stands in the center and every other node on the ring of its level above the hub;
    nodes that the hub does not lead to form a ring of their own outside.

    The nodes of a ring are spread evenly.  Their order follows the mean direction of the nodes on
    inner rings that point to them; nodes without such a direction come first. -/

namespace DotLayout.Layout.Radial

open Numeric

/-- Where a node stands: the direction from the center, and the point. -/
structure Spot where
  angle : Float32
  point : Point

abbrev Spots := List (Option Spot)

def Spots.at (spots : Spots) (i : Nat) : Option Spot := (spots[i]?).join

/-- The sources of the arrows into a node, the newest arrow first. -/
def predecessors (s : Scene) (i : Nat) : List Nat :=
  (s.arrows.filter fun a => a.2 == i).reverse.map Prod.fst

/-- A direction between zero and a full turn. -/
def wrapAngle (angle : Float32) : Float32 := if angle < 0 then angle + tau else angle

/-- The mean of some directions; directions that cancel out have none. -/
def circularMean (angles : List Float32) : Option Float32 :=
  let sines := angles.foldl (fun sum a => sum + sin a) 0
  let cosines := angles.foldl (fun sum a => sum + cos a) 0
  if angles.isEmpty || hypot sines cosines < 1e-6 then none
  else some (wrapAngle (atan2 sines cosines))

/-- The mean direction of the nodes that point to a node and have a spot. -/
def heading (s : Scene) (spots : Spots) (i : Nat) : Option Float32 :=
  circularMean ((predecessors s i).filterMap fun p => (spots.at p).map Spot.angle)

/-- Whether one heading comes before another one or is the same: no heading comes first. -/
def headingLe : Option Float32 → Option Float32 → Bool
  | none, _ => true
  | some _, none => false
  | some a, some b => totalKey a ≤ totalKey b

/-- The radius of a ring with so many nodes. -/
def ringRadius (s : Scene) (ring count : Nat) : Float32 :=
  larger (s.measures.rings.baseRadius + ofCount ring * s.measures.rings.radiusStep)
    (ofCount count * s.spacing / tau)

/-- The nodes of a ring in the order of their slots. -/
def ordered (s : Scene) (spots : Spots) (members : List Nat) : List Nat :=
  let headed := members.map fun i => (i, heading s spots i)
  (headed.mergeSort fun a b => headingLe a.2 b.2).map Prod.fst

/-- Puts the nodes of a ring on their spots. -/
def fillRing (s : Scene) (spots : Spots) (ring : Nat) (members : List Nat) : Spots :=
  let count := members.length
  (ordered s spots members).zipIdx.foldl
    (fun spots node =>
      let angle := tau * ofCount node.2 / ofCount count
      let point := Point.polar s.measures.center (ringRadius s ring count) angle
      spots.set node.1 (some ⟨angle, point⟩))
    spots

def deepest (levels : Levels) : Nat := levels.toList.reduceOption.foldl max 0

/-- The ring of every node; nodes without a level share the ring behind the last one. -/
def rings (levels : Levels) : Array Nat :=
  let outer := deepest levels + 1
  levels.map fun level => level.getD outer

def membersOf (rings : Array Nat) (ring : Nat) : List Nat :=
  (List.range rings.size).filter fun i => rings[i]? == some ring

/-- The spots of all nodes but the hub, ring by ring. -/
def spots (s : Scene) (hub : Nat) : Spots :=
  let levels := levels s.count [hub] s.arrows
  let rings := rings levels
  (List.range (deepest levels + 1)).foldl
    (fun spots inner => fillRing s spots (inner + 1) (membersOf rings (inner + 1)))
    (List.replicate s.count none)

def points (s : Scene) : List Point :=
  match s.hub? with
  | none => []
  | some hub =>
    let spots := spots s hub
    (List.range s.count).map fun i => ((spots.at i).map Spot.point).getD s.measures.center

end DotLayout.Layout.Radial
