import DotLayout.Layout.Scene

/-! # Circular layout

    The hub stands in the center and all other nodes on one circle around it, in order, starting
    at the top. -/

namespace DotLayout.Layout.Circular

open Numeric

/-- The radius of the circle that so many nodes stand on. -/
def radius (s : Scene) (ring : Nat) : Float32 :=
  larger s.measures.minRadius (s.spacing * ofCount ring / tau)

/-- The direction of a slot among so many. -/
def angle (ring slot : Nat) : Float32 :=
  -tau / 4 + tau * ofCount slot / ofCount ring

/-- The slot of a node: the hub takes none. -/
def slot (hub i : Nat) : Nat := if i < hub then i else i - 1

def points (s : Scene) : List Point :=
  match s.hub? with
  | none => []
  | some hub =>
    let ring := s.count - 1
    (List.range s.count).map fun i =>
      if i = hub then s.measures.center
      else .polar s.measures.center (radius s ring) (angle ring (slot hub i))

end DotLayout.Layout.Circular
