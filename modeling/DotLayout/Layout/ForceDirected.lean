import DotLayout.Layout.Scene

/-! # Force-directed layout

    A simulation in steps.  Any two nodes push each other apart, the more the closer they are, and
    arrows pull their ends together.  No node moves farther in a step than the spacing, none
    leaves the bounds, and the anchor stays in the center. -/

namespace DotLayout.Layout.ForceDirected

open Numeric

/-- What stays the same during a simulation. -/
structure Field where
  arrows : List (Nat × Nat)
  pinned : Option Nat
  center : Point
  bounds : Bounds
  /-- The longest way that a node moves in a step. -/
  maxStep : Float32
  repulsion : Float32
  attraction : Float32
  damping : Float32
  /-- For each node, where it pushes a later node that stands on the same spot. -/
  escapes : Array Point

/-- The radius of the circle on which so many nodes start. -/
def startRadius (spacing : Float32) (count : Nat) : Float32 :=
  larger (spacing * ofCount count / tau) spacing

/-- Where the nodes start: on a circle from the top, a node on its own and the anchor in the
    center. -/
def startPoints (s : Scene) : List Point :=
  (List.range s.count).map fun i =>
    if s.anchor = some i ∨ s.count = 1 then s.measures.center
    else
      .polar s.measures.center (startRadius s.spacing s.count)
        (-tau / 4 + tau * ofCount i / ofCount s.count)

/-- The bounds of a simulation for which none are given. -/
def defaultBounds (s : Scene) : Bounds :=
  let half := startRadius s.spacing s.count * 2
  .around s.measures.center ⟨half * 2, half * 2⟩

def Field.ofScene (s : Scene) : Field where
  arrows := s.arrows
  pinned := s.anchor
  center := s.measures.center
  bounds := s.measures.bounds.getD (defaultBounds s)
  maxStep := s.spacing
  repulsion :=
    let reach := s.spacing * s.measures.force.repulsion
    reach * reach
  attraction := s.measures.force.attraction
  damping := s.measures.force.damping
  escapes := (Array.range s.count).map fun i =>
    .polar .origin 1 (tau * ofCount i / ofCount s.count)

/-- The distance up to which two nodes count as standing on the same spot. -/
def sameSpot : Float32 := 1.1920929e-7

/-- The push that node `i` at `p` gets from a later node at `q`; the later node gets the opposite
    push. -/
def push (f : Field) (i : Nat) (p q : Point) : Point :=
  let apart := p - q
  let distance := apart.length
  let direction :=
    if sameSpot < distance then apart.scale (1 / distance) else f.escapes[i]?.getD .origin
  let near := larger distance 1
  direction.scale (f.repulsion / (near * near))

/-- The pushes that node `i` at `p` gets from all other nodes, added up in order. -/
def pushes (f : Field) (points : List Point) (i : Nat) (p : Point) : Point :=
  points.zipIdx.foldl
    (fun total (q, j) =>
      if j < i then total - push f j q p else if i < j then total + push f i p q else total)
    .origin

/-- The pull along an arrow, as its source feels it. -/
def pull (f : Field) (points : List Point) (arrow : Nat × Nat) : Point :=
  let place (i : Nat) : Point := points[i]?.getD .origin
  (place arrow.2 - place arrow.1).scale f.attraction

/-- The velocity of node `i` at `p`: the pushes, and then the pulls of its arrows in order. -/
def velocity (f : Field) (points : List Point) (i : Nat) (p : Point) : Point :=
  f.arrows.foldl
    (fun total arrow =>
      if arrow.1 = i then total + pull f points arrow
      else if arrow.2 = i then total - pull f points arrow
      else total)
    (pushes f points i p)

/-- The way that a node with a velocity goes in a step. -/
def way (f : Field) (velocity : Point) : Point :=
  let damped := velocity.scale f.damping
  if f.maxStep < damped.length then damped.scale (f.maxStep / damped.length) else damped

/-- Where node `i` at `p` is after a step. -/
def move (f : Field) (points : List Point) (i : Nat) (p : Point) : Except ClampFault Point :=
  if f.pinned = some i then .ok f.center
  else
    let step := way f (velocity f points i p)
    if step.isFinite then f.bounds.clampPoint (p + step) else .ok p

def step (f : Field) (points : List Point) : Except ClampFault (List Point) :=
  points.zipIdx.mapM fun (p, i) => move f points i p

/-- So many steps.  Once a step moves nothing there is no need for the others. -/
def run (f : Field) : Nat → List Point → Except ClampFault (List Point)
  | 0, points => .ok points
  | steps + 1, points =>
    match step f points with
    | .ok moved => if moved = points then .ok points else run f steps moved
    | .error fault => .error fault

/-- Points that a step leaves in place stay there. -/
theorem run_of_step_eq {f : Field} {points : List Point} (h : step f points = .ok points)
    (steps : Nat) : run f steps points = .ok points := by
  cases steps with
  | zero => rfl
  | succ steps => simp [run, h]

/-- Many steps are one step and the others after it. -/
theorem run_succ (f : Field) (steps : Nat) (points : List Point) :
    run f (steps + 1) points = (step f points).bind (run f steps) := by
  unfold run
  cases h : step f points with
  | error fault => rfl
  | ok moved =>
    by_cases still : moved = points
    · subst still
      simp [Except.bind, run_of_step_eq h]
    · simp [Except.bind, still]

def points (s : Scene) : Except ClampFault (List Point) :=
  run (.ofScene s) s.measures.force.iterations (startPoints s)

end DotLayout.Layout.ForceDirected
