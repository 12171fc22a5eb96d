import DotLayout.Graph.Basic

/-! # Scenes

    A layout does not look at a whole graph.  A `Scene` holds what it may use: the sizes of the
    nodes in order, the arrows between them by index, the index of the anchor, and the measures.
    Ids, labels, styles and old positions are left behind, and so are self loops, repeated edges
    and edges whose endpoints are missing. -/

namespace DotLayout.Layout

open Numeric

/-- What the force layout is tuned with. -/
structure Force where
  iterations : Nat := 300
  attraction : Float32 := 0.01
  repulsion : Float32 := 1.5
  damping : Float32 := 0.85

/-- What the radial layout is tuned with. -/
structure Rings where
  baseRadius : Float32 := 60
  radiusStep : Float32 := 200

/-- The numbers that a layout works with. -/
structure Measures where
  center : Point := .origin
  spacing : Float32 := 180
  padding : Float32 := 40
  rankSpacing : Float32 := 120
  minRadius : Float32 := 200
  gridColumns : Option Nat := none
  bounds : Option Bounds := none
  force : Force := {}
  rings : Rings := {}

/-- All that can be asked of a layout: the measures, and a node to be given the first place. -/
structure Params extends Measures where
  anchor : Option String := none

/-- The space between nodes that are to be next to each other: at least what is asked for, and at
    least the largest extent with its padding. -/
def clearSpace (asked padding : Float32) (extents : List Float32) : Float32 :=
  larger asked (extents.foldl larger 0 + padding)

/-- The space between nodes side by side. -/
def Measures.minSpacing (m : Measures) (sizes : List Size) : Float32 :=
  clearSpace m.spacing m.padding (sizes.map Size.width)

/-- The space between nodes one above the other. -/
def Measures.minRankSpacing (m : Measures) (sizes : List Size) : Float32 :=
  clearSpace m.rankSpacing m.padding (sizes.map Size.height)

/-- What a layout may look at. -/
structure Scene where
  sizes : List Size
  /-- Source and target of each edge between different nodes, every pair once, in the order in
      which the pairs first appear. -/
  arrows : List (Nat × Nat)
  anchor : Option Nat
  measures : Measures

/-- The indices of the endpoints of an edge, if both are nodes and they differ. -/
def arrow? (g : Graph) (e : Edge) : Option (Nat × Nat) := do
  let source ← g.indexOf? e.source
  let target ← g.indexOf? e.target
  if source = target then none else return (source, target)

namespace Scene

def ofGraph (g : Graph) (p : Params) : Scene where
  sizes := g.nodes.map Node.size
  arrows := (g.edges.filterMap (arrow? g)).eraseDups
  anchor := p.anchor.bind g.indexOf?
  measures := p.toMeasures

def count (s : Scene) : Nat := s.sizes.length

/-- The space between nodes side by side. -/
def spacing (s : Scene) : Float32 := s.measures.minSpacing s.sizes

/-- The space between nodes one above the other. -/
def rankSpacing (s : Scene) : Float32 := s.measures.minRankSpacing s.sizes

/-- The number of arrows that start or end at a node. -/
def degree (s : Scene) (i : Nat) : Nat :=
  s.arrows.countP fun a => a.1 == i || a.2 == i

/-- The first of the given nodes whose degree is largest. -/
def busiest? (s : Scene) (nodes : List Nat) : Option Nat :=
  nodes.foldl
    (fun best i => match best with
      | some b => if s.degree i ≤ s.degree b then some b else some i
      | none => some i)
    none

/-- The node that is given the first place: the anchor, or else the first one with the largest
    degree. -/
def hub? (s : Scene) : Option Nat := s.anchor.or (s.busiest? (List.range s.count))

end Scene

end DotLayout.Layout
