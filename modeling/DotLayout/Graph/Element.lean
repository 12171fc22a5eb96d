import DotLayout.Geometry.Bounds
import DotLayout.OrderedMap
import DotLayout.Text.Blank

/-! # Nodes and edges

    What a graph is made of.  A node has an id, a label, a rectangle and a style; an edge joins
    two nodes by their ids.  Style values are kept as written: `stroke` is the line color,
    `background` the fill color, and attributes without a field of their own stay in `extra`. -/

namespace DotLayout

/-- How a node is drawn. -/
structure NodeStyle where
  stroke : Option String := none
  background : Option String := none
  style : Option String := none
  shape : Option String := none
  extra : OrderedMap String := {}

/-- A style on top of another one: what `newer` gives wins, the rest stays. -/
def NodeStyle.merge (older newer : NodeStyle) : NodeStyle where
  stroke := newer.stroke.or older.stroke
  background := newer.background.or older.background
  style := newer.style.or older.style
  shape := newer.shape.or older.shape
  extra := older.extra.insertAll newer.extra.entries

/-- A node; `position` is the top left corner of its rectangle. -/
structure Node where
  id : String
  label : String
  size : Size
  position : Point
  style : NodeStyle

namespace Node

/-- The size of a node for which none is given. -/
def defaultSize : Size := ⟨150, 40⟩

/-- The node that an id alone describes: labelled with its id, at the origin. -/
def named (id : String) : Node where
  id := id
  label := id
  size := defaultSize
  position := .origin
  style := {}

def bounds (n : Node) : Bounds := .fromCorner n.position n.size

def center (n : Node) : Point := n.bounds.center

/-- A repeated definition: a label replaces the old one, and the style goes on top. -/
def redefine (n : Node) (label : Option String) (style : NodeStyle) : Node :=
  { n with label := label.getD n.label, style := n.style.merge style }

end Node

/-- How an edge is drawn. -/
inductive EdgeKind where
  /-- A curve between the sides that face each other. -/
  | curved
  /-- A line along the axes between fixed sides. -/
  | orthogonal
  deriving Repr, DecidableEq

namespace EdgeKind

def name : EdgeKind → String
  | .curved => "curved"
  | .orthogonal => "orthogonal"

/-- The kind that a name or a `splines` value stands for. -/
def ofName? (name : String) : Option EdgeKind :=
  let name := Text.asciiLower (Text.trimmed name)
  if ["curved", "floating", "spline", "splines", "curve", "true"].contains name then
    some .curved
  else if ["orthogonal", "ortho", "polyline", "step", "elbow"].contains name then
    some .orthogonal
  else
    none

/-- What is said about a name that stands for no kind. -/
def unknownName : String := "Unsupported render kind"

end EdgeKind

/-- The attributes of an edge. -/
structure EdgeAttributes where
  label : Option String := none
  stroke : Option String := none
  style : Option String := none
  extra : OrderedMap String := {}

/-- A connection from one node to another, both given by their ids. -/
structure Edge where
  id : String
  source : String
  target : String
  attributes : EdgeAttributes := {}
  kind : EdgeKind := .curved

/-- Whether an edge ends where it starts. -/
def Edge.isSelfLoop (e : Edge) : Bool := e.source == e.target

end DotLayout
