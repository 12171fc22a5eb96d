import DotLayout.Layout.Circular
import DotLayout.Layout.ForceDirected
import DotLayout.Layout.Grid
import DotLayout.Layout.Hierarchical
import DotLayout.Layout.Radial

/-! # Layout algorithms

    The five ways of placing nodes, the names they go by, and `Algorithm.layout`, which gives a
    position to every node of a graph.  Only the force layout can fail, when the bounds that it is
    to stay in leave no room. -/

namespace DotLayout.Layout

open Numeric

/-- A way of placing the nodes of a graph. -/
inductive Algorithm where
  | circular
  | grid
  | hierarchical
  | forceDirected
  | radial
  deriving Repr, DecidableEq

namespace Algorithm

/-- The algorithm that is used when none is asked for. -/
def default : Algorithm := .circular

def name : Algorithm → String
  | .circular => "circular"
  | .grid => "grid"
  | .hierarchical => "hierarchical"
  | .forceDirected => "force-directed"
  | .radial => "radial"

def aliases : Algorithm → List String
  | .circular => ["circular", "circle", "circo"]
  | .grid => ["grid", "osage", "box"]
  | .hierarchical => ["hierarchical", "tree", "dot", "layered"]
  | .forceDirected => ["force", "force-directed", "forcedirected", "fdp", "neato", "sfdp", "spring"]
  | .radial => ["radial", "twopi", "concentric"]

def all : List Algorithm := [.circular, .grid, .hierarchical, .forceDirected, .radial]

/-- The algorithm that goes by a name, in any case of letters and with blanks around it. -/
def ofName? (name : String) : Option Algorithm :=
  let name := Text.asciiLower (Text.trimmed name)
  all.find? fun algorithm => algorithm.aliases.contains name

/-- The algorithm that goes by a name; any other name stands for the default. -/
def ofName (name : String) : Algorithm := (ofName? name).getD default

/-- What is said about a name that no algorithm goes by. -/
def unknownName : String := "Unsupported layout algorithm"

/-- The place of every node of a scene, by index. -/
def points (algorithm : Algorithm) (s : Scene) : Except ClampFault (List Point) :=
  match algorithm with
  | .circular => .ok (Circular.points s)
  | .grid => .ok (Grid.points s)
  | .hierarchical => .ok (Hierarchical.points s)
  | .forceDirected => ForceDirected.points s
  | .radial => .ok (Radial.points s)

/-- The position of every node of a graph. -/
def layout (algorithm : Algorithm) (g : Graph) (p : Params) : Except ClampFault Positions :=
  (algorithm.points (.ofGraph g p)).map fun points => .ofList (g.ids.zip points)

end Algorithm

end DotLayout.Layout
