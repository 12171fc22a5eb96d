import DotLayout.Layout.Scene

/-! # Grid layout

    The nodes fill a grid row by row, in order.  The number of columns is what is asked for, or
    else the smallest that makes the grid no taller than wide, and never more than there are
    nodes. -/

namespace DotLayout.Layout.Grid

open Numeric

/-- The number of columns for so many nodes. -/
def columns (asked : Option Nat) (count : Nat) : Nat :=
  min count
    (match asked with
    | some (c + 1) => c + 1
    | _ => ceilCount (Float32.sqrt (ofCount count)))

/-- The number of rows that so many nodes fill. -/
def rows (columns count : Nat) : Nat := (count + columns - 1) / columns

/-- The coordinate of the first of so many cells around a center. -/
def firstCell (center cell : Float32) (cells : Nat) : Float32 :=
  center - ofCount (cells - 1) * cell / 2

def points (s : Scene) : List Point :=
  let columns := columns s.measures.gridColumns s.count
  let first : Point :=
    ⟨firstCell s.measures.center.x s.spacing columns,
      firstCell s.measures.center.y s.spacing (rows columns s.count)⟩
  (List.range s.count).map fun i =>
    first + ⟨ofCount (i % columns) * s.spacing, ofCount (i / columns) * s.spacing⟩

end DotLayout.Layout.Grid
