import DotLayout.Proofs.Layout.Checked.Formula
import DotLayout.Proofs.Layout.Independence
import Mathlib.Algebra.Order.Floor.Div

/-! # Cells of a grid

    The grid layout fills its rows one after the other.  There are as many columns as are asked for,
    but at least one and no more than there are nodes, and as many rows as it then takes.

    * `columns_bounds` and `columns_asked` : the number of columns.
    * `fillsRows` : with such a number no cell is taken twice, every row but the last is full, and
      none is empty.
    * `grid_cells` : the layout puts the nodes into these cells, and a cell has one coordinate for
      its column and one for its row. -/

namespace DotLayout.Layout.Grid

open Numeric

variable {columns rows n i : Nat}

/-! ## Rows and columns -/

/-- There is a column, and a node for each of them. -/
theorem columns_bounds (asked : Option Nat) (hn : n ≠ 0) :
    1 ≤ Grid.columns asked n ∧ Grid.columns asked n ≤ n := by
  have hpos : Grid.columns asked n ≠ 0 := by
    rw [← Engine.columns_eq]
    exact Checked.columns_pos hn asked
  exact ⟨Nat.pos_of_ne_zero hpos, Nat.min_le_left ..⟩

/-- A number of columns that is asked for is given as far as there are nodes. -/
theorem columns_asked {c : Nat} (hc : 0 < c) (n : Nat) :
    Grid.columns (some c) n = min c n := by
  obtain ⟨k, rfl⟩ := Nat.exists_eq_succ_of_ne_zero (Nat.ne_of_gt hc)
  exact Nat.min_comm ..

theorem rows_eq_ceilDiv (columns n : Nat) : Grid.rows columns n = n ⌈/⌉ columns :=
  (Nat.ceilDiv_eq_add_pred_div n columns).symm

/-- The row and the column of a node. -/
def cell (columns i : Nat) : Nat × Nat := (i / columns, i % columns)

/-- The nodes take cells of their own in a grid with so many columns and rows.  Every row but the
    last is full, and the last one is not empty. -/
structure FillsRows (columns rows n : Nat) : Prop where
  distinct : ∀ i < n, ∀ j < n, cell columns i = cell columns j → i = j
  inside : ∀ i < n, (cell columns i).1 < rows ∧ (cell columns i).2 < columns
  full : ∀ row column, row + 1 < rows → column < columns → ∃ i < n, cell columns i = (row, column)
  last : ∃ i < n, (cell columns i).1 + 1 = rows

/-- A node is given back by its row and its column. -/
theorem eq_of_cell (columns i : Nat) :
    columns * (cell columns i).1 + (cell columns i).2 = i :=
  Nat.div_add_mod i columns

/-- The cell in a row and a column belongs to the node with that number. -/
theorem cell_mul_add {row column : Nat} (h : column < columns) :
    cell columns (columns * row + column) = (row, column) := by
  have hpos : 0 < columns := Nat.zero_lt_of_lt h
  rw [cell, Nat.mul_add_div hpos, Nat.div_eq_of_lt h, Nat.add_zero, Nat.mul_add_mod,
    Nat.mod_eq_of_lt h]

/-- A row begins before the nodes end exactly if it is one of the rows that they take. -/
theorem mul_lt_iff_lt_ceilDiv (hcolumns : 0 < columns) (row : Nat) :
    columns * row < n ↔ row < n ⌈/⌉ columns := by
  rw [← not_le, ← not_le, ceilDiv_le_iff_le_mul hcolumns]

/-- Nodes in as many rows as it takes fill them one after the other. -/
theorem fillsRows (hcolumns : 0 < columns) (hn : 0 < n) :
    FillsRows columns (n ⌈/⌉ columns) n where
  distinct := by
    intro i _ j _ hcell
    rw [← eq_of_cell columns i, hcell, eq_of_cell]
  inside := by
    intro i hi
    refine ⟨(mul_lt_iff_lt_ceilDiv hcolumns _).1 ?_, Nat.mod_lt i hcolumns⟩
    exact Nat.lt_of_le_of_lt (Nat.mul_div_le i columns) hi
  full := by
    intro row column hrow hcolumn
    refine ⟨columns * row + column, ?_, cell_mul_add hcolumn⟩
    -- the next row begins before the nodes end
    have hnext := (mul_lt_iff_lt_ceilDiv (n := n) hcolumns (row + 1)).2 hrow
    rw [Nat.mul_add, Nat.mul_one] at hnext
    omega
  last := by
    have hrows : 0 < n ⌈/⌉ columns := (mul_lt_iff_lt_ceilDiv hcolumns 0).1 hn
    obtain ⟨row, hrow⟩ := Nat.exists_eq_succ_of_ne_zero (Nat.ne_of_gt hrows)
    refine ⟨columns * row + 0, (mul_lt_iff_lt_ceilDiv hcolumns row).2 (by omega), ?_⟩
    rw [cell_mul_add hcolumns, hrow]

/-! ## Layouts -/

/-- The coordinate of one of so many cells around a center. -/
def coordinate (center size : Float32) (cells k : Nat) : Float32 :=
  firstCell center size cells + ofCount k * size

/-- The point of a node: one coordinate for its column and one for its row. -/
theorem getElem?_points {s : Scene} (hi : i < s.count)
    (hcolumns : columns = Grid.columns s.measures.gridColumns s.count) :
    (points s)[i]? = some
      ⟨coordinate s.measures.center.x s.spacing columns (cell columns i).2,
        coordinate s.measures.center.y s.spacing (s.count ⌈/⌉ columns) (cell columns i).1⟩ := by
  subst hcolumns
  rw [points, List.getElem?_map, List.getElem?_range hi, Option.map_some, rows_eq_ceilDiv]
  rfl

/-- **The nodes fill a grid row by row.**  On every graph with nodes, whatever number of columns is
    asked for, the grid layout uses at least one column and at most as many as there are nodes: a
    positive number that is asked for, as far as there are nodes.  It takes the least number of rows
    in which the nodes find room.  Each node has a cell of its own, in order, row by row, so that
    every row but the last is full and the last one is not empty.  No number is taken off a smaller
    one and nothing is divided by zero.  The first coordinate of a node depends on nothing but its
    column, and the second one on nothing but its row. -/
theorem grid_cells (g : Graph) (p : Params) (h : g.nodes ≠ []) :
    let n := g.nodes.length
    let columns := Grid.columns p.gridColumns n
    let rows := n ⌈/⌉ columns
    let size := p.minSpacing (g.nodes.map Node.size)
    (1 ≤ columns ∧ columns ≤ n) ∧
      (∀ c, p.gridColumns = some c → 0 < c → columns = min c n) ∧
      FillsRows columns rows n ∧
      ∃ positions, Checked.grid g p = .ok positions ∧
        Algorithm.grid.layout g p = .ok positions ∧ positions.keys = g.ids ∧
        ∀ (i : Nat) node, g.nodes[i]? = some node → positions.get? node.id = some
          ⟨coordinate p.center.x size columns (cell columns i).2,
            coordinate p.center.y size rows (cell columns i).1⟩ := by
  intro n columns rows size
  have hn : n ≠ 0 := fun hzero => h (List.length_eq_zero_iff.1 hzero)
  obtain ⟨hpos, hle⟩ := columns_bounds p.gridColumns hn
  obtain ⟨positions, hlayout, hentries⟩ :=
    entries_layout (show Algorithm.grid.points (.ofGraph g p) = .ok (points _) from rfl)
  -- the engine that checks its arithmetic computes the same positions
  obtain rfl := Except.ok.inj ((Engine.grid_eq g p).symm.trans hlayout)
  refine ⟨⟨hpos, hle⟩, ?_, fillsRows hpos (Nat.pos_of_ne_zero hn), _, Checked.grid_eq g p, hlayout,
    (layout_eq_ok hlayout).2, ?_⟩
  · intro c hasked hc
    show Grid.columns p.gridColumns n = min c n
    rw [hasked, columns_asked hc]
  · intro i node hnode
    have hi : i < (Scene.ofGraph g p).count := by
      rw [count_ofGraph]
      exact (List.getElem?_eq_some_iff.1 hnode).1
    have hcolumns : columns = Grid.columns p.gridColumns (Scene.ofGraph g p).count := by
      rw [count_ofGraph]
    have hpoint := getElem?_points hi hcolumns
    rw [count_ofGraph] at hpoint
    exact get?_of_entries hentries hnode hpoint

/-- Five nodes and no edges. -/
def five : Graph :=
  ["a", "b", "c", "d", "e"].foldl Graph.ensureNode (.empty true none)

/-- In two columns five nodes take three rows, and the last node is alone in the first column. -/
theorem grid_cells_five :
    five.nodes ≠ [] ∧ FillsRows 2 3 5 ∧
      ∃ positions, Algorithm.grid.layout five { gridColumns := some 2 } = .ok positions ∧
        positions.get? "e" = some
          ⟨coordinate 0 (Measures.minSpacing {} (five.nodes.map Node.size)) 2 0,
            coordinate 0 (Measures.minSpacing {} (five.nodes.map Node.size)) 3 2⟩ := by
  have hne : five.nodes ≠ [] := by decide
  obtain ⟨-, hasked, hfills, positions, -, hlayout, -, hplaces⟩ :=
    grid_cells five { gridColumns := some 2 } hne
  have hcolumns : Grid.columns (some 2) five.nodes.length = 2 := hasked 2 rfl (by decide)
  have hlast := hplaces 4 (five.nodes.get ⟨4, by decide⟩) rfl
  simp only [hcolumns] at hfills hlast
  exact ⟨hne, hfills, positions, hlayout, hlast⟩

end DotLayout.Layout.Grid
