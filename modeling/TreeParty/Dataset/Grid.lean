import TreeParty.Fault
/-!
# Grids and tables

A grid is a regular array of numbers with any number of dimensions, its cells in row-major order. A
table is a grid of two dimensions, seen as a list of rows of one width.
-/

namespace TreeParty

def cellCount (shape : List Nat) : Nat := shape.foldr (· * ·) 1

structure Grid where
  shape : List Nat
  cells : List Binary64
  complete : cells.length = cellCount shape

structure Table where
  width : Nat
  rows : List (List Binary64)
  regular : ∀ row ∈ rows, row.length = width

/-! ## Grids from nested lists -/

inductive Nested where
  | cell (x : Binary64)
  | items (entries : List Nested)

namespace Grid

def ofCell (x : Binary64) : Grid := ⟨[], [x], rfl⟩

def ofCells? (shape : List Nat) (cells : List Binary64) : Except Fault Grid :=
  if h : cells.length = cellCount shape then .ok ⟨shape, cells, h⟩ else .error (.misuse .ragged)

def stack? (grids : List Grid) : Except Fault Grid :=
  match grids with
  | [] => ofCells? [0] []
  | first :: rest =>
    if rest.all fun g => g.shape == first.shape then
      ofCells? (grids.length :: first.shape) (grids.flatMap (·.cells))
    else .error (.misuse .ragged)

mutual

def ofNested : Nested → Except Fault Grid
  | .cell x => .ok (ofCell x)
  | .items entries => do stack? (← ofEntries entries)

def ofEntries : List Nested → Except Fault (List Grid)
  | [] => .ok []
  | entry :: rest => do return (← ofNested entry) :: (← ofEntries rest)

end

def reshape (shape : List Nat) (g : Grid) : Except Fault Grid := ofCells? shape g.cells

def featureCount (g : Grid) : Nat :=
  match g.shape with
  | [_, columns] => columns
  | _ => 0

def column (g : Grid) (j : Nat) : List Binary64 :=
  match g.shape with
  | [rows, columns] => (List.range rows).filterMap fun i => g.cells[i * columns + j]?
  | _ => []

def columns (g : Grid) : List (List Binary64) := (List.range g.featureCount).map g.column

def cutRows (width : Nat) : Nat → List Binary64 → List (List Binary64)
  | 0, _ => []
  | count + 1, cells => cells.take width :: cutRows width count (cells.drop width)

theorem length_of_mem_cutRows {width count : Nat} {cells : List Binary64}
    (hcells : cells.length = count * width) :
    ∀ row ∈ cutRows width count cells, row.length = width := by
  induction count generalizing cells with
  | zero => simp [cutRows]
  | succ count ih =>
    intro row hrow
    have hle : width ≤ cells.length := by
      rw [hcells, Nat.succ_mul]
      omega
    rcases List.mem_cons.mp hrow with rfl | hrest
    · simp [Nat.min_eq_left hle]
    · refine ih ?_ row hrest
      rw [List.length_drop, hcells, Nat.succ_mul]
      omega

def table? (g : Grid) : Except Fault Table :=
  match h : g.shape with
  | [rows, columns] =>
    .ok ⟨columns, cutRows columns rows g.cells,
      length_of_mem_cutRows (by simp [g.complete, h, cellCount])⟩
  | shape => .error (.configuration (.notTable shape))

end Grid

namespace Table

theorem length_flatten {width : Nat} {rows : List (List Binary64)}
    (hrows : ∀ row ∈ rows, row.length = width) : rows.flatten.length = rows.length * width := by
  induction rows with
  | nil => simp
  | cons row rows ih =>
    have hrow : row.length = width := hrows row List.mem_cons_self
    have hrest := ih fun r hr => hrows r (List.mem_cons_of_mem row hr)
    rw [List.flatten_cons, List.length_append, hrest, hrow, List.length_cons, Nat.succ_mul]
    omega

def toGrid (t : Table) : Grid :=
  ⟨[t.rows.length, t.width], t.rows.flatten, by simp [cellCount, length_flatten t.regular]⟩

end Table
end TreeParty
