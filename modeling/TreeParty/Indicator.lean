import TreeParty.Binary64.Basic
/-!
# Indicator bits

Against a threshold every sample has a left bit, one where its value is at most the threshold, and
the opposite right bit. Unused slots of a split vector are treated like thresholds, so every column
gives the same number of rows. Against a label class a sample has one bit.
-/

namespace TreeParty

/-- Rows of bits, all of one length. -/
abbrev BitRows := List (List Bool)

namespace Indicator

def left (column vector : List Binary64) : BitRows :=
  vector.tail.map fun threshold => column.map fun x => x.le threshold

def right (column vector : List Binary64) : BitRows :=
  (left column vector).map fun row => row.map (!·)

/-- Whether two labels belong to one class: they are equal, or both are NaN. -/
def sameClass (x y : Binary64) : Bool := x.same y || (x.isNaN && y.isNaN)

def classes : List Binary64 → List Binary64
  | [] => []
  | x :: rest => x :: (classes rest).filter fun y => !sameClass x y

/-- One row for each class, with a bit where a label equals the class. -/
def ofLabels (labels : List Binary64) : BitRows :=
  (classes labels).map fun c => labels.map fun x => x.same c

end Indicator
end TreeParty
