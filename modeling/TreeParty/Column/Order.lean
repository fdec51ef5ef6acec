import TreeParty.Position
import TreeParty.Fault
/-!
# The order of a column

Samples are ordered by value, with NaN after everything else. Zeros of either sign tie, NaNs tie,
and ties keep the order in which the samples came.
-/

namespace TreeParty
namespace Column

def precedes (x y : Binary64) : Bool := y.isNaN || x.le y

def sortIndexes (column : List Binary64) : List Nat :=
  (column.zipIdx.mergeSort fun a b => precedes a.1 b.1).map (·.2)

def sorted (column : List Binary64) : List Binary64 :=
  (column.zipIdx.mergeSort fun a b => precedes a.1 b.1).map (·.1)

def select (column : List Binary64) (positions : List Int) : Except Fault (List Binary64) :=
  positions.mapM fun p =>
    match Position.get? column p with
    | some x => .ok x
    | none => .error (.misuse .position)

/-- The values of a list that differ from the one just before; `previous` comes before the first. -/
def changes (previous : Binary64) : List Binary64 → List Binary64
  | [] => []
  | x :: rest => if previous.same x then changes x rest else x :: changes x rest

def dropRepeats : List Binary64 → List Binary64
  | [] => []
  | x :: rest => x :: changes x rest

/-- The distinct values of a column in ascending order. Each NaN is distinct from all others. -/
def distinctValues (column : List Binary64) : List Binary64 := dropRepeats (sorted column)

end Column
end TreeParty
