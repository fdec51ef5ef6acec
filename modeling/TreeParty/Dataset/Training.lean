import TreeParty.Dataset.Grid
import TreeParty.Field.Params
import TreeParty.Notice
import TreeParty.Position
import TreeParty.Settings.Table
/-!
# Training data

Only the leading part of the local samples is used for training. The party that holds the labels has
them in its last column; the others have features only. Before anything is sent, `checkFits` makes
sure that every value can be encoded in the field, by looking at the largest one.
-/

namespace TreeParty

structure TrainingData where
  samples : Table
  labels : Option (List Binary64)

namespace TrainingData

/-- The whole part of a count times a share. A share given as text is repeated and read as a
number. -/
def partOf (count : Nat) : Value → Except Fault Int
  | .float x =>
    match ((Binary64.ofNat count).mul x).trunc with
    | .ok n => .ok n
    | .error reason => .error (.misuse (.notWhole reason))
  | .nan _ => .error (.misuse (.notWhole .nan))
  | .text t =>
    match Text.integer? (String.join (List.replicate count t)) with
    | some n => .ok n
    | none => .error (.misuse .settingContent)
  | v => do return count * (← Settings.wholeNumber v)

private theorem regular_slice {t : Table} (start stop : Int) :
    ∀ row ∈ Position.slice start stop t.rows, row.length = t.width := fun row hrow =>
  t.regular row (List.mem_of_mem_drop (List.mem_of_mem_take hrow))

/-- The leading rows of a table, up to a bound that may count from the end. -/
def leading (bound : Int) (t : Table) : Table :=
  ⟨t.width, Position.slice 0 bound t.rows, regular_slice 0 bound⟩

def lastColumn (t : Table) : List Binary64 := t.rows.filterMap List.getLast?

def withoutLast (t : Table) : Table :=
  ⟨t.width - 1, t.rows.map List.dropLast, by
    intro row hrow
    obtain ⟨full, hfull, rfl⟩ := List.mem_map.mp hrow
    rw [List.length_dropLast, t.regular full hfull]⟩

/-- Splits a table for the label holder. Without columns there are no labels. -/
def splitLabels (t : Table) : Report TrainingData :=
  if t.width = 0 then do
    Report.tell .noColumns
    return ⟨t, some []⟩
  else return ⟨withoutLast t, some (lastColumn t)⟩

/-- Prepares local samples for training. `share` is the part of the samples that is used, `holder`
the client that holds the labels. -/
def prepare (samples : Grid) (clientId : Int) (share holder : Value) : Report TrainingData := do
  let table ← samples.table?
  let bound ← partOf table.rows.length share
  let used := leading bound table
  if (Value.int clientId).same holder then splitLabels used else return ⟨used, none⟩

/-- Prepares samples that are given as nested lists, of which a grid is made first. -/
def prepareNested (data : Nested) (clientId : Int) (share holder : Value) :
    Report TrainingData := do
  prepare (← Grid.ofNested data) clientId share holder

/-! ## Fit -/

def peak (cells : List Binary64) : Binary64 :=
  cells.foldl (fun largest x => largest.max x.abs) Binary64.zero

def checkFits (F : FieldParams) (precision : Precision) (cells : List Binary64) :
    Except Fault Unit :=
  if cells.isEmpty then .ok ()
  else
    match FixedPoint.encode precision (peak cells) with
    | .ok largest =>
      if (F.prime / 2 : Nat) < largest then
        .error (.configuration (.outsideField (bitLength F.prime)))
      else .ok ()
    | .error (.misuse .settingKind) => .error (.misuse .settingKind)
    | .error _ => .error (.configuration .unencodable)

end TrainingData
end TreeParty
