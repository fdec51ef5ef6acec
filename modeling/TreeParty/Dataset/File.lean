import TreeParty.Dataset.Cell
import TreeParty.Dataset.Grid
import TreeParty.Dataset.Records
import TreeParty.Files.Tree
import TreeParty.Notice
/-!
# Dataset files

A party's file holds one sample in each line, cells separated by commas. The first line tells the
number of columns; a shorter line lacks values, a longer one is refused. A column holds finite
numbers, or truth words, which count as one and zero.
-/

namespace TreeParty
namespace DatasetFile

def path (directory dataset : String) (clientId : Int) : String :=
  joinText (joinText directory dataset) ("client_" ++ toString clientId ++ ".txt")

/-- The values of a column. Unless all its cells are numbers, all must be truth words; missing cells
may be among them either way. -/
def column? (cells : List String) : Option (List Binary64) :=
  cells.mapM Cell.number? <|> cells.mapM Cell.truth?

def rowsOf (height : Nat) (columns : List (List Binary64)) : List (List Binary64) :=
  columns.foldr (List.zipWith (· :: ·)) (List.replicate height [])

/-- The rows of a portion. What a line has behind the last column is left out. -/
def portionRows? (width : Nat) (lines : List Records.Line) : Option (List (List Binary64)) :=
  let columns := (List.range width).map fun i => lines.map fun line => line.getD i ""
  (columns.mapM column?).map (rowsOf lines.length)

/-- The rows in a text, if it is a table of numbers. The first line tells the number of columns. -/
def rows? (text : String) : Option (List (List Binary64)) := do
  let portions ← Records.ofText text
  let width := ((portions.headD []).headD []).length
  return (← portions.mapM (portionRows? width)).flatten

def table? (width : Nat) (rows : List (List Binary64)) : Option Table :=
  if h : ∀ row ∈ rows, row.length = width then
    if rows.all fun row => row.all Binary64.isFinite then some ⟨width, rows, h⟩ else none
  else none

def read (path : String) (content : Bytes) : Report Table :=
  match (decodeText content).bind rows? with
  | none => Report.fail (.configuration (.datasetMalformed path "not a table of numbers"))
  | some [] => do
    Report.tell (.emptyDataset path)
    return ⟨0, [], by simp⟩
  | some (first :: rest) =>
    match table? first.length (first :: rest) with
    | some table => return table
    | none => Report.fail (.configuration (.datasetIncomplete path))

def ofEntry (path : String) : FileEntry → Report Table
  | .file content => read path content
  | _ => Report.fail (.configuration (.datasetMissing path))

end DatasetFile
end TreeParty
