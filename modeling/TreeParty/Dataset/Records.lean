import TreeParty.Dataset.Room
/-!
# Comma-separated records

Cuts a text into lines of cells. A line ends in a line feed, a carriage return or both; lines with
nothing but spaces and tabs are left out. A quote at the front of a cell encloses commas, line ends
and, written twice, quotes; behind the closing quote the cell goes on without them. A line may not
have more cells than the one before, and a shorter one is filled up with empty cells.

Blanks in front of a line belong to its first cell. At the first character behind them the reader
goes back for them, as far as the last line feed, and what lies between is read anew as cells: lines
that end in a bare carriage return come a second time. So the reader may go round in a circle, until
its room is used up, which is an error, or until the lines fill a portion. It never goes back into
an earlier portion.
-/

namespace TreeParty
namespace Records

/-- Where in a line the reader stands. -/
inductive Place where
  | lineStart
  /-- Behind blanks at the start of a line. -/
  | blanks
  /-- Behind the carriage return of a line without cells. -/
  | afterBlankLine
  /-- Behind the carriage return of a line with cells. -/
  | afterLine
  | cellStart
  | inCell
  | quoted
  /-- Behind a quote inside quotes. -/
  | quoteSeen
  deriving DecidableEq, Repr

abbrev Line := List String

/-- A reader of records. Lists of what was read have the last item in front. -/
structure Reader where
  /-- What is still to be read. -/
  ahead : List Char
  /-- What was read since the last line feed of the portion. -/
  behind : List Char
  place : Place
  cell : List Char
  cells : List String
  /-- The finished lines of the portion. -/
  lines : List Line
  /-- The finished portions, each with its lines in order. -/
  portions : List (List Line)
  /-- The number of lines that fill a portion, once the first line is known. -/
  portionSize : Option Nat
  room : Room

def byteCount (cs : List Char) : Nat := cs.foldl (fun count c => count + c.utf8Size) 0

def powerBelow (n : Nat) : Nat := Nat.pow 2 (n - 1).log2

/-- The lines of a portion when each has a number of cells: about half a million cells. -/
def linesPerPortion (width : Nat) : Nat := powerBelow (Nat.pow 2 20 / width)

namespace Reader

def ofText (text : List Char) (room : Room) : Reader where
  ahead := text
  behind := []
  place := .lineStart
  cell := []
  cells := []
  lines := []
  portions := []
  portionSize := none
  room := room

/-! ## Cells and lines -/

def push (c : Char) (place : Place) (r : Reader) : Option Reader := do
  let room ← r.room.takeCharacter c
  return { r with cell := c :: r.cell, place := place, room := room }

def endCell (r : Reader) : Option Reader := do
  let room ← r.room.takeCell
  return { r with
    cells := String.ofList r.cell.reverse :: r.cells, cell := [], place := .cellStart
    room := room }

def fill : Nat → Reader → Option Reader
  | 0, r => some r
  | missing + 1, r => r.endCell.bind (fill missing)

def matchWidth (r : Reader) : Option Reader :=
  match r.lines with
  | [] => some r
  | previous :: _ =>
    let missing := previous.length - r.cells.length
    if previous.length < r.cells.length then none
    else if missing = 0 then some r
    else { r with room := r.room.reserve missing }.fill missing

def endLine (r : Reader) : Option Reader := do
  let full ← r.matchWidth
  let room ← full.room.takeLine
  return { full with
    lines := full.cells.reverse :: full.lines, cells := [], place := .lineStart, room := room }

/-! ## Portions -/

/-- Goes on behind the end of a portion, or of the first line, as if the text began there. -/
def renew (r : Reader) : Reader :=
  { r with behind := [], room := r.room.reserve (byteCount r.ahead) }

def handOver (r : Reader) : Reader :=
  { r with
    lines := [], portions := r.lines.reverse :: r.portions, room := r.room.clear r.cells.length }

/-- At the end of a line: the first line tells the size of a portion, and a full portion is handed
over. -/
def settle (r : Reader) : Reader :=
  match r.portionSize with
  | none => { r with portionSize := some (linesPerPortion (r.lines.headD []).length) }.renew
  | some size => if size ≤ r.room.lines.used then r.handOver.renew else r

/-! ## Characters -/

def advance (c : Char) (rest : List Char) (place : Place) (r : Reader) : Reader :=
  { r with ahead := rest, behind := if c = '\n' then [] else c :: r.behind, place := place }

def goBack (r : Reader) : Reader :=
  { r with ahead := r.behind.reverse ++ r.ahead, behind := [], place := .cellStart }

/-- A character that may end a cell or a line, or belongs to a cell without quotes. -/
def plain (c : Char) (r : Reader) : Option Reader :=
  if c = '\n' then do return (← (← r.endCell).endLine).settle
  else if c = '\r' then do return { ← r.endCell with place := .afterLine }
  else if c = ',' then r.endCell
  else r.push c .inCell

def beginCell (c : Char) (r : Reader) : Option Reader :=
  if c = '"' then some { r with place := .quoted } else r.plain c

def isBlank (c : Char) : Bool := c = ' ' || c = '\t'

def step (c : Char) (rest : List Char) (r : Reader) : Option Reader :=
  let next (place : Place) : Reader := r.advance c rest place
  match r.place with
  | .lineStart =>
    if c = '\n' then some (next .lineStart)
    else if c = '\r' then some (next .afterBlankLine)
    else if isBlank c then some (next .blanks)
    else (next .cellStart).beginCell c
  | .blanks =>
    if c = '\n' then some (next .lineStart)
    else if c = '\r' then some (next .afterBlankLine)
    else if isBlank c then some (next .blanks)
    else some r.goBack
  | .afterBlankLine =>
    if c = '\n' || c = ',' then some (next .lineStart) else some { r with place := .lineStart }
  | .afterLine =>
    if c = '\n' then do return (← (next .afterLine).endLine).settle
    else if c = ',' then do return (← (← (next .afterLine).endLine).endCell).settle
    else do return (← r.endLine).settle
  | .cellStart => (next .cellStart).beginCell c
  | .inCell => (next .inCell).plain c
  | .quoted => if c = '"' then some (next .quoteSeen) else (next .quoted).push c .quoted
  | .quoteSeen =>
    if c = '"' then (next .quoteSeen).push c .quoted else (next .quoteSeen).plain c

def finish (r : Reader) : Option Reader :=
  match r.place with
  | .lineStart | .blanks | .afterBlankLine => some r
  | .quoted => none
  | .afterLine => r.endLine
  | .cellStart | .inCell | .quoteSeen => do (← r.endCell).endLine

def run : Nat → Reader → Option Reader
  | 0, _ => none
  | steps + 1, r =>
    match r.ahead with
    | [] => r.finish
    | c :: rest => (r.step c rest).bind (run steps)

def result (r : Reader) : List (List Line) :=
  (if r.lines.isEmpty then r.portions else r.lines.reverse :: r.portions).reverse

end Reader

/-! ## Texts -/

/-- A byte order mark in front of a text is no part of it. -/
def dropMark : List Char → List Char
  | '\ufeff' :: rest => rest
  | cs => cs

/-- A bound on the steps for a text. Each portion begins further on in the text, holds fewer than
`2 ^ 20` lines, and from one line end to the next the reader goes back at most once. -/
def stepLimit (length : Nat) : Nat := (length + 2) * Nat.pow 2 20 * (4 * length + 4)

def ofText (text : String) : Option (List (List Line)) :=
  let content := dropMark text.toList
  ((Reader.ofText content (Room.bare.reserve (byteCount text.toList))).run
    (stepLimit content.length)).map Reader.result

end Records
end TreeParty
