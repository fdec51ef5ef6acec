/-!
# Room for records

Records are collected on shelves of limited size: one for characters, one for cells, one for lines.
Shelves are enlarged by doubling when something of known size is expected. What is not expected may
find its shelf full.
-/

namespace TreeParty

structure Shelf where
  used : Nat
  size : Nat

namespace Shelf

/-- Doubles the size until some more places, and one, are free. -/
def reserve (more : Nat) (s : Shelf) : Shelf :=
  if s.used + more < s.size then s
  else { s with size := s.size * Nat.pow 2 (((s.used + more) / s.size).log2 + 1) }

def take (count : Nat) (s : Shelf) : Option Shelf :=
  if s.used + count ≤ s.size then some { s with used := s.used + count } else none

end Shelf

structure Room where
  characters : Shelf
  cells : Shelf
  lines : Shelf

namespace Room

def bare : Room := ⟨⟨0, 32⟩, ⟨0, 3⟩, ⟨0, 3⟩⟩

/-- Enlarges the shelves for a text of some bytes. Each may become a cell or a line of its own, and
a cell is closed by a mark that takes a place like a character. -/
def reserve (bytes : Nat) (room : Room) : Room where
  characters := room.characters.reserve (2 * bytes)
  cells := room.cells.reserve bytes
  lines := room.lines.reserve (bytes + 1)

def takeCharacter (c : Char) (room : Room) : Option Room :=
  (room.characters.take c.utf8Size).map fun characters => { room with characters := characters }

def takeCell (room : Room) : Option Room :=
  (room.cells.take 1).map fun cells =>
    { room with cells := cells, characters := (room.characters.take 1).getD room.characters }

def takeLine (room : Room) : Option Room :=
  if room.lines.used + 1 < room.lines.size then
    some { room with lines := { room.lines with used := room.lines.used + 1 } }
  else none

/-- Clears the shelves of all lines. Some cells of the next line, all empty, may stay. -/
def clear (cells : Nat) (room : Room) : Room where
  characters := { room.characters with used := cells }
  cells := { room.cells with used := cells }
  lines := { room.lines with used := 0 }

end Room
end TreeParty
