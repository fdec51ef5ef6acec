/-!
# Blank characters

The characters of bidirectional class white space, paragraph or segment separator together with the
space separators, and words separated by them.
-/

namespace TreeParty
namespace Text

def isBlank (c : Char) : Bool :=
  let n := c.toNat
  (0x09 ≤ n && n ≤ 0x0d) || (0x1c ≤ n && n ≤ 0x20) || n == 0x85 || n == 0xa0 || n == 0x1680
    || (0x2000 ≤ n && n ≤ 0x200a) || n == 0x2028 || n == 0x2029 || n == 0x202f || n == 0x205f
    || n == 0x3000

/-- Puts a character in front of the first word of a list that may begin a new one. -/
private def extend (c : Char) (joined : Bool) : List (List Char) → List (List Char)
  | [] => [[c]]
  | w :: rest => if joined then (c :: w) :: rest else [c] :: w :: rest

/-- The words of a text; the flag says whether the text begins inside a word. -/
private def split : List Char → List (List Char) × Bool
  | [] => ([], false)
  | c :: rest =>
    let (found, inside) := split rest
    if isBlank c then (found, false) else (extend c inside found, true)

def words (text : String) : List String := (split text.toList).1.map String.ofList

end Text
end TreeParty
