import TreeParty.Text.Blank
import TreeParty.Text.DecimalDigit
/-!
# Whole numbers in text

A whole number is an optional sign and decimal digits of any script, single underscores between the
digits, and blanks around it all. At most 4300 digits are read.
-/

namespace TreeParty
namespace Text

def digitLimit : Nat := 4300

/-- The blanks that may surround a number: all but the four information separators. -/
def isMargin (c : Char) : Bool := isBlank c && !(0x1c ≤ c.toNat && c.toNat ≤ 0x1f)

/-- Digits with single underscores between them; the flag says whether a digit came just before. -/
def digitsOf : Bool → List Char → Option (List Nat)
  | afterDigit, [] => if afterDigit then some [] else none
  | afterDigit, c :: rest =>
    if c = '_' then
      if afterDigit then digitsOf false rest else none
    else do
      let d ← digitValue? c
      let ds ← digitsOf true rest
      return d :: ds

def ofDigits (digits : List Nat) : Nat := digits.foldl (fun value d => value * 10 + d) 0

def signOf : List Char → Bool × List Char
  | '-' :: rest => (true, rest)
  | '+' :: rest => (false, rest)
  | cs => (false, cs)

def trimMargins (cs : List Char) : List Char :=
  ((cs.dropWhile isMargin).reverse.dropWhile isMargin).reverse

def integer? (text : String) : Option Int := do
  let (negative, figures) := signOf (trimMargins text.toList)
  let digits ← digitsOf false figures
  if digits.length ≤ digitLimit then
    let size : Int := ofDigits digits
    return if negative then -size else size
  else none

end Text
end TreeParty
