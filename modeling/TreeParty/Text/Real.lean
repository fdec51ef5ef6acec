import TreeParty.Binary64.Decimal
import TreeParty.Text.Integer
/-!
# Real numbers in text

A real number is an optional sign and decimal digits of any script with a point and an exponent,
single underscores between the digits, and blanks around it all; or one of the words for infinity
and for no number.
-/

namespace TreeParty
namespace Text

def isDigit (c : Char) : Bool := '0' ≤ c && c ≤ '9'

/-- A decimal digit of any script as one of `0` to `9`; other characters stay. -/
def westernDigit (c : Char) : Char := ((digitValue? c).map Nat.digitChar).getD c

/-- Removes underscores; each must stand between two digits. The flag says whether a digit came just
before. -/
def joinDigits : Bool → List Char → Option (List Char)
  | _, [] => some []
  | afterDigit, c :: rest =>
    if c = '_' then
      if afterDigit && (rest.head?.map isDigit).getD false then joinDigits false rest else none
    else (joinDigits (isDigit c) rest).map (c :: ·)

/-- An exponent that ends the text; without one it is zero. -/
def exponent? : List Char → Option Int
  | [] => some 0
  | e :: rest =>
    let (negative, digits) := signOf rest
    if (e = 'e' || e = 'E') && !digits.isEmpty && digits.all isDigit then
      let size : Int := ofDigits (digits.filterMap digitValue?)
      some (if negative then -size else size)
    else none

def magnitude? (negative : Bool) (cs : List Char) : Option Binary64 := do
  let (digits, afterDigits) := cs.span isDigit
  let (places, rest) :=
    match afterDigits with
    | '.' :: more => more.span isDigit
    | more => ([], more)
  let power ← exponent? rest
  if digits.isEmpty && places.isEmpty then none
  else
    return Binary64.ofDecimal negative (ofDigits ((digits ++ places).filterMap digitValue?))
      (power - places.length)

/-- The double nearest to the real number that a text writes, if it writes one. -/
def real? (text : String) : Option Binary64 := do
  let cs ← joinDigits false ((trimMargins text.toList).map westernDigit)
  let (negative, figures) := signOf cs
  match String.ofList (figures.map Char.toLower) with
  | "inf" | "infinity" => return .inf negative
  | "nan" => return .nan
  | _ => magnitude? negative figures

end Text
end TreeParty
