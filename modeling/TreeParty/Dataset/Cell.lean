import TreeParty.Binary64.Arith
import TreeParty.Binary64.Decimal
/-!
# Numbers in cells

A cell holds a decimal number, an infinity, a truth word, or a word that stands for a missing value.
Of a number seventeen digits count, each taken up by a rounded multiplication and addition; the
power of ten is applied at the end by one rounded operation.
-/

namespace TreeParty
namespace Cell

def missingWords : List String :=
  ["", "#N/A", "#N/A N/A", "#NA", "-1.#IND", "-1.#QNAN", "-NaN", "-nan", "1.#IND", "1.#QNAN",
    "<NA>", "N/A", "NA", "NULL", "NaN", "None", "n/a", "nan", "null"]

def infiniteWords : List String :=
  ["inf", "+inf", "-inf", "infinity", "+infinity", "-infinity"]

def digitLimit : Nat := 17

def isSpace (c : Char) : Bool := c == ' ' || ('\t' ≤ c && c ≤ '\r')

def isDigit (c : Char) : Bool := '0' ≤ c && c ≤ '9'

def takeDigit (x : Binary64) (c : Char) : Binary64 :=
  (x.mul (Binary64.ofNat 10)).add (Binary64.ofNat (c.toNat - '0'.toNat))

def tenTo (n : Nat) : Binary64 := Binary64.ofDecimal false 1 n

/-- A number times a power of ten. From `10 ^ 309` on there is no result, and below `10 ^ -308` it
takes two divisions. -/
def scale (x : Binary64) (exponent : Int) : Option Binary64 :=
  if 308 < exponent then none
  else
    let scaled :=
      if 0 < exponent then x.mul (tenTo exponent.toNat)
      else if exponent < -308 then (x.div (tenTo (-308 - exponent).toNat)).div (tenTo 308)
      else x.div (tenTo (-exponent).toNat)
    if scaled.isFinite then some scaled else none

def signOf : List Char → Bool × List Char
  | '-' :: rest => (true, rest)
  | '+' :: rest => (false, rest)
  | cs => (false, cs)

/-- The exponent behind a number; its letter needs a digit, and seventeen digits are read. -/
def exponent? (cs : List Char) : Option (Int × List Char) :=
  match cs with
  | e :: rest =>
    if e = 'e' || e = 'E' then
      let (negative, figures) := signOf rest
      let digits := (figures.takeWhile isDigit).take digitLimit
      if digits.isEmpty then none
      else
        let size : Int := digits.foldl (fun n c => n * 10 + (c.toNat - '0'.toNat)) 0
        some (if negative then -size else size, figures.drop digits.length)
    else some (0, cs)
  | [] => some (0, [])

def decimal? (text : List Char) : Option Binary64 :=
  let (negative, figures) := signOf (text.dropWhile isSpace)
  let (digits, afterDigits) := figures.span isDigit
  let (places, afterPlaces) :=
    match afterDigits with
    | '.' :: rest => rest.span isDigit
    | rest => ([], rest)
  let counted := digits.take digitLimit
  let countedPlaces := places.take (digitLimit - counted.length)
  if digits.isEmpty ∧ places.isEmpty then none
  else
    let magnitude := (counted ++ countedPlaces).foldl takeDigit Binary64.zero
    let shift : Int := (digits.length - counted.length : Nat) - countedPlaces.length
    match exponent? afterPlaces with
    | none => none
    | some (power, rest) =>
      if (rest.dropWhile isSpace).isEmpty then
        scale (if negative then magnitude.neg else magnitude) (shift + power)
      else none

def content (text : String) : List Char := text.toList.takeWhile (· ≠ '\x00')

def isMissing (cs : List Char) : Bool := missingWords.contains (String.ofList cs)

def number? (text : String) : Option Binary64 :=
  let cs := content text
  if isMissing cs then some .nan
  else
    match decimal? cs with
    | some x => some x
    | none =>
      if infiniteWords.contains (String.ofList (cs.map Char.toLower)) then
        some (.inf (cs.head? = some '-'))
      else none

/-- One or zero for a truth word in upper or lower case, NaN for a missing cell. -/
def truth? (text : String) : Option Binary64 :=
  let cs := content text
  if isMissing cs then some .nan
  else
    match String.ofList (cs.map Char.toLower) with
    | "true" => some (.ofNat 1)
    | "false" => some .zero
    | _ => none

end Cell
end TreeParty
