import TreeParty.Binary64.Basic
/-!
# Doubles and decimal numbers

`Binary64.ofDecimal` is the double nearest to a decimal number. `Binary64.shortest` is the decimal
number with the fewest digits that lies in the interval rounding to a double, and of those the
nearest; `Binary64.text` lays it out.
-/

namespace TreeParty
namespace Binary64

/-! ## From decimal -/

/-- The double nearest to `digits * 10 ^ exponent`, ties to even. Exponents that leave no doubt are
cut short, so that no power of ten larger than needed is computed. -/
def ofDecimal (negative : Bool) (digits : Nat) (exponent : Int) : Binary64 :=
  let size : Int := (digits.log2 : Int) / 3 + 1
  let clipped := Max.max (-(size + 400)) (Min.min exponent 400)
  if 0 ≤ clipped then round negative (digits * Nat.pow 10 clipped.toNat * unitsPerOne) 1
  else round negative (digits * unitsPerOne) (Nat.pow 10 (-clipped).toNat)

/-! ## To decimal -/

/-- The width below a double of the numbers that round to it, in half units. -/
def gapBelow (units : Nat) : Nat :=
  if 1 < spacing units ∧ units = Nat.pow 2 units.log2 then spacing units / 2 else spacing units

/-- Whether `num / den` units round to the given number of units: inside the half gaps on either
side, whose ends belong to an even significand. -/
def roundsTo (units num den : Nat) : Bool :=
  let even := units / spacing units % 2 = 0
  let low := (2 * units - gapBelow units) * den
  let high := (2 * units + spacing units) * den
  if even then decide (low ≤ 2 * num ∧ 2 * num ≤ high) else decide (low < 2 * num ∧ 2 * num < high)

def stepUnits (exponent : Int) : Nat × Nat :=
  if 0 ≤ exponent then (Nat.pow 10 exponent.toNat * unitsPerOne, 1)
  else (unitsPerOne, Nat.pow 10 (-exponent).toNat)

/-- The multiple of a decimal step that rounds to the given units, the nearer of the two neighbours
if both do, and the even one of two equally near. -/
def onGrid (units : Nat) (exponent : Int) : Option Nat :=
  let (num, den) := stepUnits exponent
  let low := units * den / num
  let rest := units * den % num
  let lowFits := low ≠ 0 ∧ roundsTo units (low * num) den
  let highFits := roundsTo units ((low + 1) * num) den
  if lowFits ∧ highFits then
    some (if 2 * rest < num then low
      else if num < 2 * rest then low + 1
      else low + low % 2)
  else if lowFits then some low
  else if highFits then some (low + 1)
  else none

/-- The first grid, from coarse to fine, that has a number rounding to the given units. -/
def firstGrid (units : Nat) : Nat → Int → Nat × Int
  | 0, exponent => (units, exponent)
  | fuel + 1, exponent =>
    match onGrid units exponent with
    | some digits => (digits, exponent)
    | none => firstGrid units fuel (exponent - 1)

def stripZeros : Nat → Nat → Int → Nat × Int
  | 0, digits, exponent => (digits, exponent)
  | fuel + 1, digits, exponent =>
    if digits ≠ 0 ∧ digits % 10 = 0 then stripZeros fuel (digits / 10) (exponent + 1)
    else (digits, exponent)

/-- The shortest decimal number that reads back as the given positive number of units. Seventeen
digits always do, and the search starts at most three places above the leading one. -/
def shortest (units : Nat) : Nat × Int :=
  let start := ((units.log2 : Int) - 1073) * 30103 / 100000 + 2
  let (digits, exponent) := firstGrid units 24 start
  stripZeros 24 digits exponent

/-- The layout of a positive decimal number: positional from `10 ^ -4` up to `10 ^ 16`, else with an
exponent of at least two digits; a whole number keeps one zero after the point. -/
def layout (digits : Nat) (exponent : Int) : String :=
  let figures := toString digits
  let point := figures.length + exponent
  if -4 < point ∧ point ≤ 16 then
    if point ≤ 0 then "0." ++ String.ofList (List.replicate (-point).toNat '0') ++ figures
    else if 0 ≤ exponent then
      figures ++ String.ofList (List.replicate exponent.toNat '0') ++ ".0"
    else
      let shown := figures.toList
      String.ofList (shown.take point.toNat) ++ "." ++ String.ofList (shown.drop point.toNat)
  else
    let power := point - 1
    let shown := figures.toList
    let tail := shown.drop 1
    let mantissa := String.ofList (shown.take 1)
      ++ (if tail.isEmpty then "" else "." ++ String.ofList tail)
    let size := toString power.natAbs
    mantissa ++ "e" ++ (if power < 0 then "-" else "+")
      ++ (if size.length < 2 then "0" ++ size else size)

def text : Binary64 → String
  | nan => "nan"
  | inf negative => if negative then "-inf" else "inf"
  | finite negative units _ =>
    let size := if units = 0 then "0.0" else
      let (digits, exponent) := shortest units
      layout digits exponent
    if negative then "-" ++ size else size

end Binary64
end TreeParty
