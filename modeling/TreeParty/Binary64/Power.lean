import TreeParty.Binary64.Arith
/-!
# Powers of two with any exponent

The fraction of an exponent is a sum of `2 ^ -i`, so its power is a product of repeated square
roots of two. `powerOfFraction` computes it on whole numbers with 160 binary places, and one `round`
brings it to a double.
-/

namespace TreeParty

def squareRoot (n : Nat) : Nat :=
  if n < 2 then n
  else
    let low := 2 * squareRoot (n / 4)
    if (low + 1) * (low + 1) ≤ n then low + 1 else low
termination_by n

namespace Binary64

/-- A number of 160 binary places for every whole one. -/
def finePlaces : Nat := Nat.pow 2 160

/-- Multiplies the repeated square roots of `root` that a fraction, given in `2 ^ -1074`, asks
for. -/
def powerOfFraction : Nat → Nat → Nat → Nat → Nat
  | 0, _, _, product => product
  | steps + 1, root, fraction, product =>
    let next := squareRoot (root * finePlaces)
    if unitsPerOne ≤ 2 * fraction then
      powerOfFraction steps next (2 * fraction - unitsPerOne) (product * next / finePlaces)
    else powerOfFraction steps next (2 * fraction) product

def powerOfUnits? (exponent : Int) : Option Binary64 :=
  let whole := exponent / unitsPerOne
  let fraction := (exponent % unitsPerOne).toNat
  if 1024 ≤ whole then none
  else if whole < -1075 then some zero
  else
    let product := powerOfFraction 160 (2 * finePlaces) fraction finePlaces
    some (round false (product * Nat.pow 2 (whole + 1075).toNat) (2 * finePlaces))

/-- Two to the power of a double; none if the exponent is finite and the power too large. -/
def power? : Binary64 → Option Binary64
  | nan => some nan
  | inf negative => some (if negative then zero else inf false)
  | x@(finite ..) => powerOfUnits? x.units

end Binary64
end TreeParty
