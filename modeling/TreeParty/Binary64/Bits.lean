import TreeParty.Binary64.Basic
/-!
# The interchange form of a double

Sixty-four bits: a sign, eleven bits of exponent and fifty-two of fraction. Every NaN pattern reads
as the one NaN.
-/

namespace TreeParty
namespace Binary64

private theorem fraction_lt (bits : Nat) : bits % Nat.pow 2 52 < Nat.pow 2 53 :=
  Nat.lt_of_lt_of_le (Nat.mod_lt _ (by decide)) (by decide)

private theorem significand_lt (bits : Nat) :
    Nat.pow 2 52 + bits % Nat.pow 2 52 < Nat.pow 2 53 := by
  have h : bits % Nat.pow 2 52 < Nat.pow 2 52 := Nat.mod_lt _ (by decide)
  exact Nat.add_lt_add_left h (Nat.pow 2 52)

def ofBits (bits : UInt64) : Binary64 :=
  let n := bits.toNat
  let negative := decide (Nat.pow 2 63 ≤ n)
  let exponent := n / Nat.pow 2 52 % 2048
  if h : exponent = 2047 then
    if n % Nat.pow 2 52 = 0 then inf negative else nan
  else if exponent = 0 then
    finite negative (n % Nat.pow 2 52 * Nat.pow 2 0)
      (representable_mul_two_pow (fraction_lt n) (by decide))
  else
    finite negative ((Nat.pow 2 52 + n % Nat.pow 2 52) * Nat.pow 2 (exponent - 1))
      (representable_mul_two_pow (significand_lt n) (by omega))

def fields (units : Nat) : Nat :=
  if units < Nat.pow 2 52 then units
  else (units.log2 - 51) * Nat.pow 2 52 + (units / spacing units - Nat.pow 2 52)

/-- The 64-bit pattern of a double, with one pattern for NaN. -/
def toBits : Binary64 → UInt64
  | nan => 0x7ff8000000000000
  | inf negative => if negative then 0xfff0000000000000 else 0x7ff0000000000000
  | finite negative units _ => UInt64.ofNat ((if negative then Nat.pow 2 63 else 0) + fields units)

end Binary64
end TreeParty
