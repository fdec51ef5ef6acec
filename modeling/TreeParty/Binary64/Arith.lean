import TreeParty.Binary64.Basic
/-!
# Arithmetic on doubles

Each operation computes the exact result in units and rounds it once. Conversions from and to whole
numbers say when they fail: a whole number may be too large for a double, and an infinity or a NaN
is no whole number.
-/

namespace TreeParty
namespace Binary64

/-! ## Products, sums and quotients -/

def mul : Binary64 → Binary64 → Binary64
  | nan, _ => nan
  | _, nan => nan
  | inf s, inf t => inf (s != t)
  | inf s, finite t u _ => if u = 0 then nan else inf (s != t)
  | finite s u _, inf t => if u = 0 then nan else inf (s != t)
  | finite s u _, finite t v _ => round (s != t) (u * v) unitsPerOne

/-- The double nearest to a whole number of units; `negativeZero` is the sign of a zero. -/
def ofUnits (units : Int) (negativeZero : Bool) : Binary64 :=
  round (if units = 0 then negativeZero else decide (units < 0)) units.natAbs 1

def add : Binary64 → Binary64 → Binary64
  | nan, _ => nan
  | _, nan => nan
  | inf s, inf t => if s = t then inf s else nan
  | inf s, finite .. => inf s
  | finite .., inf t => inf t
  | x@(finite s _ _), y@(finite t _ _) => ofUnits (x.units + y.units) (s && t)

def div : Binary64 → Binary64 → Binary64
  | nan, _ => nan
  | _, nan => nan
  | inf _, inf _ => nan
  | inf s, finite t _ _ => inf (s != t)
  | finite s _ _, inf t => finite (s != t) 0 representable_zero
  | finite s u _, finite t v _ =>
    if v = 0 then (if u = 0 then nan else inf (s != t))
    else round (s != t) (u * unitsPerOne) v

def half : Binary64 → Binary64
  | finite s u _ => round s u 2
  | x => x

def midpoint (x y : Binary64) : Binary64 := (x.add y).half

/-! ## Whole numbers -/

/-- The double nearest to a whole number, if it is not too large for one. -/
def ofInt? (n : Int) : Option Binary64 :=
  match round (decide (n < 0)) (n.natAbs * unitsPerOne) 1 with
  | finite s u h => some (finite s u h)
  | _ => none

def ofNat (n : Nat) : Binary64 := round false (n * unitsPerOne) 1

/-- A power of two as a double. Exponents below `-1074` give zero; there is no result from `1024`
on, or when the exponent itself is too large for a double. -/
def twoPow? (exponent : Int) : Option Binary64 :=
  if 1024 ≤ exponent then none
  else if exponent < -1074 then (ofInt? exponent).map fun _ => zero
  else some (round false (Nat.pow 2 (exponent + 1074).toNat) 1)

inductive NotWhole where
  | nan
  | infinite
  deriving DecidableEq, Repr

def trunc : Binary64 → Except NotWhole Int
  | nan => .error .nan
  | inf _ => .error .infinite
  | finite s u _ => .ok (if s then -((u / unitsPerOne : Nat) : Int) else (u / unitsPerOne : Nat))

def oneHalf : Binary64 := round false unitsPerOne 2

/-- The whole number nearest to a double, computed as the whole part of the magnitude plus one half;
the addition rounds like every other. -/
def nearest (x : Binary64) : Except NotWhole Int := do
  let magnitude ← trunc (x.abs.add oneHalf)
  return if x.isNegative then -magnitude else magnitude

def equalsInt (x : Binary64) (n : Int) : Bool :=
  x.isFinite && x.units == n * unitsPerOne

end Binary64
end TreeParty
