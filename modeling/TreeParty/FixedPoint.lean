import TreeParty.Binary64.Power
import TreeParty.Fault
import TreeParty.Settings.Value
/-!
# Fixed-point numbers

A real value travels as the whole number nearest to `x * 2 ^ precision`, halves away from zero. The
product and the addition of one half are those of doubles, so they round as doubles do.
-/

namespace TreeParty

/-- The number of binary places, which may have a fraction, or a setting that is no such number. -/
inductive Precision where
  | places (p : Int)
  | fractional (x : Binary64)
  | unusable (setting : Value)

namespace Precision

def ofValue : Value → Precision
  | .int p => places p
  | .bool b => places (if b then 1 else 0)
  | .float x => fractional x
  | .nan _ => fractional .nan
  | v => unusable v

def toValue : Precision → Value
  | places p => .int p
  | fractional x => .float x
  | unusable v => v

def scale : Precision → Except Fault Binary64
  | places p => ofPower (Binary64.twoPow? p)
  | fractional x => ofPower (Binary64.power? x)
  | unusable _ => .error (.misuse .settingKind)
where
  ofPower (power : Option Binary64) : Except Fault Binary64 :=
    power.elim (.error (.misuse .tooLarge)) .ok

def inverseScale : Precision → Except Fault Binary64
  | places p => (places (-p)).scale
  | fractional x => (fractional x.neg).scale
  | unusable v => (unusable v).scale

end Precision

namespace FixedPoint

def encode (precision : Precision) (x : Binary64) : Except Fault Int :=
  if x.isFinite then do
    let factor ← precision.scale
    match (x.mul factor).nearest with
    | .ok n => return n
    | .error reason => throw (.misuse (.notWhole reason))
  else .error (.misuse (.notFinite x))

def decode (precision : Precision) (v : Int) : Except Fault Binary64 := do
  match Binary64.ofInt? v with
  | some x => return x.mul (← precision.inverseScale)
  | none => throw (.misuse .tooLarge)

end FixedPoint
end TreeParty
