import TreeParty.Fault
/-!
# Field parameters and residues

The engines compute modulo a number that every party is told beforehand. `FieldParams` holds it with
the degree of the accompanying binary field; nothing checks that it is prime. A residue is a number
below it, with the arithmetic of `Fin`.
-/

namespace TreeParty

structure FieldParams where
  prime : Nat
  gf2nDegree : Int
  three_le_prime : 3 ≤ prime

def bitLength (n : Nat) : Nat := if n = 0 then 0 else n.log2 + 1

namespace FieldParams

def defaultDegree : Int := 40

def ofInts (prime degree : Int) : Except Fault FieldParams :=
  if h : 3 ≤ prime then
    .ok ⟨prime.toNat, degree, by omega⟩
  else .error (.configuration (.smallModulus prime))

/-- Bytes of one element on the wire: whole limbs of eight bytes that hold the modulus. -/
def elementBytes (F : FieldParams) : Nat := (bitLength F.prime + 63) / 64 * 8

theorem prime_pos (F : FieldParams) : 0 < F.prime := by
  have := F.three_le_prime
  omega

end FieldParams

/-- A number below the modulus, with addition, subtraction, negation and product modulo it. -/
abbrev Residue (F : FieldParams) := Fin F.prime

namespace Residue

def ofInt (F : FieldParams) (v : Int) : Residue F :=
  ⟨(v % F.prime).toNat, by
    have hpos : (0 : Int) < F.prime := Int.natCast_pos.mpr F.prime_pos
    have hnonneg := Int.emod_nonneg v (Int.ne_of_gt hpos)
    have hlt := Int.emod_lt_of_pos v hpos
    omega⟩

def zero (F : FieldParams) : Residue F := ⟨0, F.prime_pos⟩

def ofSigned (F : FieldParams) (v : Int) : Except Fault (Residue F) :=
  if F.prime / 2 < v.natAbs then .error (.misuse (.signedRange v)) else .ok (ofInt F v)

def toSigned {F : FieldParams} (x : Residue F) : Int :=
  if x.val ≤ F.prime / 2 then x.val else (x.val : Int) - F.prime

/-- The same residue in another field of the same modulus. -/
def into? {F : FieldParams} (G : FieldParams) (x : Residue F) : Except Fault (Residue G) :=
  if h : F.prime = G.prime then .ok (x.cast h) else .error (.misuse .mixedFields)

/-! ## Small laws -/

theorem val_ofInt (F : FieldParams) (v : Int) : ((ofInt F v).val : Int) = v % F.prime := by
  have hpos : (0 : Int) < F.prime := Int.natCast_pos.mpr F.prime_pos
  have hnonneg := Int.emod_nonneg v (Int.ne_of_gt hpos)
  simp only [ofInt]
  omega

theorem ofInt_val {F : FieldParams} (x : Residue F) : ofInt F x.val = x := by
  apply Fin.ext
  have hval := val_ofInt F x.val
  have hmod : (x.val : Int) % F.prime = x.val :=
    Int.emod_eq_of_lt (Int.natCast_nonneg _) (Int.ofNat_lt.mpr x.isLt)
  omega

theorem into?_self {F : FieldParams} (x : Residue F) : into? F x = .ok x := by
  simp [into?]

end Residue
end TreeParty
