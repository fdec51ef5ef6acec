import TreeParty.Proofs.Field.Codec
import Mathlib.Algebra.Order.Group.Int
import Mathlib.Algebra.Order.Group.Unbundled.Int
import Mathlib.Algebra.Ring.Parity
/-!
# The signed view

A residue stands for the whole number nearest to zero that it is the residue of. The whole numbers
of at most half the modulus in size are taken into the field, and every residue is taken back from
its signed view. An odd modulus has as many residues as there are such numbers; under an even one
both halves of the modulus have the same residue, and the negative one comes back as the other.
-/

set_option autoImplicit false

namespace TreeParty
namespace Residue

variable {F : FieldParams} {v : Int}

/-! ## Into the field -/

theorem ofSigned_of_le (h : v.natAbs ≤ F.prime / 2) : ofSigned F v = .ok (ofInt F v) :=
  if_neg (by omega)

theorem ofSigned_of_lt (h : F.prime / 2 < v.natAbs) :
    ofSigned F v = .error (.misuse (.signedRange v)) :=
  if_pos h

theorem exists_ofSigned_iff : (∃ x, ofSigned F v = .ok x) ↔ v.natAbs ≤ F.prime / 2 := by
  constructor
  · rintro ⟨x, hx⟩
    by_contra hlarge
    rw [ofSigned_of_lt (Nat.lt_of_not_le hlarge)] at hx
    cases hx
  · exact fun hle => ⟨_, ofSigned_of_le hle⟩

theorem eq_ofInt_of_ofSigned {x : Residue F} (h : ofSigned F v = .ok x) :
    v.natAbs ≤ F.prime / 2 ∧ x = ofInt F v := by
  have hle := exists_ofSigned_iff.mp ⟨x, h⟩
  rw [ofSigned_of_le hle] at h
  exact ⟨hle, (Except.ok.inj h).symm⟩

/-! ## Out of the field -/

theorem natAbs_toSigned_le (x : Residue F) : x.toSigned.natAbs ≤ F.prime / 2 := by
  have hlt := x.isLt
  unfold toSigned
  split
  · omega
  · omega

/-- The signed view differs from the number of a residue by the modulus or not at all. -/
theorem toSigned_emod (x : Residue F) : x.toSigned % F.prime = x.val := by
  have hval : (x.val : Int) % F.prime = x.val :=
    Int.emod_eq_of_lt (Int.natCast_nonneg _) (Int.ofNat_lt.mpr x.isLt)
  unfold toSigned
  split
  · exact hval
  · rw [Int.sub_emod_right, hval]

theorem ofInt_toSigned (x : Residue F) : ofInt F x.toSigned = x := by
  apply Fin.ext
  have hval := val_ofInt F x.toSigned
  rw [toSigned_emod] at hval
  exact Int.ofNat_inj.mp hval

theorem ofSigned_toSigned (x : Residue F) : ofSigned F x.toSigned = .ok x := by
  rw [ofSigned_of_le (natAbs_toSigned_le x), ofInt_toSigned]

/-! ## There and back -/

theorem toSigned_ofInt (hle : v.natAbs ≤ F.prime / 2) (hlow : 2 * v ≠ -F.prime) :
    (ofInt F v).toSigned = v := by
  have hval := val_ofInt F v
  have hpos := F.prime_pos
  unfold toSigned
  by_cases hsign : 0 ≤ v
  · rw [Int.emod_eq_of_lt hsign (by omega)] at hval
    rw [if_pos (by omega), hval]
  · have hshift : v % F.prime = v + F.prime := by
      rw [← Int.add_emod_right, Int.emod_eq_of_lt (by omega) (by omega)]
    rw [hshift] at hval
    rw [if_neg (by omega), hval, Int.add_sub_cancel]

theorem toSigned_ofInt_lowest (hlow : 2 * v = -F.prime) : (ofInt F v).toSigned = -v := by
  have hval := val_ofInt F v
  have hpos := F.prime_pos
  have hshift : v % F.prime = -v := by
    rw [← Int.add_emod_right, Int.emod_eq_of_lt (by omega) (by omega)]
    omega
  rw [hshift] at hval
  unfold toSigned
  rw [if_pos (by omega), hval]

theorem toSigned_ofInt_iff (hle : v.natAbs ≤ F.prime / 2) :
    (ofInt F v).toSigned = v ↔ 2 * v ≠ -F.prime := by
  constructor
  · intro hback hlow
    have hpos := F.prime_pos
    rw [toSigned_ofInt_lowest hlow] at hback
    omega
  · exact toSigned_ofInt hle

theorem ne_lowest_of_odd (hodd : Odd F.prime) (v : Int) : 2 * v ≠ -F.prime := by
  obtain ⟨k, hk⟩ := hodd
  omega

theorem toSigned_ofInt_of_odd (hodd : Odd F.prime) (hle : |v| ≤ F.prime / 2) :
    (ofInt F v).toSigned = v := by
  rw [Int.abs_eq_natAbs] at hle
  exact toSigned_ofInt (by omega) (ne_lowest_of_odd hodd v)

/-- The whole numbers of at most half the modulus in size are taken into the field, and every
residue is taken back from its signed view. A whole number is the signed view of its residue unless
it is the negative half of an even modulus, so that under an odd modulus all of them are. -/
theorem signedView_isExact (F : FieldParams) :
    (∀ v : Int, (∃ x, ofSigned F v = .ok x) ↔ |v| ≤ F.prime / 2) ∧
    (∀ (v : Int) (x : Residue F), ofSigned F v = .ok x →
      (x.toSigned = v ↔ 2 * v ≠ -F.prime)) ∧
    (∀ x : Residue F, ofSigned F x.toSigned = .ok x) ∧
    ((∀ (v : Int) (x : Residue F), ofSigned F v = .ok x → x.toSigned = v) ↔ Odd F.prime) := by
  have hback : ∀ (v : Int) (x : Residue F), ofSigned F v = .ok x →
      (x.toSigned = v ↔ 2 * v ≠ -F.prime) := by
    intro v x hx
    obtain ⟨hle, rfl⟩ := eq_ofInt_of_ofSigned hx
    exact toSigned_ofInt_iff hle
  refine ⟨fun v => ?_, hback, ofSigned_toSigned, ?_⟩
  · rw [exists_ofSigned_iff, Int.abs_eq_natAbs]
    omega
  · constructor
    · intro hall
      by_contra heven
      -- The negative half of the modulus is taken into the field and not got back.
      obtain ⟨half, hhalf⟩ := Nat.not_odd_iff_even.mp heven
      have hle : (-(half : Int)).natAbs ≤ F.prime / 2 := by omega
      have hlowest := (hback _ _ (ofSigned_of_le hle)).mp (hall _ _ (ofSigned_of_le hle))
      omega
    · exact fun hodd v x hx => (hback v x hx).mpr (ne_lowest_of_odd hodd v)

/-- Modulo 13 the ends are -6 and 6, and -6 comes back from the residue 7. -/
theorem signedView_isExact_thirteen :
    Odd FieldParams.thirteen.prime ∧ ofSigned .thirteen (-6) = .ok (ofInt .thirteen 7) ∧
      (ofInt .thirteen 7).toSigned = -6 ∧ ¬ ∃ x, ofSigned .thirteen (-7) = .ok x := by
  obtain ⟨hrange, -, -, hodd⟩ := signedView_isExact .thirteen
  have hcode : ofSigned .thirteen (-6) = .ok (ofInt .thirteen 7) := rfl
  have hprime : Odd FieldParams.thirteen.prime := ⟨6, rfl⟩
  refine ⟨hprime, hcode, hodd.mpr hprime _ _ hcode, ?_⟩
  rw [hrange]
  decide

/-- Modulo 4 both 2 and -2 fit, and both come back as 2. -/
theorem signedView_collides :
    ∃ F : FieldParams, FieldParams.ofInts 4 FieldParams.defaultDegree = .ok F ∧
      |(-2 : Int)| ≤ F.prime / 2 ∧ ∃ x, ofSigned F (-2) = .ok x ∧ x.toSigned = 2 :=
  ⟨⟨4, FieldParams.defaultDegree, by decide⟩, rfl, by decide, _, rfl, rfl⟩

end Residue
end TreeParty
