import TreeParty.Proofs.Binary64.Midpoint
import TreeParty.Proofs.Dataset.Peak
/-!
# Values that fit the field

Every value that `checkFits` has let through fits the field. With at least one place such values can
be added, and the middle of two of them fits too.
-/

set_option autoImplicit false

namespace TreeParty

open Binary64

namespace TrainingData

open FixedPoint

variable {F : FieldParams} {p : Int} {x y : Binary64}

theorem Accepts.double_lt (hp : 1 ≤ p) (h : Accepts F (.places p) x) :
    x.units.natAbs * 2 < unitsLimit := by
  obtain ⟨n, -, hn, -⟩ := h
  obtain ⟨places, rfl⟩ : ∃ places : Nat, p = places := ⟨p.toNat, by omega⟩
  obtain ⟨-, hscaled, -⟩ := encode_eq_ok (lt_of_encode hn) hn
  rw [scaledUnits_of_onGrid (representable_natAbs_units x).onGrid] at hscaled
  have htwo : 2 ≤ Nat.pow 2 places := Nat.le_self_pow (by omega) 2
  exact (Nat.mul_le_mul_left _ htwo).trans_lt hscaled

theorem Accepts.isFinite_add (hp : 1 ≤ p) (hx : Accepts F (.places p) x)
    (hy : Accepts F (.places p) y) : (x.add y).isFinite = true :=
  isFinite_add_of_double hx.isFinite hy.isFinite (hx.double_lt hp) (hy.double_lt hp)

/-- With at least one place the middle of two accepted values is accepted. -/
theorem Accepts.midpoint (hp : 1 ≤ p) (hx : Accepts F (.places p) x)
    (hy : Accepts F (.places p) y) : Accepts F (.places p) (x.midpoint y) := by
  have hsum := hx.isFinite_add hp hy
  have hfinite := (units_midpoint hx.isFinite hy.isFinite hsum).1
  rcases Nat.le_total x.units.natAbs y.units.natAbs with hle | hle
  · apply hy.of_le hfinite
    exact natAbs_midpoint_le hx.isFinite hy.isFinite hsum hle (Nat.le_refl _)
  · apply hx.of_le hfinite
    exact natAbs_midpoint_le hx.isFinite hy.isFinite hsum (Nat.le_refl _) hle

end TrainingData

/-! ## Fitting -/

namespace FixedPoint

/-- Whether a value is encoded as a number of at most half the modulus in size. -/
def Fits (F : FieldParams) (places : Nat) (x : Binary64) : Prop :=
  ∃ n, encode (.places places) x = .ok n ∧ n.natAbs ≤ F.prime / 2

variable {F : FieldParams} {places : Nat}

theorem fits_iff_accepts {x : Binary64} :
    Fits F places x ↔ TrainingData.Accepts F (.places places) x :=
  TrainingData.accepts_iff.symm

theorem Fits.isFinite {x : Binary64} (h : Fits F places x) : x.isFinite = true :=
  (fits_iff_accepts.mp h).isFinite

theorem Fits.of_le {x y : Binary64} (hy : Fits F places y) (hx : x.isFinite = true)
    (hle : x.units.natAbs ≤ y.units.natAbs) : Fits F places x := by
  rw [fits_iff_accepts] at hy ⊢
  exact hy.of_le hx hle

theorem Fits.midpoint (hpos : 0 < places) {x y : Binary64} (hx : Fits F places x)
    (hy : Fits F places y) : Fits F places (x.midpoint y) := by
  rw [fits_iff_accepts] at hx hy ⊢
  exact hx.midpoint (Int.natCast_pos.mpr hpos) hy

theorem fits_whole (hplaces : places < 1024) {x : Binary64} {n : Nat} (hx : x.isFinite = true)
    (hn : x.units.natAbs = n * unitsPerOne) (hsmall : n * Nat.pow 2 places < Nat.pow 2 52) :
    Fits F places x ↔ n * Nat.pow 2 places ≤ F.prime / 2 := by
  obtain ⟨m, hm, hsize⟩ := encode_whole hplaces hx hn hsmall
  constructor
  · rintro ⟨k, hk, hbound⟩
    rw [hm] at hk
    cases hk
    rwa [hsize] at hbound
  · intro hbound
    exact ⟨m, hm, by rwa [hsize]⟩

/-- Values that were let through fit the field. -/
theorem fits_of_checkFits {cells : List Binary64}
    (h : TrainingData.checkFits F (.places places) cells = .ok ()) :
    ∀ x ∈ cells, Fits F places x := by
  intro x hx
  exact fits_iff_accepts.mpr (TrainingData.checkFits_eq_ok_iff.mp h x hx)

end FixedPoint
end TreeParty
