import TreeParty.Proofs.FixedPoint
/-!
# The order of encodings

A precision scales by a factor that is never negative, also when it has a fraction or is itself
negative. Scaling, the addition of one half and the cut keep the order of magnitudes, and the sign
of zero makes no difference, so encoding keeps the order of doubles.
-/

set_option autoImplicit false

namespace TreeParty

namespace Binary64

theorem isNegative_round (negative : Bool) (num den : Nat) :
    (round negative num den).isNegative = negative := by
  unfold round
  split <;> rfl

theorem isNegative_powerOfUnits? {exponent : Int} {power : Binary64}
    (h : powerOfUnits? exponent = some power) : power.isNegative = false := by
  unfold powerOfUnits? at h
  dsimp only at h
  split at h
  · cases h
  · split at h
    · cases h
      rfl
    · rw [← Option.some.inj h]
      exact isNegative_round false _ _

theorem isNegative_power? {x power : Binary64} (h : power? x = some power) :
    power.isNegative = false := by
  cases x with
  | nan =>
    cases h
    rfl
  | inf negative =>
    cases negative <;> cases h <;> rfl
  | finite s u hu => exact isNegative_powerOfUnits? h

theorem eq_finite_of_not_isNegative {x : Binary64} (hx : x.isFinite = true)
    (hsign : x.isNegative = false) : ∃ u h, x = finite false u h := by
  cases x with
  | nan => cases hx
  | inf s => cases hx
  | finite s u hu =>
    have hs : s = false := hsign
    exact ⟨u, hu, by rw [hs]⟩

theorem nearest_nan : nearest nan = .error .nan := by
  apply nearest_of_trunc_error
  rfl

theorem units_neg_iff {x : Binary64} : x.units < 0 ↔ x.isNegative = true ∧ x.units ≠ 0 := by
  cases x with
  | nan => simp [units]
  | inf s => simp [units]
  | finite s u hu => cases s <;> simp [units, isNegative]; omega

end Binary64

namespace FixedPoint

open Binary64

variable {precision : Precision} {x y : Binary64} {m n : Int}

theorem isNegative_scale {factor : Binary64} (h : precision.scale = .ok factor) :
    factor.isNegative = false := by
  cases precision with
  | places p =>
    rcases scale_places_cases p with ⟨u, hu, hscale⟩ | herror
    · rw [hscale] at h
      cases h
      rfl
    · rw [herror] at h
      cases h
  | fractional x =>
    change Precision.scale.ofPower (power? x) = .ok factor at h
    cases hpower : power? x with
    | none =>
      rw [hpower] at h
      cases h
    | some power =>
      rw [hpower] at h
      cases h
      exact isNegative_power? hpower
  | unusable setting => cases h

/-- What is encoded is finite, and so is the factor. -/
theorem exists_scale_of_encode (h : encode precision x = .ok n) :
    x.isFinite = true ∧ ∃ factor, precision.scale = .ok factor ∧ factor.isFinite = true := by
  have hx : x.isFinite = true := by
    cases x with
    | finite s u hu => rfl
    | nan => cases h
    | inf s => cases h
  refine ⟨hx, ?_⟩
  cases hscale : precision.scale with
  | error fault =>
    rw [encode_of_scale_error hx hscale] at h
    cases h
  | ok factor =>
    refine ⟨factor, rfl, ?_⟩
    rw [encode_of_scale hx hscale] at h
    cases x with
    | nan => cases hx
    | inf s => cases hx
    | finite s u hu =>
      cases factor with
      | finite t v hv => rfl
      | nan =>
        have hproduct : (finite s u hu).mul nan = nan := rfl
        rw [hproduct, nearest_nan] at h
        cases h
      | inf t =>
        have hproduct : (finite s u hu).mul (inf t) = if u = 0 then nan else inf (s != t) := rfl
        rw [hproduct] at h
        split at h
        · next hnearest =>
          split at hnearest
          · rw [nearest_nan] at hnearest
            cases hnearest
          · rw [nearest_inf] at hnearest
            cases hnearest
        · cases h

def code (factor u : Nat) : Nat := raisedProduct factor u / unitsPerOne

theorem code_mono {factor u v : Nat} (h : u ≤ v) : code factor u ≤ code factor v :=
  Nat.div_le_div_right (raisedProduct_mono h)

theorem code_zero (factor : Nat) : code factor 0 = 0 := by
  have hproduct : productUnits factor 0 = 0 := by
    unfold productUnits
    have hzero : roundUnits (0 * unitsPerOne) unitsPerOne = 0 :=
      roundUnits_mul unitsPerOne_pos (Nat.dvd_zero (spacing 0))
    rwa [Nat.zero_mul] at hzero ⊢
  unfold code raisedProduct
  rw [hproduct, Nat.zero_add, roundUnits_of_onGrid onGrid_halfUnits, halfUnits_div]

/-- Under its factor a double is encoded by the number of its magnitude, on its side of zero. -/
theorem encode_eq_code {factor : Nat} {hfactor : Representable factor}
    (hscale : precision.scale = .ok (finite false factor hfactor))
    (h : encode precision x = .ok n) :
    n = if x.units < 0 then -(code factor x.units.natAbs : Int)
      else code factor x.units.natAbs := by
  obtain ⟨hfinite, hproduct, hraised⟩ := factor_of_encode hscale h
  rw [encode_of_factor hscale hfinite hproduct hraised] at h
  have hn := (Except.ok.inj h).symm
  by_cases hzero : x.units = 0
  · have hcode : raisedProduct factor x.units.natAbs / unitsPerOne = 0 := by
      rw [hzero]
      exact code_zero factor
    unfold code
    rw [hcode] at hn ⊢
    simpa using hn
  · have hsign : x.units < 0 ↔ x.isNegative = true := by
      rw [units_neg_iff]
      simp [hzero]
    simp only [hsign]
    exact hn

/-- Encoding keeps the order of doubles under every precision. -/
theorem encode_mono (hx : encode precision x = .ok m) (hy : encode precision y = .ok n)
    (hle : x.units ≤ y.units) : m ≤ n := by
  obtain ⟨-, factor, hscale, hfinite⟩ := exists_scale_of_encode hx
  obtain ⟨u, hu, rfl⟩ := eq_finite_of_not_isNegative hfinite (isNegative_scale hscale)
  rw [encode_eq_code hscale hx, encode_eq_code hscale hy]
  by_cases hyneg : y.units < 0
  · have hxneg : x.units < 0 := by omega
    have hcode : code u y.units.natAbs ≤ code u x.units.natAbs := code_mono (by omega)
    rw [if_pos hxneg, if_pos hyneg]
    omega
  · by_cases hxneg : x.units < 0
    · rw [if_pos hxneg, if_neg hyneg]
      omega
    · have hcode : code u x.units.natAbs ≤ code u y.units.natAbs := code_mono (by omega)
      rw [if_neg hxneg, if_neg hyneg]
      omega

end FixedPoint
end TreeParty
