import TreeParty.FixedPoint
import TreeParty.Proofs.Binary64.Magnitude
/-!
# Magnitudes in fixed point

Under a factor the number of a double depends on its magnitude and grows with it: whatever is at
most as large as a value that can be encoded can be encoded too. So it is for every whole number of
places that has a factor. Small whole numbers are encoded without rounding.
-/

set_option autoImplicit false

namespace TreeParty
namespace FixedPoint

open Binary64

def scaledUnits (places u : Nat) : Nat :=
  roundUnits (u * (Nat.pow 2 places * unitsPerOne)) unitsPerOne

def raisedUnits (places u : Nat) : Nat := roundUnits (scaledUnits places u + halfUnits) 1

variable {places : Nat}

theorem scaledUnits_of_onGrid {u : Nat} (hu : OnGrid u) :
    scaledUnits places u = u * Nat.pow 2 places := by
  unfold scaledUnits
  rw [← Nat.mul_assoc]
  exact roundUnits_mul unitsPerOne_pos (hu.mul_two_pow places)

/-! ## Under a factor -/

def productUnits (factor u : Nat) : Nat := roundUnits (u * factor) unitsPerOne

def raisedProduct (factor u : Nat) : Nat := roundUnits (productUnits factor u + halfUnits) 1

theorem productUnits_mono {factor u v : Nat} (h : u ≤ v) :
    productUnits factor u ≤ productUnits factor v :=
  roundUnits_mono unitsPerOne_pos (Nat.mul_le_mul_right factor h)

theorem raisedProduct_mono {factor u v : Nat} (h : u ≤ v) :
    raisedProduct factor u ≤ raisedProduct factor v :=
  roundUnits_mono Nat.one_pos (Nat.add_le_add_right (productUnits_mono h) halfUnits)

theorem encode_of_scale {precision : Precision} {factor x : Binary64} (hx : x.isFinite = true)
    (hscale : precision.scale = .ok factor) :
    encode precision x = match (x.mul factor).nearest with
      | .ok n => .ok n
      | .error reason => .error (.misuse (.notWhole reason)) := by
  unfold encode
  rw [if_pos hx, hscale]
  rfl

theorem encode_of_scale_error {precision : Precision} {fault : Fault} {x : Binary64}
    (hx : x.isFinite = true) (hscale : precision.scale = .error fault) :
    encode precision x = .error fault := by
  unfold encode
  rw [if_pos hx, hscale]
  rfl

theorem encode_of_not_isFinite {precision : Precision} {x : Binary64} (hx : x.isFinite = false) :
    encode precision x = .error (.misuse (.notFinite x)) := by
  unfold encode
  rw [hx]
  rfl

theorem eq_tooLarge_of_ofPower {power : Option Binary64} {fault : Fault}
    (h : Precision.scale.ofPower power = .error fault) : fault = .misuse .tooLarge := by
  cases power with
  | none =>
    cases h
    rfl
  | some x => cases h

/-- There is no factor if the power of two is too large, or if the setting is no number. -/
theorem scale_eq_error {precision : Precision} {fault : Fault}
    (h : precision.scale = .error fault) :
    fault = .misuse .tooLarge ∨
      ∃ setting, precision = .unusable setting ∧ fault = .misuse .settingKind := by
  cases precision with
  | places p => exact .inl (eq_tooLarge_of_ofPower h)
  | fractional x => exact .inl (eq_tooLarge_of_ofPower h)
  | unusable setting =>
    cases h
    exact .inr ⟨setting, rfl, rfl⟩

theorem mul_scale (s : Bool) {u v : Nat} (hu : Representable u) (hv : Representable v) :
    (finite s u hu).mul (finite false v hv) = round s (u * v) unitsPerOne := by
  have hsign : (s != false) = s := by cases s <;> rfl
  rw [mul_finite, hsign]

section Factor

variable {precision : Precision} {factor : Nat} {hfactor : Representable factor}

theorem encode_of_factor (hscale : precision.scale = .ok (finite false factor hfactor))
    {x : Binary64} (hx : x.isFinite = true)
    (hproduct : productUnits factor x.units.natAbs < unitsLimit)
    (hraised : raisedProduct factor x.units.natAbs < unitsLimit) :
    encode precision x = .ok (if x.isNegative then
      -((raisedProduct factor x.units.natAbs / unitsPerOne : Nat) : Int)
      else (raisedProduct factor x.units.natAbs / unitsPerOne : Nat)) := by
  cases x with
  | nan => cases hx
  | inf s => cases hx
  | finite s u hu =>
    rw [natAbs_units_finite] at hproduct hraised ⊢
    have hnearest := nearest_of_lt (s := s) (representable_roundUnits hproduct) hraised
    rw [encode_of_scale hx hscale, mul_scale, round_of_lt hproduct, hnearest]
    rfl

theorem factor_of_encode (hscale : precision.scale = .ok (finite false factor hfactor))
    {x : Binary64} {n : Int} (h : encode precision x = .ok n) :
    x.isFinite = true ∧ productUnits factor x.units.natAbs < unitsLimit ∧
      raisedProduct factor x.units.natAbs < unitsLimit := by
  cases x with
  | nan => cases h
  | inf s => cases h
  | finite s u hu =>
    rw [natAbs_units_finite]
    have hfinite : (finite s u hu).isFinite = true := rfl
    rw [encode_of_scale hfinite hscale, mul_scale] at h
    have hproduct : productUnits factor u < unitsLimit := by
      refine Nat.lt_of_not_le fun hle => ?_
      rw [round_of_le hle, nearest_inf] at h
      cases h
    refine ⟨hfinite, hproduct, Nat.lt_of_not_le fun hle => ?_⟩
    rw [round_of_lt hproduct] at h
    have hnearest := nearest_of_le (s := s) (representable_roundUnits hproduct) hle
    rw [hnearest] at h
    cases h

theorem size_of_encode (hscale : precision.scale = .ok (finite false factor hfactor))
    {x : Binary64} {n : Int} (h : encode precision x = .ok n) :
    n.natAbs = raisedProduct factor x.units.natAbs / unitsPerOne ∧
      (x.isNegative = false → 0 ≤ n) := by
  obtain ⟨hfinite, hproduct, hraised⟩ := factor_of_encode hscale h
  rw [encode_of_factor hscale hfinite hproduct hraised] at h
  cases h
  constructor
  · split
    · exact (Int.natAbs_neg _).trans (Int.natAbs_natCast _)
    · exact Int.natAbs_natCast _
  · intro hsign
    rw [hsign]
    exact Int.natCast_nonneg _

theorem encode_of_smaller (hscale : precision.scale = .ok (finite false factor hfactor))
    {x y : Binary64} {n : Int} (hy : encode precision y = .ok n) (hx : x.isFinite = true)
    (hle : x.units.natAbs ≤ y.units.natAbs) :
    ∃ m, encode precision x = .ok m ∧ m.natAbs ≤ n.natAbs := by
  obtain ⟨-, hproduct, hraised⟩ := factor_of_encode hscale hy
  have hencode := encode_of_factor hscale hx
    (Nat.lt_of_le_of_lt (productUnits_mono hle) hproduct)
    (Nat.lt_of_le_of_lt (raisedProduct_mono hle) hraised)
  refine ⟨_, hencode, ?_⟩
  rw [(size_of_encode hscale hencode).1, (size_of_encode hscale hy).1]
  exact Nat.div_le_div_right (raisedProduct_mono hle)

end Factor

/-! ## Under a whole number of places -/

/-- Under a whole number of places, negative or not, there is a factor that is not negative or
none at all. -/
theorem scale_places_cases (p : Int) :
    (∃ u h, (Precision.places p).scale = .ok (finite false u h)) ∨
      (Precision.places p).scale = .error (.misuse .tooLarge) := by
  change (∃ u h, Precision.scale.ofPower (twoPow? p) = .ok (finite false u h)) ∨
    Precision.scale.ofPower (twoPow? p) = .error (.misuse .tooLarge)
  unfold twoPow?
  by_cases hlarge : 1024 ≤ p
  · right
    rw [if_pos hlarge]
    rfl
  · rw [if_neg hlarge]
    by_cases hsmall : p < -1074
    · rw [if_pos hsmall]
      cases ofInt? p with
      | none => exact .inr rfl
      | some x => exact .inl ⟨0, representable_zero, rfl⟩
    · left
      rw [if_neg hsmall]
      obtain ⟨h, hround⟩ := round_of_onGrid (onGrid_two_pow (p + 1074).toNat)
        (two_pow_lt_unitsLimit (by omega)) false
      rw [hround]
      exact ⟨_, h, rfl⟩

theorem exists_factor_of_encode {p : Int} {x : Binary64} {n : Int}
    (h : encode (.places p) x = .ok n) :
    ∃ u h, (Precision.places p).scale = .ok (finite false u h) := by
  rcases scale_places_cases p with hfactor | herror
  · exact hfactor
  · unfold encode at h
    rw [herror] at h
    split at h
    · cases h
    · cases h

theorem scale_of_le (h : 1024 ≤ places) :
    (Precision.places places).scale = .error (.misuse .tooLarge) := by
  have hnone : twoPow? (places : Int) = none := if_pos (by omega)
  change Precision.scale.ofPower (twoPow? places) = _
  rw [hnone]
  rfl

theorem lt_of_encode {x : Binary64} {n : Int} (h : encode (.places places) x = .ok n) :
    places < 1024 := by
  refine Nat.lt_of_not_le fun hmany => ?_
  obtain ⟨_, _, hscale⟩ := exists_factor_of_encode h
  rw [scale_of_le hmany] at hscale
  cases hscale

/-- No fault of an encoding is a setting that cannot be used. -/
theorem encode_ne_settingKind (p : Int) (x : Binary64) :
    encode (.places p) x ≠ .error (.misuse .settingKind) := by
  intro h
  by_cases hx : x.isFinite = true
  · rcases scale_places_cases p with ⟨u, hu, hscale⟩ | herror
    · rw [encode_of_scale hx hscale] at h
      split at h
      · cases h
      · cases h
    · rw [encode_of_scale_error hx herror] at h
      cases h
  · rw [encode_of_not_isFinite (Bool.eq_false_iff.mpr hx)] at h
    cases h

theorem scale_places (hplaces : places < 1024) :
    ∃ h, (Precision.places places).scale =
      .ok (finite false (Nat.pow 2 places * unitsPerOne) h) := by
  have hexponent : ((places : Int) + 1074).toNat = places + 1074 := by omega
  have hpower : Nat.pow 2 (places + 1074) = Nat.pow 2 places * unitsPerOne := by
    unfold unitsPerOne
    generalize 1074 = k
    exact Nat.pow_add 2 places k
  have htwo : twoPow? places = some (round false (Nat.pow 2 places * unitsPerOne) 1) := by
    unfold twoPow?
    rw [if_neg (by omega), if_neg (by omega), hexponent, hpower]
  have hgrid : OnGrid (Nat.pow 2 places * unitsPerOne) := by
    rw [← hpower]
    exact onGrid_two_pow _
  have hlt : Nat.pow 2 places * unitsPerOne < unitsLimit := by
    rw [← hpower]
    exact two_pow_lt_unitsLimit (by omega)
  obtain ⟨h, hround⟩ := round_of_onGrid hgrid hlt false
  refine ⟨h, ?_⟩
  change Precision.scale.ofPower (twoPow? places) = _
  rw [htwo, hround]
  rfl

/-- A double is encoded unless it is too large. -/
theorem encode_eq_of_lt (hplaces : places < 1024) {x : Binary64} (hx : x.isFinite = true)
    (hscaled : scaledUnits places x.units.natAbs < unitsLimit)
    (hraised : raisedUnits places x.units.natAbs < unitsLimit) :
    encode (.places places) x = .ok (if x.isNegative then
      -((raisedUnits places x.units.natAbs / unitsPerOne : Nat) : Int)
      else (raisedUnits places x.units.natAbs / unitsPerOne : Nat)) := by
  obtain ⟨h, hscale⟩ := scale_places hplaces
  exact encode_of_factor hscale hx hscaled hraised

theorem encode_eq_ok (hplaces : places < 1024) {x : Binary64} {n : Int}
    (h : encode (.places places) x = .ok n) :
    x.isFinite = true ∧ scaledUnits places x.units.natAbs < unitsLimit ∧
      raisedUnits places x.units.natAbs < unitsLimit := by
  obtain ⟨hfactor, hscale⟩ := scale_places hplaces
  exact factor_of_encode hscale h

theorem natAbs_of_encode (hplaces : places < 1024) {x : Binary64} {n : Int}
    (h : encode (.places places) x = .ok n) :
    n.natAbs = raisedUnits places x.units.natAbs / unitsPerOne ∧
      (x.isNegative = false → 0 ≤ n) := by
  obtain ⟨hfactor, hscale⟩ := scale_places hplaces
  exact size_of_encode hscale h

/-- A small whole number is encoded as itself, shifted by the places. -/
theorem encode_whole (hplaces : places < 1024) {x : Binary64} {n : Nat} (hx : x.isFinite = true)
    (hn : x.units.natAbs = n * unitsPerOne) (hsmall : n * Nat.pow 2 places < Nat.pow 2 52) :
    ∃ m, encode (.places places) x = .ok m ∧ m.natAbs = n * Nat.pow 2 places := by
  have hscaled : scaledUnits places x.units.natAbs = n * Nat.pow 2 places * unitsPerOne := by
    rw [scaledUnits_of_onGrid (representable_natAbs_units x).onGrid, hn, Nat.mul_right_comm]
  generalize n * Nat.pow 2 places = m at hsmall hscaled ⊢
  have hodd : m * 2 + 1 ≤ Nat.pow 2 53 := by
    have hbound : Nat.pow 2 53 = Nat.pow 2 52 * 2 := rfl
    omega
  have hgrid : OnGrid ((m * 2 + 1) * halfUnits) := onGrid_mul_halfUnits hodd
  have hsum : m * unitsPerOne + halfUnits = (m * 2 + 1) * halfUnits := by
    rw [unitsPerOne_eq, Nat.add_mul, Nat.one_mul, Nat.mul_assoc, Nat.mul_comm halfUnits 2]
  have hraised : raisedUnits places x.units.natAbs = m * unitsPerOne + halfUnits := by
    unfold raisedUnits
    rw [hscaled, hsum, roundUnits_of_onGrid hgrid]
  have hlimit : m * unitsPerOne + halfUnits < unitsLimit := by
    have hhalf : halfUnits ≤ unitsPerOne := by
      rw [unitsPerOne_eq]
      exact Nat.le_mul_of_pos_right halfUnits Nat.zero_lt_two
    have hwhole : (m + 1) * unitsPerOne < unitsLimit := mul_unitsPerOne_lt (by decide) hsmall
    rw [Nat.add_mul, Nat.one_mul] at hwhole
    exact Nat.lt_of_le_of_lt (Nat.add_le_add_left hhalf _) hwhole
  have hencode := encode_eq_of_lt hplaces hx
    (by rw [hscaled]; exact Nat.lt_of_le_of_lt (Nat.le_add_right _ _) hlimit)
    (by rw [hraised]; exact hlimit)
  refine ⟨_, hencode, ?_⟩
  rw [(natAbs_of_encode hplaces hencode).1, hraised, Nat.mul_comm m,
    Nat.mul_add_div unitsPerOne_pos, halfUnits_div, Nat.add_zero]

end FixedPoint
end TreeParty
