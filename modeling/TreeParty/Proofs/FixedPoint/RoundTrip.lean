import TreeParty.Proofs.FixedPoint.Nearest
import Mathlib
/-!
# Encoding and decoding

Decoding a whole number that has a double is exact, because a power of two is never rounded. So a
double that was encoded comes back as far away as its encoding is from its product, which is at most
one in the last place. Whole numbers up to `2 ^ 52` in size come back as they are.
-/

set_option autoImplicit false

namespace TreeParty
namespace FixedPoint

open Binary64

variable {places : ℕ} {x : Binary64}

/-! ## Decoding -/

def placeUnits (places : ℕ) : ℕ := Nat.pow 2 (1074 - places)

theorem placeUnits_mul (hplaces : places < 1024) :
    placeUnits places * Nat.pow 2 places = unitsPerOne := by
  have hle : places ≤ 1074 := by omega
  unfold placeUnits unitsPerOne
  generalize 1074 = k at hle ⊢
  exact (two_pow_eq_mul hle).symm

theorem inverseScale_places (hplaces : places < 1024) :
    ∃ h, (Precision.places places).inverseScale = .ok (finite false (placeUnits places) h) := by
  have hexponent : (-(places : ℤ) + 1074).toNat = 1074 - places := by omega
  have htwo : twoPow? (-(places : ℤ)) = some (round false (placeUnits places) 1) := by
    unfold twoPow? placeUnits
    rw [if_neg (by omega), if_neg (by omega), hexponent]
  have hlt : placeUnits places < unitsLimit := two_pow_lt_unitsLimit (by omega)
  obtain ⟨h, hround⟩ := round_of_onGrid (onGrid_two_pow (1074 - places)) hlt false
  refine ⟨h, ?_⟩
  change Precision.scale.ofPower (twoPow? (-(places : ℤ))) = _
  rw [htwo]
  exact congrArg Except.ok hround

theorem decode_of_scale {precision : Precision} {x factor : Binary64} {n : ℤ}
    (hn : ofInt? n = some x) (hscale : precision.inverseScale = .ok factor) :
    decode precision n = .ok (x.mul factor) := by
  -- Unfolding the applied function would have the checker compute the double.
  have hdef : decode = decode := rfl
  conv at hdef => rhs; delta decode
  rw [hdef]
  simp only [hn, hscale]
  rfl

theorem decode_of_onGrid (hplaces : places < 1024) {n : ℤ}
    (hgrid : OnGrid (n.natAbs * unitsPerOne)) (hlimit : n.natAbs * unitsPerOne < unitsLimit) :
    ∃ h, decode (.places places) n =
      .ok (finite (decide (n < 0)) (n.natAbs * placeUnits places) h) := by
  have hsplit := placeUnits_mul hplaces
  have hplaced : OnGrid (n.natAbs * placeUnits places) := by
    rw [← hsplit, ← Nat.mul_assoc] at hgrid
    exact hgrid.of_mul_two_pow
  have hle : placeUnits places ≤ unitsPerOne := by
    rw [← hsplit]
    exact Nat.le_mul_of_pos_right _ (Nat.two_pow_pos places)
  have hsmall : n.natAbs * placeUnits places < unitsLimit :=
    (Nat.mul_le_mul_left _ hle).trans_lt hlimit
  obtain ⟨hdouble, hwhole⟩ := ofInt?_of_onGrid hgrid hlimit
  obtain ⟨hfactor, hscale⟩ := inverseScale_places hplaces
  obtain ⟨h, hround⟩ := round_mul unitsPerOne_pos hplaced hsmall (decide (n < 0))
  refine ⟨h, ?_⟩
  rw [decode_of_scale hwhole hscale, mul_scale, Nat.mul_right_comm, hround]

theorem value_decoded (hplaces : places < 1024) (n : ℤ)
    (h : Representable (n.natAbs * placeUnits places)) :
    (finite (decide (n < 0)) (n.natAbs * placeUnits places) h).value = n / 2 ^ places := by
  have hunits := units_finite_natAbs n h
  have hone : (placeUnits places : ℚ) * 2 ^ places = unitsPerOne := by
    exact_mod_cast placeUnits_mul hplaces
  have hpos : (0 : ℚ) < unitsPerOne := Nat.cast_pos.mpr unitsPerOne_pos
  unfold value
  rw [hunits]
  generalize unitsPerOne = one at *
  rw [div_eq_div_iff hpos.ne' (by positivity), ← hone]
  push_cast
  ring

theorem decode_isExact (hplaces : places < 1024) {n : ℤ} (hn : |n| ≤ 2 ^ 53) :
    ∃ y, decode (.places places) n = .ok y ∧ y.isFinite = true ∧ y.value = n / 2 ^ places := by
  have hsize : n.natAbs ≤ Nat.pow 2 53 := by
    have hpow : (2 : ℤ) ^ 53 = (Nat.pow 2 53 : ℕ) := rfl
    rw [hpow, Int.abs_eq_natAbs] at hn
    exact Int.ofNat_le.mp hn
  obtain ⟨h, hdecode⟩ := decode_of_onGrid hplaces (onGrid_mul_unitsPerOne hsize)
    (mul_unitsPerOne_lt (by decide) hsize)
  exact ⟨_, hdecode, rfl, value_decoded hplaces n h⟩

/-! ## There and back -/

theorem natAbs_signedLike (x : Binary64) (n : ℕ) : (signedLike x n).natAbs = n := by
  unfold signedLike
  split <;> omega

theorem signedLike_natAbs (n : ℤ) {u : ℕ} (h : Representable u) :
    signedLike (finite (decide (n < 0)) u h) n.natAbs = n := by
  unfold signedLike isNegative
  simp only [decide_eq_true_eq]
  split <;> omega

def codeSize (places u : ℕ) : ℕ := raisedUnits places u / unitsPerOne

theorem codeSize_near (x : Binary64) :
    codeSize places x.units.natAbs * unitsPerOne ≤
        scaledUnits places x.units.natAbs + unitsPerOne ∧
      scaledUnits places x.units.natAbs ≤
        codeSize places x.units.natAbs * unitsPerOne + unitsPerOne := by
  obtain ⟨s, hhalf, hone, -⟩ := exists_unit
  unfold codeSize raisedUnits
  rw [hone, hhalf]
  exact raised_div_mul_near (onGrid_scaledUnits x)

theorem onGrid_codeSize (x : Binary64) :
    OnGrid (codeSize places x.units.natAbs * unitsPerOne) := by
  obtain ⟨s, hhalf, hone, -⟩ := exists_unit
  unfold codeSize raisedUnits
  rw [hone, hhalf]
  exact onGrid_raised_div_mul (onGrid_scaledUnits x)

theorem codeSize_lt (hscaled : scaledUnits places x.units.natAbs < unitsLimit) :
    codeSize places x.units.natAbs * unitsPerOne < unitsLimit :=
  (Nat.div_mul_le_self _ _).trans_lt (raisedUnits_lt hscaled)

theorem abs_sub_div_le_one {code scaled one : ℕ} (hone : 0 < one)
    (hhigh : code * one ≤ scaled + one) (hlow : scaled ≤ code * one + one) :
    |(code : ℚ) - scaled / one| ≤ 1 := by
  have hpos : (0 : ℚ) < one := Nat.cast_pos.mpr hone
  have hhigh : (code : ℚ) * one ≤ scaled + one := by exact_mod_cast hhigh
  have hlow : (scaled : ℚ) ≤ code * one + one := by exact_mod_cast hlow
  have hcancel : (scaled : ℚ) / one * one = scaled := div_mul_cancel₀ _ hpos.ne'
  generalize (scaled : ℚ) / one = q at *
  have hupper : (code : ℚ) ≤ q + 1 := le_of_mul_le_mul_right (by linarith) hpos
  have hlower : q ≤ code + 1 := le_of_mul_le_mul_right (by linarith) hpos
  exact abs_le.mpr ⟨by linarith, by linarith⟩

/-- The number of a double is at most one away from the exact product. -/
theorem signedLike_codeSize_near (hx : x.isFinite = true) :
    |(signedLike x (codeSize places x.units.natAbs) : ℚ) - x.value * 2 ^ places| ≤ 1 := by
  obtain ⟨hhigh, hlow⟩ := @codeSize_near places x
  have hnear := abs_sub_div_le_one unitsPerOne_pos hhigh hlow
  rw [value_mul_two_pow hx]
  unfold signedLike
  split
  · push_cast
    rwa [neg_sub_neg, abs_sub_comm]
  · exact_mod_cast hnear

/-- Encoding and decoding moves a double by at most one in the last place. -/
theorem decode_encode_near (hplaces : places < 1024) (hx : x.isFinite = true)
    (hfinite : |x.value * 2 ^ places| < 2 ^ 1024) :
    ∃ n y, encode (.places places) x = .ok n ∧ decode (.places places) n = .ok y ∧
      y.isFinite = true ∧ |y.value - x.value| ≤ 1 / 2 ^ places := by
  have hscaled := scaledUnits_lt hx hfinite
  have hencode : encode (.places places) x =
      .ok (signedLike x (codeSize places x.units.natAbs)) :=
    encode_eq_of_lt hplaces hx hscaled (raisedUnits_lt hscaled)
  have hnear := @signedLike_codeSize_near places x hx
  have hsize := natAbs_signedLike x (codeSize places x.units.natAbs)
  have hgrid := @onGrid_codeSize places x
  have hlimit := codeSize_lt hscaled
  rw [← hsize] at hgrid hlimit
  obtain ⟨h, hdecode⟩ := decode_of_onGrid hplaces hgrid hlimit
  refine ⟨_, _, hencode, hdecode, rfl, ?_⟩
  rw [value_decoded hplaces]
  have hpow : (0 : ℚ) < 2 ^ places := by positivity
  have hgap : (signedLike x (codeSize places x.units.natAbs) : ℚ) / 2 ^ places - x.value =
      (signedLike x (codeSize places x.units.natAbs) - x.value * 2 ^ places) / 2 ^ places := by
    rw [sub_div, mul_div_cancel_right₀ _ hpow.ne']
  rw [hgap, abs_div, abs_of_pos hpow]
  exact div_le_div_of_nonneg_right hnear hpow.le

theorem codeSize_whole (hplaces : places < 1024) {m : ℕ} (hm : m ≤ Nat.pow 2 52) :
    scaledUnits places (m * placeUnits places) = m * unitsPerOne ∧
      codeSize places (m * placeUnits places) = m := by
  have hgrid : OnGrid (m * placeUnits places) :=
    onGrid_mul_two_pow (hm.trans (by decide)) (1074 - places)
  have hscaled : scaledUnits places (m * placeUnits places) = m * unitsPerOne := by
    rw [scaledUnits_of_onGrid hgrid, Nat.mul_assoc, placeUnits_mul hplaces]
  refine ⟨hscaled, ?_⟩
  obtain ⟨s, hhalf, hone, -⟩ := exists_unit
  unfold codeSize raisedUnits
  rw [hscaled, hone, hhalf]
  exact raised_div_whole hm

/-- Whole numbers up to `2 ^ 52` in size are got back. -/
theorem encode_decode (hplaces : places < 1024) {v : ℤ} (hv : v.natAbs ≤ Nat.pow 2 52) :
    ∃ y, decode (.places places) v = .ok y ∧ encode (.places places) y = .ok v := by
  have hgrid : OnGrid (v.natAbs * unitsPerOne) := onGrid_mul_unitsPerOne (hv.trans (by decide))
  have hlimit : v.natAbs * unitsPerOne < unitsLimit := mul_unitsPerOne_lt (by decide) hv
  obtain ⟨h, hdecode⟩ := decode_of_onGrid hplaces hgrid hlimit
  refine ⟨_, hdecode, ?_⟩
  have hunits := natAbs_units_finite (decide (v < 0)) _ h
  obtain ⟨hscaled, hcode⟩ := codeSize_whole hplaces hv
  have hback := signedLike_natAbs v h
  generalize hy : finite (decide (v < 0)) (v.natAbs * placeUnits places) h = y at hunits hback ⊢
  have hfinite : y.isFinite = true := by
    rw [← hy]
    rfl
  have hsmall : scaledUnits places y.units.natAbs < unitsLimit := by
    rw [hunits, hscaled]
    exact hlimit
  rw [encode_eq_of_lt hplaces hfinite hsmall (raisedUnits_lt hsmall), hunits]
  show Except.ok (signedLike y (codeSize places (v.natAbs * placeUnits places))) = _
  rw [hcode, hback]

/-- A double whose product with `2 ^ places` is finite is encoded and decoded to a double at most
one in the last place away. Whole numbers up to `2 ^ 52` in size are decoded and encoded to
themselves. -/
theorem roundTrips {places : ℕ} (hplaces : places ≤ 1023) :
    (∀ x : Binary64, x.isFinite = true → |x.value * 2 ^ places| < 2 ^ 1024 →
      ∃ n y, encode (.places places) x = .ok n ∧ decode (.places places) n = .ok y ∧
        y.isFinite = true ∧ |y.value - x.value| ≤ 1 / 2 ^ places) ∧
    ∀ v : ℤ, |v| ≤ 2 ^ 52 →
      ∃ y, decode (.places places) v = .ok y ∧ encode (.places places) y = .ok v := by
  have hlt : places < 1024 := Nat.lt_succ_of_le hplaces
  constructor
  · intro x hx hfinite
    exact decode_encode_near hlt hx hfinite
  · intro v hv
    apply encode_decode hlt
    have hpow : (2 : ℤ) ^ 52 = (Nat.pow 2 52 : ℕ) := rfl
    rw [hpow, Int.abs_eq_natAbs] at hv
    exact Int.ofNat_le.mp hv

theorem abs_value_lt_two_pow (x : Binary64) : |x.value| < 2 ^ 1024 := by
  have hlt := natAbs_units_lt x
  have hone : (0 : ℚ) < unitsPerOne := Nat.cast_pos.mpr unitsPerOne_pos
  unfold value
  rw [abs_div, ← Int.cast_abs, ← Nat.cast_natAbs, Nat.abs_cast, div_lt_iff₀ hone]
  rw [unitsLimit_eq] at hlt
  generalize unitsPerOne = one at *
  generalize 1024 = k at *
  exact_mod_cast hlt

def oddWhole : Binary64 := ofDecimal false 4503599627370497 0

/-- Without places an odd whole number may come back as its neighbour. -/
theorem roundTrips_oddWhole :
    0 ≤ 1023 ∧ oddWhole.isFinite = true ∧ |oddWhole.value * 2 ^ 0| < 2 ^ 1024 ∧
      encode (.places 0) oddWhole = .ok 4503599627370498 ∧
      (∃ y, decode (.places 0) 4503599627370498 = .ok y ∧ |y.value - oddWhole.value| ≤ 1) ∧
      ∃ y, decode (.places 0) (-2 ^ 52) = .ok y ∧ encode (.places 0) y = .ok (-2 ^ 52) := by
  have hfinite : oddWhole.isFinite = true := by decide +kernel
  have hlimit : |oddWhole.value * 2 ^ 0| < 2 ^ 1024 := by
    rw [pow_zero, mul_one]
    exact abs_value_lt_two_pow oddWhole
  have hcode : encode (.places 0) oddWhole = .ok 4503599627370498 := by decide +kernel
  obtain ⟨hnear, hexact⟩ := @roundTrips 0 (by decide)
  obtain ⟨n, y, hn, hy, -, hgap⟩ := hnear oddWhole hfinite hlimit
  rw [Int.natCast_zero, hcode] at hn
  cases hn
  rw [pow_zero, div_one] at hgap
  exact ⟨by decide, hfinite, hlimit, hcode, ⟨y, hy, hgap⟩, hexact (-2 ^ 52) (by decide)⟩

end FixedPoint
end TreeParty
