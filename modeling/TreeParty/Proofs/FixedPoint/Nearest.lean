import TreeParty.Proofs.FixedPoint
import TreeParty.Proofs.Binary64.OneHalf
import Mathlib
/-!
# The nearest whole number

A double times `2 ^ places` is an exact number as long as it is no larger than a double, and its
encoding is the nearest whole number, halves away from zero. There are two kinds of exceptions,
where the encoding is one too large: the double just below one half, and the odd whole numbers
between `2 ^ 52` and `2 ^ 53`. From 1024 places on, nothing is encoded.
-/

set_option autoImplicit false

namespace TreeParty

/-- Whether a whole number is nearest to a number, and of two such the one away from zero. -/
structure IsNearest (q : ℚ) (n : ℤ) : Prop where
  closest : ∀ m : ℤ, |q - n| ≤ |q - m|
  away : ∀ m : ℤ, |q - m| = |q - n| → |m| ≤ |n|

namespace IsNearest

variable {q : ℚ} {n m : ℤ}

theorem neg (h : IsNearest q n) : IsNearest (-q) (-n) := by
  have hflip : ∀ k : ℤ, |-q - k| = |q - (-k : ℤ)| := fun k => by
    rw [← abs_neg]
    congr 1
    push_cast
    ring
  constructor
  · intro k
    rw [hflip, hflip, neg_neg]
    exact h.closest (-k)
  · intro k hk
    rw [hflip, hflip, neg_neg] at hk
    have hle := h.away (-k) hk
    rwa [abs_neg] at hle ⊢

/-- There is only one. -/
theorem unique (hn : IsNearest q n) (hm : IsNearest q m) : n = m := by
  have hdistance : |q - n| = |q - m| := le_antisymm (hn.closest m) (hm.closest n)
  have hsize : |n| = |m| := le_antisymm (hm.away n hdistance) (hn.away m hdistance.symm)
  obtain heq | hopposite := abs_eq_abs.mp hsize
  · exact heq
  -- Two opposite numbers are equally far from zero only, to which zero is nearest.
  obtain hsame | hmirror := abs_eq_abs.mp hdistance
  · exact_mod_cast sub_right_inj.mp hsame
  · have hsum : (n : ℚ) + m = 0 := by exact_mod_cast eq_neg_iff_add_eq_zero.mp hopposite
    have hq : q = 0 := by linarith
    have hzero := hn.closest 0
    rw [hq, Int.cast_zero, sub_zero, abs_zero, zero_sub, abs_neg, abs_nonpos_iff] at hzero
    have hn : n = 0 := by exact_mod_cast hzero
    omega

/-- The whole part of a magnitude plus one half. -/
theorem floor_add_half (hq : 0 ≤ q) : IsNearest q ⌊q + 1 / 2⌋ := by
  have hle := Int.floor_le (q + 1 / 2)
  have hlt := Int.lt_floor_add_one (q + 1 / 2)
  have hnonneg : 0 ≤ ⌊q + 1 / 2⌋ := Int.floor_nonneg.mpr (by linarith)
  generalize ⌊q + 1 / 2⌋ = n at *
  have hclose : |q - n| ≤ 1 / 2 := abs_le.mpr ⟨by linarith, by linarith⟩
  have hbelow : ∀ k : ℤ, k < n → 1 / 2 ≤ q - k := fun k hk => by
    have hstep : (k : ℚ) + 1 ≤ n := by exact_mod_cast hk
    linarith
  have habove : ∀ k : ℤ, n < k → 1 / 2 < k - q := fun k hk => by
    have hstep : (n : ℚ) + 1 ≤ k := by exact_mod_cast hk
    linarith
  constructor
  · intro k
    obtain hk | rfl | hk := lt_trichotomy k n
    · exact hclose.trans ((hbelow k hk).trans (le_abs_self _))
    · exact le_refl _
    · rw [abs_sub_comm q k]
      exact hclose.trans ((habove k hk).le.trans (le_abs_self _))
  · intro k hk
    have hfar : |q - k| ≤ 1 / 2 := hk.trans_le hclose
    have hupper : k ≤ n := by
      refine not_lt.mp fun hlt => ?_
      have hmore := (habove k hlt).trans_le (le_abs_self _)
      rw [abs_sub_comm] at hmore
      linarith
    have hlower : 0 ≤ k := by
      have hleft := (abs_le.mp hfar).2
      have hk : (-1 : ℚ) < k := by linarith
      exact_mod_cast hk
    rwa [abs_of_nonneg hlower, abs_of_nonneg hnonneg]

end IsNearest

/-! ## Exact values -/

namespace Binary64

def value (x : Binary64) : ℚ := x.units / unitsPerOne

theorem units_eq {x : Binary64} (hx : x.isFinite = true) :
    x.units = if x.isNegative then -(x.units.natAbs : ℤ) else x.units.natAbs := by
  cases x with
  | nan => cases hx
  | inf s => cases hx
  | finite s u h =>
    rw [natAbs_units_finite]
    rfl

end Binary64

namespace FixedPoint

open Binary64

/-- Whether a number is encoded wrongly: just below one half, or odd and without a place for a half
behind it. -/
def IsMisrounded (q : ℚ) : Prop :=
  |q| = 1 / 2 - 1 / 2 ^ 54 ∨ ∃ m : ℕ, m % 2 = 1 ∧ 2 ^ 52 ≤ m ∧ m < 2 ^ 53 ∧ |q| = m

theorem isMisrounded_neg_iff {q : ℚ} : IsMisrounded (-q) ↔ IsMisrounded q := by
  unfold IsMisrounded
  rw [abs_neg]

theorem abs_natCast_div {v one : ℕ} : |(v : ℚ) / one| = v / one :=
  abs_of_nonneg (div_nonneg (Nat.cast_nonneg v) (Nat.cast_nonneg one))

theorem abs_eq_natCast_iff {v one m : ℕ} (hone : 0 < one) :
    |(v : ℚ) / one| = m ↔ v = m * one := by
  have hpos : (0 : ℚ) < one := Nat.cast_pos.mpr hone
  rw [abs_natCast_div, div_eq_iff hpos.ne']
  exact_mod_cast Iff.rfl

theorem abs_eq_just_below_iff {v unit : ℕ} (hunit : 0 < unit) :
    |(v : ℚ) / (unit * 2 ^ 54 : ℕ)| = 1 / 2 - 1 / 2 ^ 54 ↔ v + unit = unit * 2 ^ 53 := by
  have hpos : (0 : ℚ) < unit := Nat.cast_pos.mpr hunit
  have hone : ((unit * 2 ^ 54 : ℕ) : ℚ) = unit * 2 ^ 54 := by
    push_cast
    rfl
  have hright : (1 / 2 - 1 / 2 ^ 54) * ((unit : ℚ) * 2 ^ 54) = unit * 2 ^ 53 - unit := by ring
  rw [abs_natCast_div, hone, div_eq_iff (by positivity), hright, eq_sub_iff_add_eq]
  exact_mod_cast Iff.rfl

/-- Magnitudes that are encoded wrongly, in units. -/
theorem isMisrounded_iff {s v : ℕ} :
    IsMisrounded ((v : ℚ) / (Nat.pow 2 (s + 54) : ℕ)) ↔ IsCarried s v := by
  have hhalf : Nat.pow 2 (s + 53) = Nat.pow 2 s * 2 ^ 53 := Nat.pow_add 2 s 53
  have hone : Nat.pow 2 (s + 54) = Nat.pow 2 s * 2 ^ 54 := Nat.pow_add 2 s 54
  refine or_congr ?_ (exists_congr fun m => ?_)
  · rw [hhalf, hone]
    exact abs_eq_just_below_iff (Nat.two_pow_pos s)
  · exact and_congr_right fun _ => and_congr_right fun _ => and_congr_right fun _ =>
      abs_eq_natCast_iff (Nat.two_pow_pos _)

theorem floor_div_add_half {v half : ℕ} (hhalf : 0 < half) :
    ⌊(v : ℚ) / (half * 2 : ℕ) + 1 / 2⌋ = ((v + half) / (half * 2) : ℕ) := by
  have hpos : (0 : ℚ) < half := Nat.cast_pos.mpr hhalf
  have hsum : (v : ℚ) / (half * 2 : ℕ) + 1 / 2 = (v + half : ℕ) / (half * 2 : ℕ) := by
    push_cast
    field_simp
  rw [hsum, Rat.floor_natCast_div_natCast, Int.natCast_div]

theorem isNearest_div {v half : ℕ} (hhalf : 0 < half) :
    IsNearest ((v : ℚ) / (half * 2 : ℕ)) ((v + half) / (half * 2) : ℕ) := by
  rw [← floor_div_add_half hhalf]
  exact IsNearest.floor_add_half (div_nonneg (Nat.cast_nonneg v) (Nat.cast_nonneg _))

/-! ## Encoding -/

variable {x : Binary64} {places : ℕ}

def signedLike (x : Binary64) (n : ℕ) : ℤ := if x.isNegative then -(n : ℤ) else n

theorem abs_signedLike (x : Binary64) (n : ℕ) : |signedLike x n| = n := by
  unfold signedLike
  split
  · rw [abs_neg, Nat.abs_cast]
  · exact Nat.abs_cast n

theorem scaledUnits_natAbs_units (x : Binary64) :
    scaledUnits places x.units.natAbs = x.units.natAbs * Nat.pow 2 places :=
  scaledUnits_of_onGrid (representable_natAbs_units x).onGrid

theorem onGrid_scaledUnits (x : Binary64) : OnGrid (scaledUnits places x.units.natAbs) :=
  onGrid_roundUnits _ _

theorem value_mul_two_pow (hx : x.isFinite = true) :
    x.value * 2 ^ places = if x.isNegative then
      -((scaledUnits places x.units.natAbs : ℚ) / unitsPerOne)
      else (scaledUnits places x.units.natAbs : ℚ) / unitsPerOne := by
  have hunits := units_eq hx
  rw [scaledUnits_natAbs_units]
  unfold value
  generalize x.units.natAbs = u at *
  generalize unitsPerOne = one
  rw [hunits, Nat.pow_eq]
  split
  · push_cast
    ring
  · push_cast
    ring

theorem isMisrounded_value_iff (hx : x.isFinite = true) :
    IsMisrounded (x.value * 2 ^ places) ↔
      IsMisrounded ((scaledUnits places x.units.natAbs : ℚ) / unitsPerOne) := by
  rw [value_mul_two_pow hx]
  split
  · exact isMisrounded_neg_iff
  · rfl

theorem isNearest_signedLike (hx : x.isFinite = true) :
    IsNearest (x.value * 2 ^ places)
      (signedLike x ((scaledUnits places x.units.natAbs + halfUnits) / unitsPerOne)) := by
  rw [value_mul_two_pow hx, unitsPerOne_eq]
  unfold signedLike
  split
  · exact (isNearest_div halfUnits_pos).neg
  · exact isNearest_div halfUnits_pos

theorem exists_unit : ∃ s, halfUnits = Nat.pow 2 (s + 53) ∧ unitsPerOne = Nat.pow 2 (s + 54) ∧
    Nat.pow 2 (s + 108) < unitsLimit := by
  have hhalf : 1073 = 1020 + 53 := rfl
  have hone : 1074 = 1020 + 54 := rfl
  have hlimit : 1020 + 108 < 2098 := by decide
  unfold halfUnits unitsPerOne
  rw [hhalf, hone]
  generalize 1020 = s at hlimit ⊢
  exact ⟨s, rfl, rfl, two_pow_lt_unitsLimit hlimit⟩

theorem raised_lt_unitsLimit {u : ℕ} (hgrid : OnGrid u) (hlt : u < unitsLimit) :
    roundUnits (u + halfUnits) 1 < unitsLimit := by
  obtain ⟨s, hhalf, -, hlimit⟩ := exists_unit
  have hle := @raised_le s _ hgrid
  rw [← hhalf] at hle
  exact hle.trans_lt (max_lt hlt hlimit)

theorem exists_nearest {y : Binary64} (hy : y.isFinite = true) : ∃ n, y.nearest = .ok n := by
  cases y with
  | nan => cases hy
  | inf s => cases hy
  | finite s u hu => exact ⟨_, nearest_of_lt hu (raised_lt_unitsLimit hu.onGrid hu.1)⟩

theorem raisedUnits_lt (hscaled : scaledUnits places x.units.natAbs < unitsLimit) :
    raisedUnits places x.units.natAbs < unitsLimit :=
  raised_lt_unitsLimit (onGrid_scaledUnits x) hscaled

theorem raisedUnits_div_of_not_isMisrounded
    (h : ¬ IsMisrounded ((scaledUnits places x.units.natAbs : ℚ) / unitsPerOne)) :
    raisedUnits places x.units.natAbs / unitsPerOne =
      (scaledUnits places x.units.natAbs + halfUnits) / unitsPerOne := by
  obtain ⟨s, hhalf, hone, -⟩ := exists_unit
  unfold raisedUnits
  rw [hone, isMisrounded_iff] at h
  rw [hone, hhalf]
  exact raised_div_of_not_isCarried (onGrid_scaledUnits x) h

theorem raisedUnits_div_of_isMisrounded
    (h : IsMisrounded ((scaledUnits places x.units.natAbs : ℚ) / unitsPerOne)) :
    raisedUnits places x.units.natAbs / unitsPerOne =
      (scaledUnits places x.units.natAbs + halfUnits) / unitsPerOne + 1 := by
  obtain ⟨s, hhalf, hone, -⟩ := exists_unit
  unfold raisedUnits
  rw [hone, isMisrounded_iff] at h
  rw [hone, hhalf]
  exact raised_div_of_isCarried h

theorem scaledUnits_lt (hx : x.isFinite = true) (hfinite : |x.value * 2 ^ places| < 2 ^ 1024) :
    scaledUnits places x.units.natAbs < unitsLimit := by
  have hone : (0 : ℚ) < unitsPerOne := Nat.cast_pos.mpr unitsPerOne_pos
  have hsize : |x.value * 2 ^ places| =
      (scaledUnits places x.units.natAbs : ℚ) / unitsPerOne := by
    rw [value_mul_two_pow hx]
    split
    · rw [abs_neg, abs_natCast_div]
    · exact abs_natCast_div
  rw [hsize, div_lt_iff₀ hone] at hfinite
  rw [unitsLimit_eq]
  generalize 1024 = k at *
  exact_mod_cast hfinite

/-- A finite double whose product with `2 ^ places` is finite is encoded as the nearest whole number
exactly if there are less than 1024 places and the product is no exception. The exceptions are
encoded one further away from zero, and with more places nothing is encoded. -/
theorem encode_isNearest_iff (hx : x.isFinite = true)
    (hfinite : |x.value * 2 ^ places| < 2 ^ 1024) :
    ((∃ n, encode (.places places) x = .ok n ∧ IsNearest (x.value * 2 ^ places) n) ↔
      places < 1024 ∧ ¬ IsMisrounded (x.value * 2 ^ places)) ∧
    (places < 1024 → IsMisrounded (x.value * 2 ^ places) →
      ∃ n r, encode (.places places) x = .ok n ∧ IsNearest (x.value * 2 ^ places) r ∧
        |n| = |r| + 1) ∧
    (1024 ≤ places → encode (.places places) x = .error (.misuse .tooLarge)) := by
  have hscaled := scaledUnits_lt hx hfinite
  have hencode : places < 1024 → encode (.places places) x =
      .ok (signedLike x (raisedUnits places x.units.natAbs / unitsPerOne)) := fun hplaces =>
    encode_eq_of_lt hplaces hx hscaled (raisedUnits_lt hscaled)
  have hrefused : 1024 ≤ places → encode (.places places) x = .error (.misuse .tooLarge) :=
    fun hmany => encode_of_scale_error hx (scale_of_le hmany)
  have hnearest := @isNearest_signedLike x places hx
  have hcarried : IsMisrounded (x.value * 2 ^ places) →
      |signedLike x (raisedUnits places x.units.natAbs / unitsPerOne)| =
        |signedLike x ((scaledUnits places x.units.natAbs + halfUnits) / unitsPerOne)| + 1 := by
    intro h
    rw [isMisrounded_value_iff hx] at h
    rw [raisedUnits_div_of_isMisrounded h, abs_signedLike, abs_signedLike]
    rfl
  refine ⟨⟨?_, ?_⟩, fun hplaces h => ⟨_, _, hencode hplaces, hnearest, hcarried h⟩, hrefused⟩
  · rintro ⟨n, hn, hclosest⟩
    have hplaces : places < 1024 := by
      refine Nat.lt_of_not_le fun hmany => ?_
      rw [hrefused hmany] at hn
      cases hn
    refine ⟨hplaces, fun h => ?_⟩
    have hfar := hcarried h
    rw [hencode hplaces] at hn
    cases hn
    rw [hclosest.unique hnearest] at hfar
    omega
  · rintro ⟨hplaces, h⟩
    refine ⟨_, hencode hplaces, ?_⟩
    rw [isMisrounded_value_iff hx] at h
    rw [raisedUnits_div_of_not_isMisrounded h]
    exact hnearest

theorem two_pow_1024_gt {q : ℚ} (hq : q < 1) : q < 2 ^ 1024 :=
  hq.trans_le (one_le_pow₀ one_le_two)

theorem value_oneHalf : oneHalf.value = 1 / 2 := by
  obtain ⟨h, hone⟩ := oneHalf_eq
  have hpos : (0 : ℚ) < halfUnits := Nat.cast_pos.mpr halfUnits_pos
  have hunits : (finite false halfUnits h).units = (halfUnits : ℤ) := rfl
  rw [hone]
  unfold value
  rw [hunits, unitsPerOne_eq]
  generalize halfUnits = half at hpos
  push_cast
  field_simp

theorem abs_value_lt (h : x.units.natAbs < halfUnits) : |x.value| < 1 / 2 := by
  have hone : (0 : ℚ) < unitsPerOne := Nat.cast_pos.mpr unitsPerOne_pos
  have hless : (x.units.natAbs : ℚ) < halfUnits := Nat.cast_lt.mpr h
  unfold value
  rw [abs_div, ← Int.cast_abs, ← Nat.cast_natAbs, Nat.abs_cast, div_lt_iff₀ hone, unitsPerOne_eq]
  generalize halfUnits = half at *
  push_cast at *
  linarith

/-- One half is encoded as one. -/
theorem encode_isNearest_iff_oneHalf :
    encode (.places 0) oneHalf = .ok 1 ∧ IsNearest (oneHalf.value * 2 ^ 0) 1 := by
  have hvalue : oneHalf.value * 2 ^ 0 = 1 / 2 := by rw [value_oneHalf, pow_zero, mul_one]
  have hfinite : |oneHalf.value * 2 ^ 0| < 2 ^ 1024 := by
    rw [hvalue]
    exact two_pow_1024_gt (by norm_num)
  have hregular : ¬ IsMisrounded (oneHalf.value * 2 ^ 0) := by
    rw [hvalue]
    rintro (hbelow | ⟨m, -, hle, -, hm⟩)
    · norm_num at hbelow
    · have hlarge : (2 ^ 52 : ℚ) ≤ m := by exact_mod_cast hle
      rw [← hm] at hlarge
      norm_num at hlarge
  have hcode : encode (.places 0) oneHalf = .ok 1 := by decide +kernel
  have hhalf : oneHalf.isFinite = true := by decide +kernel
  obtain ⟨n, hn, hnearest⟩ := (encode_isNearest_iff hhalf hfinite).1.mpr ⟨by decide, hregular⟩
  have hone : n = 1 := by
    rw [Int.natCast_zero, hcode] at hn
    exact (Except.ok.inj hn).symm
  exact ⟨hcode, hone ▸ hnearest⟩

def justBelowHalf : Binary64 := ofDecimal false 49999999999999994 (-17)

/-- The double just below one half is encoded as one, although zero is nearer. -/
theorem encode_justBelowHalf :
    justBelowHalf.isFinite = true ∧ |justBelowHalf.value * 2 ^ 0| < 2 ^ 1024 ∧
      encode (.places 0) justBelowHalf = .ok 1 ∧ ¬ IsNearest (justBelowHalf.value * 2 ^ 0) 1 := by
  have hsmall : |justBelowHalf.value * 2 ^ 0| < 1 / 2 := by
    rw [pow_zero, mul_one]
    exact abs_value_lt (by decide +kernel)
  refine ⟨by decide +kernel, two_pow_1024_gt (hsmall.trans (by norm_num)), by decide +kernel,
    fun h => ?_⟩
  have hclosest := h.closest 0
  have hgap := abs_sub_abs_le_abs_sub (1 : ℚ) (justBelowHalf.value * 2 ^ 0)
  rw [abs_one, abs_sub_comm] at hgap
  rw [Int.cast_one, Int.cast_zero, sub_zero] at hclosest
  generalize justBelowHalf.value * 2 ^ 0 = q at *
  linarith

end FixedPoint
end TreeParty
