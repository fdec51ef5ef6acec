import TreeParty.Proofs.Binary64.Magnitude
/-!
# The middle of two doubles

The middle is rounded twice, after the sum and after the division. Both roundings keep the order,
also where a sum becomes infinite, and leave twice a double and a double as they are, so that the
middle of a finite sum lies between the two. Of whole numbers that are not too large the middle is
exact.
-/

set_option autoImplicit false

namespace TreeParty

def roundSigned (num : Int) (den : Nat) : Int :=
  if num < 0 then -(roundUnits num.natAbs den : Int) else roundUnits num.natAbs den

theorem roundSigned_mono {den : Nat} (hden : 0 < den) {m n : Int} (h : m ≤ n) :
    roundSigned m den ≤ roundSigned n den := by
  unfold roundSigned
  by_cases hm : m < 0
  · by_cases hn : n < 0
    · have hround := @roundUnits_mono n.natAbs m.natAbs den hden (by omega)
      rw [if_pos hm, if_pos hn]
      omega
    · rw [if_pos hm, if_neg hn]
      omega
  · have hround := @roundUnits_mono m.natAbs n.natAbs den hden (by omega)
    rw [if_neg hm, if_neg (by omega)]
    omega

theorem roundSigned_mul {u : Int} {den : Nat} (hden : 0 < den) (hu : OnGrid u.natAbs) :
    roundSigned (u * den) den = u := by
  have hround : roundUnits (u * den).natAbs den = u.natAbs := by
    rw [Int.natAbs_mul, Int.natAbs_natCast]
    exact roundUnits_mul hden hu
  have hpos : (0 : Int) < den := Int.natCast_pos.mpr hden
  unfold roundSigned
  rw [hround]
  by_cases hsign : u < 0
  · rw [if_pos (Int.mul_neg_of_neg_of_pos hsign hpos)]
    omega
  · rw [if_neg (Int.not_lt.mpr (Int.mul_nonneg (Int.not_lt.mp hsign) (Int.natCast_nonneg den)))]
    omega

namespace Binary64

theorem units_round {num den : Nat} (hlt : roundUnits num den < unitsLimit) (negative : Bool) :
    (round negative num den).isFinite = true ∧ (round negative num den).units =
      if negative then -(roundUnits num den : Int) else roundUnits num den := by
  rw [round_of_lt hlt]
  exact ⟨rfl, rfl⟩

theorem isFinite_round_iff {num den : Nat} (negative : Bool) :
    (round negative num den).isFinite = true ↔ roundUnits num den < unitsLimit := by
  constructor
  · intro h
    refine Nat.lt_of_not_le fun hle => ?_
    rw [round_of_le hle] at h
    cases h
  · intro hlt
    exact (units_round hlt negative).1

theorem isFinite_ofUnits_iff {units : Int} {negativeZero : Bool} :
    (ofUnits units negativeZero).isFinite = true ↔ roundUnits units.natAbs 1 < unitsLimit :=
  isFinite_round_iff _

theorem units_ofUnits {units : Int} {negativeZero : Bool}
    (h : (ofUnits units negativeZero).isFinite = true) :
    (ofUnits units negativeZero).units = roundSigned units 1 := by
  have hlt := isFinite_ofUnits_iff.mp h
  unfold ofUnits roundSigned
  rw [(units_round hlt _).2]
  by_cases hzero : units = 0
  · subst hzero
    have hround : roundUnits (0 : Int).natAbs 1 = 0 := roundUnits_of_onGrid (Nat.dvd_zero _)
    rw [hround]
    cases negativeZero <;> rfl
  · rw [if_neg hzero]
    by_cases hsign : units < 0
    · rw [decide_eq_true hsign, if_pos rfl, if_pos hsign]
    · rw [decide_eq_false hsign, if_neg Bool.false_ne_true, if_neg hsign]

theorem add_eq_ofUnits {x y : Binary64} (hx : x.isFinite = true) (hy : y.isFinite = true) :
    ∃ negativeZero, x.add y = ofUnits (x.units + y.units) negativeZero := by
  cases x with
  | nan => cases hx
  | inf s => cases hx
  | finite s u hu =>
    cases y with
    | nan => cases hy
    | inf t => cases hy
    | finite t v hv => exact ⟨s && t, add_finite s t hu hv⟩

theorem isFinite_add_iff {x y : Binary64} (hx : x.isFinite = true) (hy : y.isFinite = true) :
    (x.add y).isFinite = true ↔ roundUnits (x.units + y.units).natAbs 1 < unitsLimit := by
  obtain ⟨negativeZero, hadd⟩ := add_eq_ofUnits hx hy
  rw [hadd]
  exact isFinite_ofUnits_iff

theorem units_add {x y : Binary64} (hx : x.isFinite = true) (hy : y.isFinite = true)
    (hsum : (x.add y).isFinite = true) : (x.add y).units = roundSigned (x.units + y.units) 1 := by
  obtain ⟨negativeZero, hadd⟩ := add_eq_ofUnits hx hy
  rw [hadd] at hsum ⊢
  exact units_ofUnits hsum

theorem units_half {x : Binary64} (hx : x.isFinite = true) :
    x.half.isFinite = true ∧ x.half.units = roundSigned x.units 2 := by
  cases x with
  | nan => cases hx
  | inf s => cases hx
  | finite s u hu =>
    have hle : roundUnits u 2 ≤ u :=
      roundUnits_le Nat.zero_lt_two hu.onGrid (Nat.le_mul_of_pos_right u Nat.zero_lt_two)
    obtain ⟨hfinite, hunits⟩ := units_round (Nat.lt_of_le_of_lt hle hu.1) s
    refine ⟨hfinite, ?_⟩
    rw [half_finite, hunits]
    unfold roundSigned units
    cases s with
    | false =>
      simp only [Bool.false_eq_true, if_false]
      rw [if_neg (by omega), Int.natAbs_natCast]
    | true =>
      simp only [if_true, Int.natAbs_neg, Int.natAbs_natCast]
      split
      · rfl
      · omega

theorem units_midpoint {x y : Binary64} (hx : x.isFinite = true) (hy : y.isFinite = true)
    (hsum : (x.add y).isFinite = true) :
    (x.midpoint y).isFinite = true ∧
      (x.midpoint y).units = roundSigned (roundSigned (x.units + y.units) 1) 2 := by
  obtain ⟨hfinite, hunits⟩ := units_half hsum
  refine ⟨hfinite, ?_⟩
  unfold midpoint
  rw [hunits, units_add hx hy hsum]

theorem roundSigned_twice (x : Binary64) : roundSigned (roundSigned (x.units + x.units) 1) 2 =
    x.units := by
  have hgrid := (representable_natAbs_units x).onGrid
  have htwice : OnGrid (x.units * 2).natAbs := by
    rw [Int.natAbs_mul]
    exact hgrid.mul_two_pow 1
  have hsum : x.units + x.units = x.units * 2 * (1 : Nat) := by omega
  rw [hsum, roundSigned_mul Nat.one_pos htwice]
  exact roundSigned_mul Nat.zero_lt_two hgrid

/-- What is at most both doubles is at most their middle. -/
theorem le_midpoint {x y z : Binary64} (hx : x.isFinite = true) (hy : y.isFinite = true)
    (hsum : (x.add y).isFinite = true) (hzx : z.units ≤ x.units) (hzy : z.units ≤ y.units) :
    z.units ≤ (x.midpoint y).units := by
  rw [(units_midpoint hx hy hsum).2]
  calc z.units = roundSigned (roundSigned (z.units + z.units) 1) 2 := (roundSigned_twice z).symm
    _ ≤ roundSigned (roundSigned (x.units + y.units) 1) 2 :=
      roundSigned_mono Nat.zero_lt_two (roundSigned_mono Nat.one_pos (by omega))

/-- What is at least both doubles is at least their middle. -/
theorem midpoint_le {x y z : Binary64} (hx : x.isFinite = true) (hy : y.isFinite = true)
    (hsum : (x.add y).isFinite = true) (hxz : x.units ≤ z.units) (hyz : y.units ≤ z.units) :
    (x.midpoint y).units ≤ z.units := by
  rw [(units_midpoint hx hy hsum).2]
  calc roundSigned (roundSigned (x.units + y.units) 1) 2
      ≤ roundSigned (roundSigned (z.units + z.units) 1) 2 :=
        roundSigned_mono Nat.zero_lt_two (roundSigned_mono Nat.one_pos (by omega))
    _ = z.units := roundSigned_twice z

theorem natAbs_midpoint_le {x y : Binary64} {bound : Nat} (hx : x.isFinite = true)
    (hy : y.isFinite = true) (hsum : (x.add y).isFinite = true) (hxle : x.units.natAbs ≤ bound)
    (hyle : y.units.natAbs ≤ bound) : (x.midpoint y).units.natAbs ≤ bound := by
  rcases Int.le_total x.units y.units with hle | hle
  · have hlower := le_midpoint hx hy hsum (Int.le_refl _) hle
    have hupper := midpoint_le hx hy hsum hle (Int.le_refl _)
    omega
  · have hlower := le_midpoint hx hy hsum hle (Int.le_refl _)
    have hupper := midpoint_le hx hy hsum (Int.le_refl _) hle
    omega

theorem isFinite_add_of_double {x y : Binary64} (hx : x.isFinite = true) (hy : y.isFinite = true)
    (hxlt : x.units.natAbs * 2 < unitsLimit) (hylt : y.units.natAbs * 2 < unitsLimit) :
    (x.add y).isFinite = true := by
  rw [isFinite_add_iff hx hy]
  rcases Nat.le_total x.units.natAbs y.units.natAbs with hle | hle
  · have hgrid : OnGrid (y.units.natAbs * 2) :=
      (representable_natAbs_units y).onGrid.mul_two_pow 1
    exact Nat.lt_of_le_of_lt (roundUnits_le Nat.one_pos hgrid (by omega)) hylt
  · have hgrid : OnGrid (x.units.natAbs * 2) :=
      (representable_natAbs_units x).onGrid.mul_two_pow 1
    exact Nat.lt_of_le_of_lt (roundUnits_le Nat.one_pos hgrid (by omega)) hxlt

/-! ## Order -/

theorem isNaN_round (negative : Bool) (num den : Nat) : (round negative num den).isNaN = false := by
  unfold round
  split <;> rfl

theorem isNaN_half (x : Binary64) : x.half.isNaN = x.isNaN := by
  cases x with
  | nan => rfl
  | inf negative => rfl
  | finite negative u hu => exact isNaN_round negative u 2

theorem inf_le {x : Binary64} (hx : x.isNaN = false) : (inf true).le x = true := by
  rcases x with _ | (_ | _) | _ <;> first | rfl | cases hx

theorem le_inf {x : Binary64} (hx : x.isNaN = false) : x.le (inf false) = true := by
  rcases x with _ | (_ | _) | _ <;> first | rfl | cases hx

/-- Units that are too large for a double become infinity on their side of zero. -/
theorem ofUnits_of_le {units : Int} {negativeZero : Bool}
    (hle : unitsLimit ≤ roundUnits units.natAbs 1) :
    ofUnits units negativeZero = inf (decide (units < 0)) := by
  have hne : units ≠ 0 := by
    rintro rfl
    rw [Int.natAbs_zero, roundUnits_of_onGrid (Nat.dvd_zero _)] at hle
    exact absurd unitsLimit_pos (Nat.not_lt.mpr hle)
  unfold ofUnits
  rw [if_neg hne, round_of_le hle]

theorem ofUnits_mono {m n : Int} (h : m ≤ n) (a b : Bool) :
    (ofUnits m a).le (ofUnits n b) = true := by
  by_cases hm : roundUnits m.natAbs 1 < unitsLimit
  · by_cases hn : roundUnits n.natAbs 1 < unitsLimit
    · have hmfinite : (ofUnits m a).isFinite = true := isFinite_ofUnits_iff.mpr hm
      have hnfinite : (ofUnits n b).isFinite = true := isFinite_ofUnits_iff.mpr hn
      rw [le_finite hmfinite hnfinite, units_ofUnits hmfinite, units_ofUnits hnfinite]
      exact roundSigned_mono Nat.one_pos h
    · have hpos : ¬n < 0 := by
        intro hneg
        have hround := @roundUnits_mono n.natAbs m.natAbs 1 Nat.one_pos (by omega)
        omega
      rw [ofUnits_of_le (Nat.le_of_not_lt hn), decide_eq_false hpos]
      exact le_inf (isNaN_round _ _ _)
  · by_cases hneg : m < 0
    · rw [ofUnits_of_le (Nat.le_of_not_lt hm), decide_eq_true hneg]
      exact inf_le (isNaN_round _ _ _)
    · have hround := @roundUnits_mono m.natAbs n.natAbs 1 Nat.one_pos (by omega)
      have hn : unitsLimit ≤ roundUnits n.natAbs 1 := by omega
      have hpos : ¬n < 0 := by omega
      rw [ofUnits_of_le hn, decide_eq_false hpos]
      exact le_inf (isNaN_round _ _ _)

theorem half_mono {x y : Binary64} (h : x.le y = true) : x.half.le y.half = true := by
  obtain ⟨hx, hy, -⟩ := le_iff.mp h
  rw [← isNaN_half] at hx hy
  cases x with
  | nan => cases hx
  | inf s =>
    cases s with
    | true => exact inf_le hy
    | false =>
      cases y with
      | nan => cases hy
      | inf t => exact h
      | finite t v hv => cases h
  | finite s u hu =>
    cases y with
    | nan => cases hy
    | inf t =>
      cases t with
      | true => cases h
      | false => exact le_inf hx
    | finite t v hv =>
      obtain ⟨hlow, hlowunits⟩ := @units_half (finite s u hu) rfl
      obtain ⟨hhigh, hhighunits⟩ := @units_half (finite t v hv) rfl
      rw [le_finite hlow hhigh, hlowunits, hhighunits]
      exact roundSigned_mono Nat.zero_lt_two ((le_finite rfl rfl).mp h)

/-- The middle keeps the order, also where a sum is too large for a double. -/
theorem midpoint_mono {x y x' y' : Binary64} (hx : x.isFinite = true) (hy : y.isFinite = true)
    (hx' : x'.isFinite = true) (hy' : y'.isFinite = true) (hxx : x.units ≤ x'.units)
    (hyy : y.units ≤ y'.units) : (x.midpoint y).le (x'.midpoint y') = true := by
  obtain ⟨a, ha⟩ := add_eq_ofUnits hx hy
  obtain ⟨b, hb⟩ := add_eq_ofUnits hx' hy'
  unfold midpoint
  rw [ha, hb]
  exact half_mono (ofUnits_mono (Int.add_le_add hxx hyy) a b)

/-! ## Whole numbers -/

theorem midpoint_whole {x y : Binary64} {a b : Int} (hx : x.isFinite = true)
    (hy : y.isFinite = true) (hxa : x.units = a * unitsPerOne) (hyb : y.units = b * unitsPerOne)
    (hsmall : (a + b).natAbs ≤ Nat.pow 2 53) :
    (x.add y).isFinite = true ∧ (x.midpoint y).units * 2 = x.units + y.units := by
  have hunits : x.units + y.units = (a + b) * unitsPerOne := by rw [hxa, hyb, Int.add_mul]
  have hsum : (x.units + y.units).natAbs = (a + b).natAbs * unitsPerOne := by
    rw [hunits, Int.natAbs_mul, Int.natAbs_natCast]
  have hgrid : OnGrid ((a + b).natAbs * unitsPerOne) := onGrid_mul_unitsPerOne hsmall
  have hhalfgrid : OnGrid ((a + b) * halfUnits).natAbs := by
    rw [Int.natAbs_mul, Int.natAbs_natCast]
    exact onGrid_mul_halfUnits hsmall
  have hfinite : (x.add y).isFinite = true := by
    rw [isFinite_add_iff hx hy, hsum, roundUnits_of_onGrid hgrid]
    exact mul_unitsPerOne_lt (by decide) hsmall
  refine ⟨hfinite, ?_⟩
  have hfirst : roundSigned (x.units + y.units) 1 = x.units + y.units := by
    rw [← hsum] at hgrid
    have hround := roundSigned_mul Nat.one_pos hgrid
    rwa [Int.natCast_one, Int.mul_one] at hround
  have htwice : x.units + y.units = (a + b) * halfUnits * (2 : Nat) := by
    rw [hunits, unitsPerOne_eq, Int.natCast_mul, Int.mul_assoc]
  rw [(units_midpoint hx hy hfinite).2, hfirst, htwice, roundSigned_mul Nat.zero_lt_two hhalfgrid]
  rfl

end Binary64
end TreeParty
