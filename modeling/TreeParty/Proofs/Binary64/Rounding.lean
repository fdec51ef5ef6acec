import TreeParty.Binary64.Arith
import Mathlib.Algebra.Order.Ring.Nat
/-!
# Rounding

`OnGrid` are the numbers of units that need no rounding, below the limit or not. Rounding leaves
them as they are and keeps everything else on its side of them, so it is monotone.
-/

set_option autoImplicit false

namespace TreeParty

/-- The numbers of units with at most 53 significant bits. -/
def OnGrid (units : Nat) : Prop := spacing units ∣ units

theorem Representable.onGrid {units : Nat} (h : Representable units) : OnGrid units := h.2

theorem onGrid_mul_two_pow {m : Nat} (hm : m ≤ Nat.pow 2 53) (s : Nat) :
    OnGrid (m * Nat.pow 2 s) := spacing_dvd_mul_two_pow hm s

theorem onGrid_mul_unitsPerOne {n : Nat} (hn : n ≤ Nat.pow 2 53) : OnGrid (n * unitsPerOne) := by
  unfold unitsPerOne
  generalize 1074 = k
  exact onGrid_mul_two_pow hn k

theorem onGrid_two_pow (s : Nat) : OnGrid (Nat.pow 2 s) := by
  have hgrid := onGrid_mul_two_pow (Nat.one_le_two_pow : 1 ≤ 2 ^ 53) s
  rwa [Nat.one_mul] at hgrid

theorem two_pow_lt_unitsLimit {k : Nat} (hk : k < 2098) : Nat.pow 2 k < unitsLimit := by
  unfold unitsLimit
  generalize 2098 = limit at hk ⊢
  exact Nat.pow_lt_pow_right Nat.one_lt_two hk

/-! ## Spacing -/

theorem spacing_pos (units : Nat) : 0 < spacing units := by
  unfold spacing
  exact Nat.two_pow_pos _

theorem spacing_dvd_spacing {u v : Nat} (h : u.log2 ≤ v.log2) : spacing u ∣ spacing v := by
  unfold spacing
  exact Nat.pow_dvd_pow 2 (Nat.sub_le_sub_right h 52)

theorem log2_le_log2 {u v : Nat} (h : u ≤ v) : u.log2 ≤ v.log2 := by
  by_cases hu : u = 0
  · rw [hu, Nat.log2_zero]
    exact Nat.zero_le _
  · have hv : v ≠ 0 := by omega
    exact (Nat.le_log2 hv).mpr ((Nat.log2_self_le hu).trans h)

theorem lt_two_pow_of_log2_lt {u v : Nat} (h : u.log2 < v.log2) : u < Nat.pow 2 v.log2 := by
  by_cases hu : u = 0
  · rw [hu]
    exact Nat.two_pow_pos _
  · exact (Nat.log2_lt hu).mp h

/-- The power of two at the top of a number lies on every grid that the number needs. -/
theorem spacing_dvd_two_pow_log2 (v : Nat) : spacing v ∣ Nat.pow 2 v.log2 := by
  unfold spacing
  exact Nat.pow_dvd_pow 2 (Nat.sub_le _ _)

/-! ## To the nearest whole number -/

theorem roundHalfEven_mul {den : Nat} (hden : 0 < den) (n : Nat) :
    roundHalfEven (n * den) den = n := by
  unfold roundHalfEven
  simp only [Nat.mul_mod_left, Nat.mul_div_cancel n hden]
  rw [if_pos (by omega)]

theorem roundHalfEven_mono {num num' den : Nat} (h : num ≤ num') :
    roundHalfEven num den ≤ roundHalfEven num' den := by
  have hdiv : num / den ≤ num' / den := Nat.div_le_div_right h
  have hnum := Nat.div_add_mod num den
  have hnum' := Nat.div_add_mod num' den
  unfold roundHalfEven
  simp only
  rcases Nat.lt_or_eq_of_le hdiv with hlt | heq
  · generalize num / den = low at *
    generalize num' / den = low' at *
    split_ifs <;> omega
  · rw [heq] at hnum ⊢
    have hrest : num % den ≤ num' % den := by omega
    split_ifs <;> omega

theorem roundHalfEven_le {num den n : Nat} (hden : 0 < den) (h : num ≤ n * den) :
    roundHalfEven num den ≤ n := by
  have hle := @roundHalfEven_mono _ _ den h
  rwa [roundHalfEven_mul hden] at hle

theorem le_roundHalfEven {num den n : Nat} (hden : 0 < den) (h : n * den ≤ num) :
    n ≤ roundHalfEven num den := by
  have hle := @roundHalfEven_mono _ _ den h
  rwa [roundHalfEven_mul hden] at hle

/-! ## To the grid -/

theorem onGrid_roundUnits (num den : Nat) : OnGrid (roundUnits num den) :=
  spacing_dvd_roundUnits num den

theorem roundUnits_le {num den u : Nat} (hden : 0 < den) (hu : OnGrid u) (h : num ≤ u * den) :
    roundUnits num den ≤ u := by
  have hquotient : num / den ≤ u := by
    rw [Nat.div_le_iff_le_mul_add_pred hden, Nat.mul_comm]
    omega
  obtain ⟨n, hn⟩ : spacing (num / den) ∣ u :=
    (spacing_dvd_spacing (log2_le_log2 hquotient)).trans hu
  have hstep := spacing_pos (num / den)
  unfold roundUnits
  simp only
  generalize spacing (num / den) = step at *
  have hround : roundHalfEven num (den * step) ≤ n := by
    refine roundHalfEven_le (Nat.mul_pos hden hstep) (h.trans (Nat.le_of_eq ?_))
    rw [hn, Nat.mul_comm den step, ← Nat.mul_assoc, Nat.mul_comm n step]
  calc roundHalfEven num (den * step) * step ≤ n * step := Nat.mul_le_mul_right step hround
    _ = u := by rw [hn, Nat.mul_comm]

/-- Rounding does not go below a multiple of the spacing that it uses. -/
theorem le_roundUnits_of_dvd {num den u : Nat} (hden : 0 < den) (hu : spacing (num / den) ∣ u)
    (h : u * den ≤ num) : u ≤ roundUnits num den := by
  obtain ⟨n, hn⟩ := hu
  have hstep := spacing_pos (num / den)
  unfold roundUnits
  simp only
  generalize spacing (num / den) = step at *
  have hround : n ≤ roundHalfEven num (den * step) := by
    refine le_roundHalfEven (Nat.mul_pos hden hstep) ((Nat.le_of_eq ?_).trans h)
    rw [hn, Nat.mul_comm den step, ← Nat.mul_assoc, Nat.mul_comm n step]
  calc u = n * step := by rw [hn, Nat.mul_comm]
    _ ≤ roundHalfEven num (den * step) * step := Nat.mul_le_mul_right step hround

theorem two_pow_log2_le_roundUnits {num den : Nat} (hden : 0 < den) (hq : num / den ≠ 0) :
    Nat.pow 2 (num / den).log2 ≤ roundUnits num den := by
  apply le_roundUnits_of_dvd hden (spacing_dvd_two_pow_log2 _)
  calc Nat.pow 2 (num / den).log2 * den ≤ num / den * den :=
        Nat.mul_le_mul_right den (Nat.log2_self_le hq)
    _ ≤ num := Nat.div_mul_le_self num den

theorem le_roundUnits {num den u : Nat} (hden : 0 < den) (hu : OnGrid u) (h : u * den ≤ num) :
    u ≤ roundUnits num den := by
  have hquotient : u ≤ num / den := (Nat.le_div_iff_mul_le hden).mpr h
  rcases Nat.lt_or_eq_of_le (log2_le_log2 hquotient) with hlt | heq
  · have hne : num / den ≠ 0 := by
      intro hzero
      rw [hzero, Nat.log2_zero] at hlt
      omega
    exact (Nat.le_of_lt (lt_two_pow_of_log2_lt hlt)).trans (two_pow_log2_le_roundUnits hden hne)
  · refine le_roundUnits_of_dvd hden ?_ h
    exact (spacing_dvd_spacing (Nat.le_of_eq heq.symm)).trans hu

/-- A number on the grid is its own rounding. -/
theorem roundUnits_mul {den u : Nat} (hden : 0 < den) (hu : OnGrid u) :
    roundUnits (u * den) den = u :=
  Nat.le_antisymm (roundUnits_le hden hu (Nat.le_refl _)) (le_roundUnits hden hu (Nat.le_refl _))

theorem roundUnits_of_onGrid {u : Nat} (hu : OnGrid u) : roundUnits u 1 = u := by
  have hround := roundUnits_mul Nat.one_pos hu
  rwa [Nat.mul_one] at hround

theorem roundUnits_mono {num num' den : Nat} (hden : 0 < den) (h : num ≤ num') :
    roundUnits num den ≤ roundUnits num' den := by
  have hquotient : num / den ≤ num' / den := Nat.div_le_div_right h
  rcases Nat.lt_or_eq_of_le (log2_le_log2 hquotient) with hlt | heq
  · -- A power of two lies between the two.
    have hne : num' / den ≠ 0 := by
      intro hzero
      rw [hzero, Nat.log2_zero] at hlt
      omega
    have hbelow : num ≤ Nat.pow 2 (num' / den).log2 * den := by
      have hlow := (Nat.div_lt_iff_lt_mul hden).mp (lt_two_pow_of_log2_lt hlt)
      exact Nat.le_of_lt hlow
    exact (roundUnits_le hden (onGrid_two_pow _) hbelow).trans
      (two_pow_log2_le_roundUnits hden hne)
  · unfold roundUnits
    simp only [spacing, heq]
    exact Nat.mul_le_mul_right _ (roundHalfEven_mono h)

theorem representable_roundUnits {num den : Nat} (h : roundUnits num den < unitsLimit) :
    Representable (roundUnits num den) := ⟨h, onGrid_roundUnits num den⟩

namespace Binary64

theorem round_of_lt {num den : Nat} (h : roundUnits num den < unitsLimit) (negative : Bool) :
    round negative num den =
      finite negative (roundUnits num den) (representable_roundUnits h) := dif_pos h

theorem round_mul {u den : Nat} (hden : 0 < den) (hu : OnGrid u) (hlimit : u < unitsLimit)
    (negative : Bool) : ∃ h, round negative (u * den) den = finite negative u h := by
  have hround := roundUnits_mul hden hu
  refine ⟨⟨hlimit, hu⟩, ?_⟩
  rw [round_of_lt (by rwa [hround])]
  simp only [hround]

theorem round_of_onGrid {u : Nat} (hu : OnGrid u) (hlimit : u < unitsLimit) (negative : Bool) :
    ∃ h, round negative u 1 = finite negative u h := by
  have hround := round_mul Nat.one_pos hu hlimit negative
  rwa [Nat.mul_one] at hround

theorem round_of_le {num den : Nat} (h : unitsLimit ≤ roundUnits num den) (negative : Bool) :
    round negative num den = inf negative := dif_neg (Nat.not_lt.mpr h)

end Binary64
end TreeParty
