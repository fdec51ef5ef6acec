import TreeParty.Proofs.Binary64.Magnitude
/-!
# Adding one half

The sum of a double and one half is rounded, which may carry it to the next whole number. It does so
for the double just below one half, whose sum is rounded up to one, and for the odd whole numbers
that leave no place for a half. From `2 ^ 53` on, the half is lost altogether.
-/

set_option autoImplicit false

namespace TreeParty

/-! ## The grid between powers of two -/

theorem add_le_of_dvd {d a b : Nat} (ha : d ∣ a) (hb : d ∣ b) (hlt : a < b) : a + d ≤ b := by
  have hgap : d ≤ b - a := Nat.le_of_dvd (by omega) (Nat.dvd_sub hb ha)
  omega

theorem onGrid_of_dvd {t u : Nat} (hdvd : Nat.pow 2 t ∣ u) (hle : u ≤ Nat.pow 2 (t + 53)) :
    OnGrid u := by
  obtain ⟨m, rfl⟩ := hdvd
  rw [Nat.mul_comm]
  refine onGrid_mul_two_pow (Nat.le_of_mul_le_mul_left (hle.trans (Nat.le_of_eq ?_))
    (Nat.two_pow_pos t)) t
  exact Nat.pow_add 2 t 53

theorem two_pow_le_log2 {t u : Nat} (hle : Nat.pow 2 t ≤ u) : t ≤ u.log2 :=
  (Nat.le_log2 (Nat.pos_iff_ne_zero.mp ((Nat.two_pow_pos t).trans_le hle))).mpr hle

theorem OnGrid.two_pow_dvd {t u : Nat} (hu : OnGrid u) (hle : Nat.pow 2 (t + 52) ≤ u) :
    Nat.pow 2 t ∣ u := by
  have hlog := two_pow_le_log2 hle
  exact (Nat.pow_dvd_pow 2 (by omega)).trans hu

theorem spacing_of_between {t u : Nat} (hle : Nat.pow 2 (t + 52) ≤ u)
    (hlt : u < Nat.pow 2 (t + 53)) : spacing u = Nat.pow 2 t := by
  have hlow := two_pow_le_log2 hle
  have hhigh : u.log2 < t + 53 :=
    (Nat.log2_lt (Nat.pos_iff_ne_zero.mp ((Nat.two_pow_pos _).trans_le hle))).mpr hlt
  have hlog : u.log2 - 52 = t := by omega
  unfold spacing
  rw [hlog]

/-! ## Sums -/

theorem roundHalfEven_mul_add (n : Nat) {d den : Nat} (hd : d < den) :
    roundHalfEven (n * den + d) den =
      if 2 * d < den then n else if den < 2 * d then n + 1 else n + n % 2 := by
  have hdiv : (n * den + d) / den = n := by
    rw [Nat.mul_comm, Nat.mul_add_div (Nat.zero_lt_of_lt hd), Nat.div_eq_of_lt hd, Nat.add_zero]
  have hmod : (n * den + d) % den = d := by
    rw [Nat.mul_add_mod_self_right, Nat.mod_eq_of_lt hd]
  unfold roundHalfEven
  simp only [hdiv, hmod]

/-- Less than the spacing above a number on the grid, the same spacing is used. -/
theorem roundUnits_add {n step d : Nat} (hstep : spacing (n * step) = step) (hd : d < step) :
    roundUnits (n * step + d) 1 =
      (if 2 * d < step then n else if step < 2 * d then n + 1 else n + n % 2) * step := by
  have hlog : (n * step + d).log2 = (n * step).log2 := by
    rcases Nat.eq_zero_or_pos (n * step) with hzero | hpos
    · have hone : step = 1 := by
        rw [hzero] at hstep
        exact hstep.symm
      have hnone : d = 0 := by omega
      rw [hnone, Nat.add_zero]
    · have hdvd : step ∣ Nat.pow 2 ((n * step).log2 + 1) := by
        have hpow : spacing (n * step) ∣ Nat.pow 2 ((n * step).log2 + 1) :=
          Nat.pow_dvd_pow 2 (by omega)
        rwa [hstep] at hpow
      have hnext := add_le_of_dvd (Nat.dvd_mul_left step n) hdvd Nat.lt_log2_self
      refine Nat.le_antisymm (Nat.le_of_lt_succ ?_) (log2_le_log2 (Nat.le_add_right _ d))
      exact (Nat.log2_lt (by omega)).mpr ((Nat.add_lt_add_left hd _).trans_le hnext)
  have hspacing : spacing (n * step + d) = step := by
    unfold spacing at hstep ⊢
    rw [hlog]
    exact hstep
  unfold roundUnits
  simp only [Nat.div_one, Nat.one_mul, hspacing, roundHalfEven_mul_add n hd]

/-- The whole part of a rounded number is kept if there is a number of the grid between the number
and the next whole one. -/
theorem roundUnits_div_eq {u one g k : Nat} (hfloor : k * one ≤ u) (hlow : OnGrid (k * one))
    (hle : u ≤ g) (hg : OnGrid g) (hlt : g < (k + 1) * one) : roundUnits u 1 / one = k := by
  have hbelow : k * one ≤ roundUnits u 1 :=
    le_roundUnits Nat.one_pos hlow (by rwa [Nat.mul_one])
  have habove : roundUnits u 1 ≤ g := roundUnits_le Nat.one_pos hg (by rwa [Nat.mul_one])
  exact Nat.div_eq_of_lt_le hbelow (habove.trans_lt hlt)

/-! ## One half -/

/-- Whether the sum of a number of units and one half is carried to the next whole number. One half
is `2 ^ (s + 53)` units. -/
def IsCarried (s v : Nat) : Prop :=
  v + Nat.pow 2 s = Nat.pow 2 (s + 53) ∨
    ∃ m, m % 2 = 1 ∧ Nat.pow 2 52 ≤ m ∧ m < Nat.pow 2 53 ∧ v = m * Nat.pow 2 (s + 54)

variable {s v : Nat}

theorem two_pow_whole (s : Nat) : Nat.pow 2 (s + 54) = Nat.pow 2 (s + 53) * 2 :=
  Nat.pow_succ 2 (s + 53)

theorem mul_add_half_div (m s : Nat) :
    (m * Nat.pow 2 (s + 54) + Nat.pow 2 (s + 53)) / Nat.pow 2 (s + 54) = m := by
  have hpos : 0 < Nat.pow 2 (s + 53) := Nat.two_pow_pos _
  have hwhole := two_pow_whole s
  rw [Nat.mul_comm, Nat.mul_add_div (by omega), Nat.div_eq_of_lt (by omega), Nat.add_zero]

/-- From `2 ^ 53` on, the half is lost. -/
theorem raised_of_le (hv : OnGrid v) (hle : Nat.pow 2 (s + 107) ≤ v) :
    roundUnits (v + Nat.pow 2 (s + 53)) 1 = v := by
  have hlog := two_pow_le_log2 hle
  obtain ⟨n, hn⟩ := hv
  rw [Nat.mul_comm] at hn
  have hstep : Nat.pow 2 (s + 55) ≤ spacing v := Nat.pow_le_pow_right Nat.zero_lt_two (by omega)
  have hfour : Nat.pow 2 (s + 55) = Nat.pow 2 (s + 53) * 4 := Nat.pow_add 2 (s + 53) 2
  have hpos : 0 < Nat.pow 2 (s + 53) := Nat.two_pow_pos _
  have hadd := @roundUnits_add n (spacing v) (Nat.pow 2 (s + 53)) (by rw [← hn]) (by omega)
  rwa [if_pos (by omega), ← hn] at hadd

theorem raised_div_of_le (hv : OnGrid v) (hle : Nat.pow 2 (s + 107) ≤ v) :
    roundUnits (v + Nat.pow 2 (s + 53)) 1 / Nat.pow 2 (s + 54) =
      (v + Nat.pow 2 (s + 53)) / Nat.pow 2 (s + 54) := by
  have hone : 0 < Nat.pow 2 (s + 54) := Nat.two_pow_pos _
  obtain ⟨m, hm⟩ : Nat.pow 2 (s + 54) ∣ v := hv.two_pow_dvd
    ((Nat.pow_le_pow_right Nat.zero_lt_two (by omega)).trans hle)
  rw [raised_of_le hv hle, hm, Nat.mul_comm, mul_add_half_div, Nat.mul_div_cancel _ hone]

/-- Between `2 ^ 52` and `2 ^ 53` a half is a tie, which goes to the even neighbour. -/
theorem raised_of_between {m : Nat} (hle : Nat.pow 2 52 ≤ m) (hlt : m < Nat.pow 2 53) :
    roundUnits (m * Nat.pow 2 (s + 54) + Nat.pow 2 (s + 53)) 1 =
      (m + m % 2) * Nat.pow 2 (s + 54) := by
  have hpos : 0 < Nat.pow 2 (s + 53) := Nat.two_pow_pos _
  have hwhole := two_pow_whole s
  have hlow : Nat.pow 2 (s + 54 + 52) ≤ m * Nat.pow 2 (s + 54) := by
    rw [Nat.mul_comm]
    exact (Nat.le_of_eq (Nat.pow_add 2 (s + 54) 52)).trans (Nat.mul_le_mul_left _ hle)
  have hhigh : m * Nat.pow 2 (s + 54) < Nat.pow 2 (s + 54 + 53) := by
    rw [Nat.mul_comm]
    exact (Nat.mul_lt_mul_of_pos_left hlt (Nat.two_pow_pos _)).trans_eq
      (Nat.pow_add 2 (s + 54) 53).symm
  rw [roundUnits_add (spacing_of_between hlow hhigh) (by omega), if_neg (by omega),
    if_neg (by omega)]

/-- The double just below one half is raised to one. -/
theorem raised_of_just_below (h : v + Nat.pow 2 s = Nat.pow 2 (s + 53)) :
    roundUnits (v + Nat.pow 2 (s + 53)) 1 = Nat.pow 2 (s + 54) := by
  have hpos : 0 < Nat.pow 2 s := Nat.two_pow_pos _
  have hstep : Nat.pow 2 (s + 1) = Nat.pow 2 s * 2 := Nat.pow_add 2 s 1
  have hhalf : Nat.pow 2 (s + 53) = Nat.pow 2 s * 9007199254740992 := Nat.pow_add 2 s 53
  have hwhole := two_pow_whole s
  have hlow : Nat.pow 2 (s + 1 + 52) ≤ 9007199254740991 * Nat.pow 2 (s + 1) := by
    have hexponent : s + 1 + 52 = s + 53 := by omega
    rw [hexponent]
    omega
  have hhigh : 9007199254740991 * Nat.pow 2 (s + 1) < Nat.pow 2 (s + 1 + 53) := by
    have hexponent : s + 1 + 53 = s + 54 := by omega
    rw [hexponent]
    omega
  have hsum : v + Nat.pow 2 (s + 53) = 9007199254740991 * Nat.pow 2 (s + 1) + Nat.pow 2 s := by
    omega
  rw [hsum, roundUnits_add (spacing_of_between hlow hhigh) (by omega), if_neg (by omega),
    if_neg (by omega)]
  omega

/-- Past a half, the half has a place on the grid: the sum stays below the next power of two. -/
theorem onGrid_add_half {k : Nat} (hv : OnGrid v) (hlt : v < Nat.pow 2 (s + 106)) (hk : k ≠ 0)
    (hpast : k * Nat.pow 2 (s + 54) < v)
    (hnext : v + Nat.pow 2 (s + 53) < (k + 1) * Nat.pow 2 (s + 54)) :
    OnGrid (v + Nat.pow 2 (s + 53)) := by
  have hone : Nat.pow 2 (s + 54) ≤ v :=
    (Nat.le_mul_of_pos_left _ (Nat.pos_of_ne_zero hk)).trans (Nat.le_of_lt hpast)
  have hlow := two_pow_le_log2 hone
  have hhigh : v.log2 < s + 106 := by
    have hpos : 0 < Nat.pow 2 (s + 54) := Nat.two_pow_pos _
    exact (Nat.log2_lt (by omega)).mpr hlt
  have hexponent : v.log2 - 52 + 53 = v.log2 + 1 := by omega
  refine @onGrid_of_dvd (v.log2 - 52) _ ?_ ?_
  · exact Nat.dvd_add hv (Nat.pow_dvd_pow 2 (by omega))
  · have hsteps : k * Nat.pow 2 (s + 54) + Nat.pow 2 (s + 54) ≤ Nat.pow 2 (v.log2 + 1) :=
      add_le_of_dvd (Nat.dvd_mul_left _ k) (Nat.pow_dvd_pow 2 (by omega))
        (hpast.trans Nat.lt_log2_self)
    rw [Nat.add_mul, Nat.one_mul] at hnext
    rw [hexponent]
    exact (Nat.le_of_lt hnext).trans hsteps

/-- Below one half, the last place below one is not passed but by the double just below one half. -/
theorem add_half_le (hv : OnGrid v) (hlt : v < Nat.pow 2 (s + 53))
    (hother : v + Nat.pow 2 s ≠ Nat.pow 2 (s + 53)) :
    v + Nat.pow 2 (s + 53) ≤ 9007199254740991 * Nat.pow 2 (s + 1) := by
  have hpos : 0 < Nat.pow 2 s := Nat.two_pow_pos _
  have hstep : Nat.pow 2 (s + 1) = Nat.pow 2 s * 2 := Nat.pow_add 2 s 1
  have hquarter : Nat.pow 2 (s + 52) = Nat.pow 2 s * 4503599627370496 := Nat.pow_add 2 s 52
  have hhalf : Nat.pow 2 (s + 53) = Nat.pow 2 s * 9007199254740992 := Nat.pow_add 2 s 53
  by_cases hle : Nat.pow 2 (s + 52) ≤ v
  · have hdvd : Nat.pow 2 s ∣ v := hv.two_pow_dvd hle
    have hdvdHalf : Nat.pow 2 s ∣ Nat.pow 2 (s + 53) := Nat.pow_dvd_pow 2 (by omega)
    have hfirst := add_le_of_dvd hdvd hdvdHalf hlt
    have hsecond := add_le_of_dvd (Nat.dvd_add hdvd (Nat.dvd_refl _)) hdvdHalf
      (Nat.lt_of_le_of_ne hfirst hother)
    omega
  · omega

theorem raised_div_of_lt (hv : OnGrid v) (hlt : v < Nat.pow 2 (s + 106))
    (hother : v + Nat.pow 2 s ≠ Nat.pow 2 (s + 53)) :
    roundUnits (v + Nat.pow 2 (s + 53)) 1 / Nat.pow 2 (s + 54) =
      (v + Nat.pow 2 (s + 53)) / Nat.pow 2 (s + 54) := by
  -- Nothing is rounded where the half has a place on the grid, which it has from `2 ^ 51` on.
  by_cases hgrid : OnGrid (v + Nat.pow 2 (s + 53))
  · rw [roundUnits_of_onGrid hgrid]
  have hlow : v < Nat.pow 2 (s + 105) := by
    refine Nat.lt_of_not_le fun hle => hgrid ?_
    have hdvd : Nat.pow 2 (s + 53) ∣ v := hv.two_pow_dvd hle
    have hnext := add_le_of_dvd hdvd (Nat.pow_dvd_pow 2 (by omega)) hlt
    exact onGrid_of_dvd (Nat.dvd_add hdvd (Nat.dvd_refl _)) hnext
  have hwhole := two_pow_whole s
  have hpos : 0 < Nat.pow 2 (s + 53) := Nat.two_pow_pos _
  have hone : 0 < Nat.pow 2 (s + 54) := Nat.two_pow_pos _
  have hpow : Nat.pow 2 53 = 9007199254740992 := rfl
  have hfloor : (v + Nat.pow 2 (s + 53)) / Nat.pow 2 (s + 54) * Nat.pow 2 (s + 54) ≤
      v + Nat.pow 2 (s + 53) := Nat.div_mul_le_self _ _
  have hnext : v + Nat.pow 2 (s + 53) <
      ((v + Nat.pow 2 (s + 53)) / Nat.pow 2 (s + 54) + 1) * Nat.pow 2 (s + 54) :=
    (Nat.div_lt_iff_lt_mul hone).mp (Nat.lt_succ_self _)
  have hsmall : (v + Nat.pow 2 (s + 53)) / Nat.pow 2 (s + 54) < 2251799813685249 := by
    have hbound : Nat.pow 2 (s + 105) = Nat.pow 2 (s + 54) * 2251799813685248 :=
      Nat.pow_add 2 (s + 54) 51
    exact (Nat.div_lt_iff_lt_mul hone).mpr (by omega)
  generalize (v + Nat.pow 2 (s + 53)) / Nat.pow 2 (s + 54) = k at *
  have hdigits : k ≤ Nat.pow 2 53 := by
    rw [hpow]
    omega
  have hbelow : OnGrid (k * Nat.pow 2 (s + 54)) := onGrid_mul_two_pow hdigits _
  have hsucc : (k + 1) * Nat.pow 2 (s + 54) =
      k * Nat.pow 2 (s + 54) + Nat.pow 2 (s + 54) := Nat.succ_mul k _
  -- Up to a half behind the whole part, that half bounds the sum; past it only one is near.
  by_cases hhalf : v ≤ k * Nat.pow 2 (s + 54)
  · have hodd : k * Nat.pow 2 (s + 54) + Nat.pow 2 (s + 53) =
        (k * 2 + 1) * Nat.pow 2 (s + 53) := by
      rw [hwhole, Nat.add_mul, Nat.one_mul, Nat.mul_assoc, Nat.mul_comm 2]
    have hplace : OnGrid (k * Nat.pow 2 (s + 54) + Nat.pow 2 (s + 53)) := by
      rw [hodd]
      refine onGrid_mul_two_pow ?_ _
      rw [hpow]
      omega
    exact roundUnits_div_eq hfloor hbelow (Nat.add_le_add_right hhalf _) hplace (by omega)
  · have hzero : k = 0 := Classical.byContradiction fun hk =>
      hgrid (onGrid_add_half hv hlt hk (Nat.lt_of_not_le hhalf) hnext)
    subst hzero
    have hplace : OnGrid (9007199254740991 * Nat.pow 2 (s + 1)) :=
      onGrid_mul_two_pow (by decide) _
    have hlast : Nat.pow 2 (s + 54) = Nat.pow 2 (s + 1) * 9007199254740992 := by
      have hexponent : s + 54 = s + 1 + 53 := by omega
      rw [hexponent]
      exact Nat.pow_add 2 (s + 1) 53
    exact roundUnits_div_eq hfloor hbelow (add_half_le hv (by omega) hother) hplace (by omega)

theorem exists_eq_mul_of_between (hv : OnGrid v) (hle : Nat.pow 2 (s + 106) ≤ v)
    (hlt : v < Nat.pow 2 (s + 107)) :
    ∃ m, Nat.pow 2 52 ≤ m ∧ m < Nat.pow 2 53 ∧ v = m * Nat.pow 2 (s + 54) := by
  have hone : 0 < Nat.pow 2 (s + 54) := Nat.two_pow_pos _
  obtain ⟨m, hm⟩ : Nat.pow 2 (s + 54) ∣ v := hv.two_pow_dvd hle
  have hlow : Nat.pow 2 (s + 106) = Nat.pow 2 (s + 54) * Nat.pow 2 52 := Nat.pow_add 2 (s + 54) 52
  have hhigh : Nat.pow 2 (s + 107) = Nat.pow 2 (s + 54) * Nat.pow 2 53 :=
    Nat.pow_add 2 (s + 54) 53
  rw [hm, hlow] at hle
  rw [hm, hhigh] at hlt
  exact ⟨m, Nat.le_of_mul_le_mul_left hle hone, Nat.lt_of_mul_lt_mul_left hlt,
    hm.trans (Nat.mul_comm _ _)⟩

theorem raised_div_of_not_isCarried (hv : OnGrid v) (hother : ¬ IsCarried s v) :
    roundUnits (v + Nat.pow 2 (s + 53)) 1 / Nat.pow 2 (s + 54) =
      (v + Nat.pow 2 (s + 53)) / Nat.pow 2 (s + 54) := by
  by_cases hlarge : Nat.pow 2 (s + 107) ≤ v
  · exact raised_div_of_le hv hlarge
  by_cases hlow : v < Nat.pow 2 (s + 106)
  · exact raised_div_of_lt hv hlow fun h => hother (.inl h)
  obtain ⟨m, hle, hlt, hm⟩ :=
    exists_eq_mul_of_between hv (Nat.le_of_not_lt hlow) (Nat.lt_of_not_le hlarge)
  have heven : m % 2 = 0 :=
    Nat.mod_two_ne_one.mp fun hodd => hother (.inr ⟨m, hodd, hle, hlt, hm⟩)
  have hone : 0 < Nat.pow 2 (s + 54) := Nat.two_pow_pos _
  rw [hm, raised_of_between hle hlt, heven, Nat.add_zero, mul_add_half_div,
    Nat.mul_div_cancel _ hone]

theorem raised_div_of_isCarried (h : IsCarried s v) :
    roundUnits (v + Nat.pow 2 (s + 53)) 1 / Nat.pow 2 (s + 54) =
      (v + Nat.pow 2 (s + 53)) / Nat.pow 2 (s + 54) + 1 := by
  have hone : 0 < Nat.pow 2 (s + 54) := Nat.two_pow_pos _
  obtain hbelow | ⟨m, hodd, hle, hlt, hm⟩ := h
  · have hpos : 0 < Nat.pow 2 s := Nat.two_pow_pos _
    have hwhole := two_pow_whole s
    rw [raised_of_just_below hbelow, Nat.div_self hone, Nat.div_eq_of_lt (by omega)]
  · rw [hm, raised_of_between hle hlt, hodd, mul_add_half_div, Nat.mul_div_cancel _ hone]

theorem raised_le (hv : OnGrid v) :
    roundUnits (v + Nat.pow 2 (s + 53)) 1 ≤ max v (Nat.pow 2 (s + 108)) := by
  by_cases hlarge : Nat.pow 2 (s + 107) ≤ v
  · rw [raised_of_le hv hlarge]
    exact Nat.le_max_left _ _
  · refine Nat.le_trans ?_ (Nat.le_max_right _ _)
    refine roundUnits_le Nat.one_pos (onGrid_two_pow _) ?_
    have hhalf : Nat.pow 2 (s + 53) ≤ Nat.pow 2 (s + 107) :=
      Nat.pow_le_pow_right Nat.zero_lt_two (by omega)
    have hdouble : Nat.pow 2 (s + 108) = Nat.pow 2 (s + 107) * 2 := Nat.pow_succ 2 (s + 107)
    omega

/-! ## The whole part of the sum -/

/-- From `2 ^ 53` on, the whole part of the sum is the number itself. -/
theorem raised_div_mul_of_le (hv : OnGrid v) (hle : Nat.pow 2 (s + 107) ≤ v) :
    roundUnits (v + Nat.pow 2 (s + 53)) 1 / Nat.pow 2 (s + 54) * Nat.pow 2 (s + 54) = v := by
  have hdvd : Nat.pow 2 (s + 54) ∣ v := hv.two_pow_dvd
    ((Nat.pow_le_pow_right Nat.zero_lt_two (by omega)).trans hle)
  rw [raised_of_le hv hle, Nat.div_mul_cancel hdvd]

/-- The whole part of the sum is at most one away from the number. -/
theorem raised_div_mul_near (hv : OnGrid v) :
    roundUnits (v + Nat.pow 2 (s + 53)) 1 / Nat.pow 2 (s + 54) * Nat.pow 2 (s + 54) ≤
        v + Nat.pow 2 (s + 54) ∧
      v ≤ roundUnits (v + Nat.pow 2 (s + 53)) 1 / Nat.pow 2 (s + 54) * Nat.pow 2 (s + 54) +
        Nat.pow 2 (s + 54) := by
  have hwhole := two_pow_whole s
  have hone : 0 < Nat.pow 2 (s + 54) := Nat.two_pow_pos _
  by_cases hcarried : IsCarried s v
  · rw [raised_div_of_isCarried hcarried, Nat.add_mul, Nat.one_mul]
    rcases hcarried with hbelow | ⟨m, -, -, -, hm⟩
    · have hpos : 0 < Nat.pow 2 s := Nat.two_pow_pos _
      rw [Nat.div_eq_of_lt (by omega)]
      omega
    · rw [hm, mul_add_half_div]
      omega
  · rw [raised_div_of_not_isCarried hv hcarried]
    have hlow := Nat.div_mul_le_self (v + Nat.pow 2 (s + 53)) (Nat.pow 2 (s + 54))
    have hhigh := Nat.lt_div_mul_add (a := v + Nat.pow 2 (s + 53)) hone
    omega

theorem onGrid_raised_div_mul (hv : OnGrid v) : OnGrid
    (roundUnits (v + Nat.pow 2 (s + 53)) 1 / Nat.pow 2 (s + 54) * Nat.pow 2 (s + 54)) := by
  by_cases hlarge : Nat.pow 2 (s + 107) ≤ v
  · rwa [raised_div_mul_of_le hv hlarge]
  · refine onGrid_mul_two_pow ?_ (s + 54)
    have hbound : Nat.pow 2 (s + 107) = Nat.pow 2 (s + 54) * Nat.pow 2 53 :=
      Nat.pow_add 2 (s + 54) 53
    have hlt : roundUnits (v + Nat.pow 2 (s + 53)) 1 / Nat.pow 2 (s + 54) * Nat.pow 2 (s + 54) <
        (Nat.pow 2 53 + 1) * Nat.pow 2 (s + 54) :=
      calc _ ≤ v + Nat.pow 2 (s + 54) := (raised_div_mul_near hv).1
        _ < Nat.pow 2 (s + 107) + Nat.pow 2 (s + 54) :=
          Nat.add_lt_add_right (Nat.lt_of_not_le hlarge) _
        _ = Nat.pow 2 53 * Nat.pow 2 (s + 54) + Nat.pow 2 (s + 54) := by rw [hbound, Nat.mul_comm]
        _ = (Nat.pow 2 53 + 1) * Nat.pow 2 (s + 54) := (Nat.succ_mul _ _).symm
    exact Nat.le_of_lt_succ (Nat.lt_of_mul_lt_mul_right hlt)

theorem raised_div_whole {n : Nat} (hn : n ≤ Nat.pow 2 52) :
    roundUnits (n * Nat.pow 2 (s + 54) + Nat.pow 2 (s + 53)) 1 / Nat.pow 2 (s + 54) = n := by
  have hone : 0 < Nat.pow 2 (s + 54) := Nat.two_pow_pos _
  have hgrid : OnGrid (n * Nat.pow 2 (s + 54)) :=
    onGrid_mul_two_pow (hn.trans (by decide)) (s + 54)
  have hregular : ¬ IsCarried s (n * Nat.pow 2 (s + 54)) := by
    rintro (hbelow | ⟨m, hodd, hle, -, hm⟩)
    · have hwhole := two_pow_whole s
      have hpos : 0 < Nat.pow 2 s := Nat.two_pow_pos _
      have hhalf : Nat.pow 2 (s + 53) = Nat.pow 2 s * 9007199254740992 := Nat.pow_add 2 s 53
      rcases Nat.eq_zero_or_pos n with rfl | hn
      · omega
      · have hle := Nat.le_mul_of_pos_left (Nat.pow 2 (s + 54)) hn
        omega
    · have hsame := Nat.eq_of_mul_eq_mul_right hone hm
      have heven : Nat.pow 2 52 % 2 = 0 := rfl
      have hequal : m = Nat.pow 2 52 := by omega
      omega
  rw [raised_div_of_not_isCarried hgrid hregular, mul_add_half_div]

end TreeParty
