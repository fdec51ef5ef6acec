import TreeParty.Proofs.Binary64.Count
/-!
# Magnitudes of doubles

What operations do to the magnitudes of finite doubles, in units. The nearest whole number depends
on the magnitude only, and small whole numbers are doubles.
-/

set_option autoImplicit false

namespace TreeParty

theorem OnGrid.mul_two_pow {u : Nat} (hu : OnGrid u) (s : Nat) : OnGrid (u * Nat.pow 2 s) := by
  have hdigits := Nat.le_of_lt (div_spacing_lt u)
  have hshift : u * Nat.pow 2 s = u / spacing u * Nat.pow 2 (u.log2 - 52 + s) := by
    have hu : u / spacing u * spacing u = u := Nat.div_mul_cancel hu
    simp only [spacing, Nat.pow_eq] at hu ⊢
    rw [Nat.pow_add, ← Nat.mul_assoc, hu]
  rw [hshift]
  exact onGrid_mul_two_pow hdigits _

theorem two_pow_eq_mul {a b : Nat} (h : b ≤ a) : Nat.pow 2 a = Nat.pow 2 (a - b) * Nat.pow 2 b :=
  (congrArg (Nat.pow 2) (Nat.sub_add_cancel h).symm).trans (Nat.pow_add 2 (a - b) b)

theorem OnGrid.of_mul_two_pow {u s : Nat} (hu : OnGrid (u * Nat.pow 2 s)) : OnGrid u := by
  have hdigits := div_spacing_lt (u * Nat.pow 2 s)
  have hcancel := Nat.div_mul_cancel hu
  generalize u * Nat.pow 2 s / spacing (u * Nat.pow 2 s) = m at hdigits hcancel
  unfold spacing at hcancel
  generalize (u * Nat.pow 2 s).log2 - 52 = t at hcancel
  rcases Nat.le_total s t with hle | hle
  · rw [two_pow_eq_mul hle, ← Nat.mul_assoc] at hcancel
    have hunits := Nat.eq_of_mul_eq_mul_right (Nat.two_pow_pos s) hcancel
    rw [← hunits]
    exact onGrid_mul_two_pow hdigits.le (t - s)
  · rw [two_pow_eq_mul hle, ← Nat.mul_assoc] at hcancel
    have hunits := Nat.eq_of_mul_eq_mul_right (Nat.two_pow_pos t) hcancel
    have hsmall : u ≤ Nat.pow 2 53 := by
      calc u ≤ u * Nat.pow 2 (s - t) := Nat.le_mul_of_pos_right u (Nat.two_pow_pos _)
        _ = m := hunits.symm
        _ ≤ Nat.pow 2 53 := hdigits.le
    have hgrid := onGrid_mul_two_pow hsmall 0
    rwa [Nat.pow_eq, Nat.pow_zero, Nat.mul_one] at hgrid

namespace Binary64

/-! ## Units of one and of one half -/

def halfUnits : Nat := Nat.pow 2 1073

theorem unitsPerOne_eq : unitsPerOne = halfUnits * 2 := by
  unfold unitsPerOne halfUnits
  have hexponent : 1074 = 1073 + 1 := rfl
  rw [hexponent]
  generalize 1073 = k
  simp only [Nat.pow_eq]
  exact Nat.pow_succ 2 k

theorem halfUnits_pos : 0 < halfUnits := by
  unfold halfUnits
  generalize 1073 = k
  exact Nat.two_pow_pos k

theorem unitsPerOne_pos : 0 < unitsPerOne := by
  have hhalf := halfUnits_pos
  rw [unitsPerOne_eq]
  omega

theorem halfUnits_div : halfUnits / unitsPerOne = 0 := by
  have hhalf := halfUnits_pos
  rw [unitsPerOne_eq]
  exact Nat.div_eq_of_lt (by omega)

theorem unitsLimit_eq : unitsLimit = Nat.pow 2 1024 * unitsPerOne := by
  have hexponent : 2098 = 1024 + 1074 := rfl
  unfold unitsLimit unitsPerOne
  rw [hexponent]
  generalize 1074 = k
  generalize 1024 = j
  exact Nat.pow_add 2 j k

theorem onGrid_mul_halfUnits {n : Nat} (hn : n ≤ Nat.pow 2 53) : OnGrid (n * halfUnits) := by
  unfold halfUnits
  generalize 1073 = k
  exact onGrid_mul_two_pow hn k

theorem onGrid_halfUnits : OnGrid halfUnits := by
  have hgrid := onGrid_mul_halfUnits (Nat.one_le_two_pow : 1 ≤ 2 ^ 53)
  rwa [Nat.one_mul] at hgrid

theorem halfUnits_lt : halfUnits < unitsLimit := by
  have hexponent : 1073 < 2098 := by decide
  unfold halfUnits
  generalize 1073 = k at hexponent ⊢
  exact two_pow_lt_unitsLimit hexponent

theorem oneHalf_eq : ∃ h, oneHalf = finite false halfUnits h := by
  unfold oneHalf
  rw [unitsPerOne_eq]
  exact round_mul Nat.zero_lt_two onGrid_halfUnits halfUnits_lt false

/-! ## Operations on finite doubles -/

theorem mul_finite (s t : Bool) {u v : Nat} (hu : Representable u) (hv : Representable v) :
    (finite s u hu).mul (finite t v hv) = round (s != t) (u * v) unitsPerOne := rfl

theorem add_finite (s t : Bool) {u v : Nat} (hu : Representable u) (hv : Representable v) :
    (finite s u hu).add (finite t v hv) =
      ofUnits ((finite s u hu).units + (finite t v hv).units) (s && t) := rfl

theorem half_finite (s : Bool) {u : Nat} (hu : Representable u) :
    (finite s u hu).half = round s u 2 := rfl

theorem abs_add_oneHalf (s : Bool) {u : Nat} (hu : Representable u) :
    (finite s u hu).abs.add oneHalf = round false (u + halfUnits) 1 := by
  obtain ⟨hhalf, hone⟩ := oneHalf_eq
  have habs : (finite s u hu).abs = finite false u hu := rfl
  have hsum : (finite false u hu).units + (finite false halfUnits hhalf).units =
      ((u + halfUnits : Nat) : Int) := (Int.natCast_add u halfUnits).symm
  have hsign : decide (((u + halfUnits : Nat) : Int) < 0) = false :=
    decide_eq_false (by omega)
  rw [habs, hone, add_finite, hsum]
  unfold ofUnits
  rw [hsign, Int.natAbs_natCast, Bool.and_self, ite_self]

theorem trunc_round_of_lt {num : Nat} (hlt : roundUnits num 1 < unitsLimit) :
    trunc (round false num 1) = .ok ((roundUnits num 1 / unitsPerOne : Nat) : Int) := by
  rw [round_of_lt hlt]
  rfl

theorem trunc_round_of_le {num : Nat} (hle : unitsLimit ≤ roundUnits num 1) :
    trunc (round false num 1) = .error .infinite := by
  rw [round_of_le hle]
  rfl

theorem nearest_of_trunc {x : Binary64} {n : Nat}
    (htrunc : trunc (x.abs.add oneHalf) = .ok (n : Int)) :
    nearest x = .ok (if x.isNegative then -(n : Int) else n) := by
  unfold nearest
  rw [htrunc]
  rfl

theorem nearest_of_trunc_error {x : Binary64} {reason : NotWhole}
    (htrunc : trunc (x.abs.add oneHalf) = .error reason) : nearest x = .error reason := by
  unfold nearest
  rw [htrunc]
  rfl

theorem nearest_of_lt {s : Bool} {u : Nat} (hu : Representable u)
    (hlt : roundUnits (u + halfUnits) 1 < unitsLimit) :
    nearest (finite s u hu) = .ok (if s then
      -((roundUnits (u + halfUnits) 1 / unitsPerOne : Nat) : Int)
      else (roundUnits (u + halfUnits) 1 / unitsPerOne : Nat)) :=
  nearest_of_trunc ((congrArg trunc (abs_add_oneHalf s hu)).trans (trunc_round_of_lt hlt))

theorem nearest_of_le {s : Bool} {u : Nat} (hu : Representable u)
    (hle : unitsLimit ≤ roundUnits (u + halfUnits) 1) :
    nearest (finite s u hu) = .error .infinite :=
  nearest_of_trunc_error ((congrArg trunc (abs_add_oneHalf s hu)).trans (trunc_round_of_le hle))

theorem nearest_inf (s : Bool) : nearest (inf s) = .error .infinite := by
  obtain ⟨hhalf, hone⟩ := oneHalf_eq
  apply nearest_of_trunc_error
  rw [hone]
  rfl

/-! ## Whole numbers -/

/-- A whole number of few enough digits is a double. -/
theorem round_whole {n : Nat} (hn : n ≤ Nat.pow 2 53) (negative : Bool) :
    ∃ h, round negative (n * unitsPerOne) 1 = finite negative (n * unitsPerOne) h := by
  have hlt : n * unitsPerOne < unitsLimit := mul_unitsPerOne_lt (by decide) hn
  exact round_of_onGrid (onGrid_mul_unitsPerOne hn) hlt negative

theorem ofInt?_natCast {n : Nat} (hn : n ≤ Nat.pow 2 53) :
    ∃ x, ofInt? n = some x ∧ x.isFinite = true ∧ x.units.natAbs = n * unitsPerOne := by
  obtain ⟨h, hround⟩ := round_whole hn (decide ((n : Int) < 0))
  refine ⟨finite (decide ((n : Int) < 0)) (n * unitsPerOne) h, ofInt?_of_round ?_, rfl, ?_⟩
  · rw [Int.natAbs_natCast]
    exact hround
  · exact natAbs_units_finite _ _ _

theorem ofInt?_of_onGrid {n : Int} (hgrid : OnGrid (n.natAbs * unitsPerOne))
    (hlimit : n.natAbs * unitsPerOne < unitsLimit) :
    ∃ h, ofInt? n = some (finite (decide (n < 0)) (n.natAbs * unitsPerOne) h) := by
  obtain ⟨h, hround⟩ := round_of_onGrid hgrid hlimit (decide (n < 0))
  exact ⟨h, ofInt?_of_round hround⟩

theorem units_finite_natAbs (n : Int) {unit : Nat} (h : Representable (n.natAbs * unit)) :
    (finite (decide (n < 0)) (n.natAbs * unit) h).units = n * unit := by
  unfold units
  by_cases hsign : n < 0
  · have habs : (n.natAbs : Int) = -n := by omega
    simp only [hsign, decide_true, if_true]
    rw [Int.natCast_mul, habs, Int.neg_mul, Int.neg_neg]
  · have habs : (n.natAbs : Int) = n := by omega
    simp only [hsign, decide_false, Bool.false_eq_true, if_false]
    rw [Int.natCast_mul, habs]

theorem trunc_ofInt?_natCast {n : Nat} (hn : n ≤ Nat.pow 2 53) :
    ∃ x, ofInt? n = some x ∧ x.trunc = .ok (n : Int) := by
  obtain ⟨h, hround⟩ := round_whole hn false
  have hsign : decide ((n : Int) < 0) = false := decide_eq_false (by omega)
  refine ⟨finite false (n * unitsPerOne) h, ofInt?_of_round ?_, ?_⟩
  · rw [hsign, Int.natAbs_natCast]
    exact hround
  · have hquotient := Nat.mul_div_cancel n unitsPerOne_pos
    rw [trunc, if_neg Bool.false_ne_true, hquotient]

end Binary64
end TreeParty
