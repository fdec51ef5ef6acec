import TreeParty.Proofs.Binary64.Rank
import TreeParty.Proofs.Binary64.Rounding
import Mathlib.Data.List.Perm.Subperm
/-!
# Few doubles, many doubles

A number of units is determined by its exponent and its 53 significant bits, so that doubles with
different units are few. Every number that counts doubles is itself small enough for a double.
-/

set_option autoImplicit false

namespace TreeParty

theorem div_spacing_lt (units : Nat) : units / spacing units < Nat.pow 2 53 := by
  by_cases hzero : units = 0
  · rw [hzero, Nat.zero_div]
    exact Nat.two_pow_pos 53
  · apply Nat.div_lt_of_lt_mul
    have hlt : units < 2 ^ (units.log2 + 1) := Nat.lt_log2_self
    have hle : 2 ^ (units.log2 + 1) ≤ spacing units * Nat.pow 2 53 := by
      simp only [spacing, Nat.pow_eq, ← Nat.pow_add]
      exact Nat.pow_le_pow_right (by decide) (by omega)
    exact Nat.lt_of_lt_of_le hlt hle

theorem log2_le_of_lt_unitsLimit {units : Nat} (h : units < unitsLimit) : units.log2 ≤ 2098 := by
  unfold unitsLimit at h
  generalize 2098 = limit at h ⊢
  by_cases hzero : units = 0
  · rw [hzero, Nat.log2_zero]
    exact Nat.zero_le _
  · exact Nat.le_of_lt ((Nat.log2_lt hzero).mpr h)

namespace Binary64

/-- The exponent and the significant bits of a double as one number. -/
def digits (x : Binary64) : Nat :=
  x.units.natAbs.log2 * Nat.pow 2 53 + x.units.natAbs / spacing x.units.natAbs

def signedDigits (x : Binary64) : Nat := x.digits + if x.units < 0 then Nat.pow 2 65 else 0

theorem digits_lt (x : Binary64) : x.digits < Nat.pow 2 65 := by
  have hquotient := div_spacing_lt x.units.natAbs
  have hlog := log2_le_of_lt_unitsLimit (natAbs_units_lt x)
  unfold digits
  calc x.units.natAbs.log2 * Nat.pow 2 53 + x.units.natAbs / spacing x.units.natAbs
      < x.units.natAbs.log2 * Nat.pow 2 53 + Nat.pow 2 53 := Nat.add_lt_add_left hquotient _
    _ ≤ 2098 * Nat.pow 2 53 + Nat.pow 2 53 :=
        Nat.add_le_add_right (Nat.mul_le_mul_right _ hlog) _
    _ ≤ Nat.pow 2 65 := by decide

theorem natAbs_units_eq_of_digits {x y : Binary64} (h : x.digits = y.digits) :
    x.units.natAbs = y.units.natAbs := by
  have hx := div_spacing_lt x.units.natAbs
  have hy := div_spacing_lt y.units.natAbs
  have hxgrid := (representable_natAbs_units x).onGrid
  have hygrid := (representable_natAbs_units y).onGrid
  unfold digits at h
  unfold OnGrid at hxgrid hygrid
  generalize x.units.natAbs = u at *
  generalize y.units.natAbs = v at *
  rw [← Nat.div_mul_cancel hxgrid, ← Nat.div_mul_cancel hygrid]
  generalize u / spacing u = p at *
  generalize v / spacing v = q at *
  have hbase : Nat.pow 2 53 = 9007199254740992 := rfl
  rw [hbase] at h hx hy
  have hlog : u.log2 = v.log2 := by omega
  have hspacing : spacing u = spacing v := by
    unfold spacing
    rw [hlog]
  have hquotient : p = q := by omega
  rw [hquotient, hspacing]

theorem units_eq_of_signedDigits {x y : Binary64} (h : x.signedDigits = y.signedDigits) :
    x.units = y.units := by
  have hx := digits_lt x
  have hy := digits_lt y
  have hbase : Nat.pow 2 65 = 36893488147419103232 := rfl
  unfold signedDigits at h
  rw [hbase] at h hx hy
  have hdigits : x.digits = y.digits := by split_ifs at h <;> omega
  have habs := natAbs_units_eq_of_digits hdigits
  split_ifs at h <;> omega

theorem length_le_of_pairwise_units {values : List Binary64}
    (h : values.Pairwise fun x y => x.units < y.units) : values.length ≤ Nat.pow 2 66 := by
  have hnodup : (values.map signedDigits).Nodup := by
    refine List.pairwise_map.mpr (h.imp fun {x y} hlt heq => ?_)
    have hunits := units_eq_of_signedDigits heq
    omega
  have hbound : ∀ n ∈ values.map signedDigits, n ∈ List.range (Nat.pow 2 66) := by
    intro n hn
    obtain ⟨x, -, rfl⟩ := List.mem_map.mp hn
    have hdigits := digits_lt x
    have hsum : Nat.pow 2 66 = Nat.pow 2 65 + Nat.pow 2 65 := rfl
    rw [List.mem_range, hsum, signedDigits]
    split_ifs <;> omega
  have hlength := (List.subperm_of_subset hnodup hbound).length_le
  rwa [List.length_map, List.length_range] at hlength

/-! ## Whole numbers as doubles -/

theorem mul_unitsPerOne_le {n k : Nat} (hn : n ≤ Nat.pow 2 k) :
    n * unitsPerOne ≤ Nat.pow 2 (k + 1074) * 1 := by
  unfold unitsPerOne
  generalize 1074 = j
  rw [Nat.mul_one]
  calc n * Nat.pow 2 j ≤ Nat.pow 2 k * Nat.pow 2 j := Nat.mul_le_mul_right _ hn
    _ = Nat.pow 2 (k + j) := (Nat.pow_add 2 k j).symm

theorem mul_unitsPerOne_lt {n k : Nat} (hk : k < 1024) (hn : n ≤ Nat.pow 2 k) :
    n * unitsPerOne < unitsLimit := by
  have hle := mul_unitsPerOne_le hn
  rw [Nat.mul_one] at hle
  exact Nat.lt_of_le_of_lt hle (two_pow_lt_unitsLimit (by omega))

theorem ofInt?_of_round {n : Int} {negative : Bool} {u : Nat} {h : Representable u}
    (hround : round (decide (n < 0)) (n.natAbs * unitsPerOne) 1 = finite negative u h) :
    ofInt? n = some (finite negative u h) := by
  -- Unfolding the applied function would have the checker compute the rounding.
  have hdef : ofInt? = ofInt? := rfl
  conv at hdef => rhs; delta ofInt?
  rw [hdef]
  simp only [hround]

theorem isFinite_of_ofInt? {n : Int} {x : Binary64} (h : ofInt? n = some x) :
    x.isFinite = true := by
  have hdef : ofInt? = ofInt? := rfl
  conv at hdef => rhs; delta ofInt?
  rw [hdef] at h
  dsimp only at h
  generalize round (decide (n < 0)) (n.natAbs * unitsPerOne) 1 = rounded at h
  cases rounded with
  | nan => cases h
  | inf s => cases h
  | finite s u hu =>
    cases h
    rfl

/-- Only very large whole numbers have no double. -/
theorem ofInt?_eq_some {n : Int} {k : Nat} (hk : k < 1024) (hn : n.natAbs ≤ Nat.pow 2 k) :
    ∃ x, ofInt? n = some x := by
  have hround := roundUnits_le Nat.one_pos (onGrid_two_pow (k + 1074)) (mul_unitsPerOne_le hn)
  have hlimit : roundUnits (n.natAbs * unitsPerOne) 1 < unitsLimit :=
    Nat.lt_of_le_of_lt hround (two_pow_lt_unitsLimit (by omega))
  exact ⟨_, ofInt?_of_round (round_of_lt hlimit _)⟩

end Binary64
end TreeParty
