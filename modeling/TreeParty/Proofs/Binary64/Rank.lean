import TreeParty.Binary64.Arith
import TreeParty.Column.Order
/-!
# The order of doubles

Doubles stand in four tiers: minus infinity, the finite ones, infinity and NaN. A column is ordered
by tier and, among finite doubles, by units. Comparison is that order without NaN, which compares
with nothing, and equality of numbers is comparison both ways.
-/

set_option autoImplicit false

namespace TreeParty
namespace Binary64

theorem natAbs_units_finite (negative : Bool) (u : Nat) (h : Representable u) :
    (finite negative u h).units.natAbs = u := by
  cases negative <;> simp [units]

theorem natAbs_units_lt (x : Binary64) : x.units.natAbs < unitsLimit := by
  cases x with
  | nan => exact unitsLimit_pos
  | inf negative => exact unitsLimit_pos
  | finite negative u h =>
    rw [natAbs_units_finite]
    exact h.1

theorem representable_natAbs_units (x : Binary64) : Representable x.units.natAbs := by
  cases x with
  | nan => exact representable_zero
  | inf negative => exact representable_zero
  | finite negative u h =>
    rw [natAbs_units_finite]
    exact h

def tier : Binary64 → Nat
  | inf true => 0
  | finite .. => 1
  | inf false => 2
  | nan => 3

theorem tier_eq_one {x : Binary64} (hx : x.isFinite = true) : x.tier = 1 := by
  cases x <;> simp [isFinite] at hx
  rfl

theorem le_finite {x y : Binary64} (hx : x.isFinite = true) (hy : y.isFinite = true) :
    x.le y = true ↔ x.units ≤ y.units := by
  cases x <;> cases y <;> simp [isFinite, le] at hx hy ⊢

theorem same_finite {x y : Binary64} (hx : x.isFinite = true) (hy : y.isFinite = true) :
    x.same y = true ↔ x.units = y.units := by
  rw [same, Bool.and_eq_true, le_finite hx hy, le_finite hy hx]
  omega

/-! ## Comparisons of numbers -/

theorem le_iff {x y : Binary64} : x.le y = true ↔
    x.isNaN = false ∧ y.isNaN = false ∧
      (x.tier < y.tier ∨ x.tier = y.tier ∧ x.units ≤ y.units) := by
  rcases x with _ | (_ | _) | ⟨s, u, hu⟩ <;> rcases y with _ | (_ | _) | ⟨t, v, hv⟩ <;>
    simp [le, tier, isNaN]

protected theorem le_trans {x y z : Binary64} (hxy : x.le y = true) (hyz : y.le z = true) :
    x.le z = true := by
  rw [le_iff] at hxy hyz ⊢
  exact ⟨hxy.1, hyz.2.1, by omega⟩

protected theorem le_total {x y : Binary64} (hx : x.isNaN = false) (hy : y.isNaN = false) :
    x.le y = true ∨ y.le x = true := by
  rw [le_iff, le_iff]
  simp only [hx, hy, true_and]
  omega

theorem isNaN_of_isFinite {x : Binary64} (hx : x.isFinite = true) : x.isNaN = false := by
  cases x <;> simp [isFinite, isNaN] at hx ⊢

theorem same_iff {x y : Binary64} : x.same y = true ↔ x.le y = true ∧ y.le x = true := by
  rw [same, Bool.and_eq_true]

theorem same_self {x : Binary64} (hx : x.isNaN = false) : x.same x = true := by
  have hle : x.le x = true := (Binary64.le_total hx hx).elim id id
  exact same_iff.mpr ⟨hle, hle⟩

theorem same_comm (x y : Binary64) : x.same y = y.same x := Bool.and_comm _ _

theorem same_trans {x y z : Binary64} (hxy : x.same y = true) (hyz : y.same z = true) :
    x.same z = true := by
  rw [same_iff] at hxy hyz ⊢
  exact ⟨Binary64.le_trans hxy.1 hyz.1, Binary64.le_trans hyz.2 hxy.2⟩

theorem le_congr_left {x y z : Binary64} (h : x.same y = true) : x.le z = y.le z := by
  obtain ⟨hxy, hyx⟩ := same_iff.mp h
  exact Bool.eq_iff_iff.mpr ⟨Binary64.le_trans hyx, Binary64.le_trans hxy⟩

theorem le_congr_right {x y z : Binary64} (h : y.same z = true) : x.le y = x.le z := by
  obtain ⟨hyz, hzy⟩ := same_iff.mp h
  exact Bool.eq_iff_iff.mpr
    ⟨fun hy => Binary64.le_trans hy hyz, fun hz => Binary64.le_trans hz hzy⟩

theorem same_congr {x x' y y' : Binary64} (hx : x.same x' = true) (hy : y.same y' = true) :
    x.same y = x'.same y' := by
  rw [same, same, le_congr_left hx, le_congr_right hy, le_congr_left hy, le_congr_right hx]

/-! ## Strict comparison -/

def IsLess (x y : Binary64) : Prop := x.le y = true ∧ y.le x = false

theorem isLess_finite {x y : Binary64} (hx : x.isFinite = true) (hy : y.isFinite = true) :
    x.IsLess y ↔ x.units < y.units := by
  rw [IsLess, Bool.eq_false_iff, ne_eq, le_finite hx hy, le_finite hy hx]
  omega

theorem isLess_of_le {x y : Binary64} (hle : x.le y = true) (hother : x.same y = false) :
    x.IsLess y := by
  rw [same, hle, Bool.true_and] at hother
  exact ⟨hle, hother⟩

theorem IsLess.trans {x y z : Binary64} (hxy : x.IsLess y) (hyz : y.IsLess z) : x.IsLess z := by
  refine ⟨Binary64.le_trans hxy.1 hyz.1, Bool.eq_false_iff.mpr fun hzx => ?_⟩
  have hzy : z.le y = true := Binary64.le_trans hzx hxy.1
  rw [hyz.2] at hzy
  cases hzy

theorem IsLess.of_same {x y z : Binary64} (hyz : y.IsLess z) (hxy : x.same y = true) :
    x.IsLess z := by
  rw [IsLess, le_congr_left hxy, le_congr_right hxy]
  exact hyz

theorem IsLess.same_eq {x y : Binary64} (hxy : x.IsLess y) : x.same y = false := by
  rw [same, hxy.2, Bool.and_false]

end Binary64

namespace Column

open Binary64

theorem precedes_iff {x y : Binary64} :
    precedes x y = true ↔ x.tier < y.tier ∨ x.tier = y.tier ∧ x.units ≤ y.units := by
  rcases x with _ | (_ | _) | ⟨s, u, hu⟩ <;> rcases y with _ | (_ | _) | ⟨t, v, hv⟩ <;>
    simp [precedes, le, tier, isNaN]

theorem precedes_trans {x y z : Binary64} (hxy : precedes x y = true)
    (hyz : precedes y z = true) : precedes x z = true := by
  rw [precedes_iff] at hxy hyz ⊢
  omega

theorem precedes_total (x y : Binary64) : precedes x y = true ∨ precedes y x = true := by
  rw [precedes_iff, precedes_iff]
  omega

end Column
end TreeParty
