import TreeParty.Proofs.Column.Order
import Mathlib
/-!
# Ranks in a sorted column

In a sorted column the samples up to a value, and those below it, stand in front. So their number is
read off from any two neighbours that the value separates.
-/

set_option autoImplicit false

namespace TreeParty
namespace Column

open Binary64

section Prefix

variable {α : Type} {P : α → Bool}

/-- If what stands before a member is a member too, the members are those at the places below their
number. -/
theorem holds_iff_lt_countP {l : List α} {i : ℕ} {x : α}
    (hdown : l.Pairwise fun a b => P b = true → P a = true) (hx : l[i]? = some x) :
    P x = true ↔ i < l.countP P := by
  induction l generalizing i with
  | nil => cases hx
  | cons a rest ih =>
    obtain ⟨hhead, hrest⟩ := List.pairwise_cons.mp hdown
    by_cases ha : P a = true
    · rw [List.countP_cons_of_pos ha]
      cases i with
      | zero =>
        cases hx
        exact ⟨fun _ => Nat.succ_pos _, fun _ => ha⟩
      | succ i =>
        rw [ih hrest hx]
        omega
    · have hnone : rest.countP P = 0 :=
        List.countP_eq_zero.mpr fun b hb hPb => ha (hhead b hb hPb)
      rw [List.countP_cons_of_neg ha, hnone]
      cases i with
      | zero =>
        cases hx
        exact ⟨fun h => absurd h ha, fun h => absurd h (Nat.lt_irrefl 0)⟩
      | succ i =>
        have hmem : x ∈ rest := List.mem_of_getElem? hx
        exact ⟨fun h => absurd (hhead x hmem h) ha, fun h => absurd h (Nat.not_lt_zero _)⟩

end Prefix

variable {column : List Binary64}

theorem isFinite_sorted (hfinite : ∀ x ∈ column, x.isFinite = true) :
    ∀ x ∈ sorted column, x.isFinite = true := fun x hx => hfinite x (mem_sorted.mp hx)

theorem pairwise_units_sorted (hfinite : ∀ x ∈ column, x.isFinite = true) :
    (sorted column).Pairwise fun x y => x.units ≤ y.units := by
  have hsorted := pairwise_sorted column
  refine hsorted.imp_of_mem fun {x y} hx hy h => ?_
  rw [precedes_iff, tier_eq_one (isFinite_sorted hfinite x hx),
    tier_eq_one (isFinite_sorted hfinite y hy)] at h
  omega

theorem countP_sorted (P : Binary64 → Bool) : (sorted column).countP P = column.countP P :=
  (sorted_perm column).countP_eq P

variable {t x : Binary64} {i : ℕ}

/-- A sorted sample is at most a value exactly if its place is below the number of such samples. -/
theorem le_iff_lt_countP (hfinite : ∀ x ∈ column, x.isFinite = true) (ht : t.isFinite = true)
    (hx : (sorted column)[i]? = some x) :
    x.le t = true ↔ i < column.countP (·.le t) := by
  rw [← countP_sorted]
  have hdown : (sorted column).Pairwise fun a b => b.le t = true → a.le t = true := by
    refine (pairwise_units_sorted hfinite).imp_of_mem ?_
    intro a b ha hb hle h
    rw [le_finite (isFinite_sorted hfinite b hb) ht] at h
    rw [le_finite (isFinite_sorted hfinite a ha) ht]
    omega
  exact holds_iff_lt_countP hdown hx

theorem not_le_iff_lt_countP (hfinite : ∀ x ∈ column, x.isFinite = true) (ht : t.isFinite = true)
    (hx : (sorted column)[i]? = some x) :
    t.le x = false ↔ i < column.countP fun x => !t.le x := by
  rw [← countP_sorted]
  have hdown : (sorted column).Pairwise fun a b => (!t.le b) = true → (!t.le a) = true := by
    refine (pairwise_units_sorted hfinite).imp_of_mem ?_
    intro a b ha hb hle h
    have hta := le_finite ht (isFinite_sorted hfinite a ha)
    have htb := le_finite ht (isFinite_sorted hfinite b hb)
    rw [Bool.not_eq_true'] at h ⊢
    rw [Bool.eq_false_iff, ne_eq, htb] at h
    rw [Bool.eq_false_iff, ne_eq, hta]
    omega
  rw [← holds_iff_lt_countP hdown hx, Bool.not_eq_true']

/-- There are as many distinct values as numbers of units. -/
theorem card_units_le (hfinite : ∀ x ∈ column, x.isFinite = true) :
    (column.map units).toFinset.card ≤ (distinctValues column).length := by
  have hsub : (column.map units).toFinset ⊆ ((distinctValues column).map units).toFinset := by
    intro u hu
    obtain ⟨x, hx, rfl⟩ := List.mem_map.mp (List.mem_toFinset.mp hu)
    obtain ⟨y, hy, hunits⟩ := exists_units_distinctValues hfinite x hx
    exact List.mem_toFinset.mpr (List.mem_map.mpr ⟨y, hy, hunits⟩)
  calc (column.map units).toFinset.card ≤ ((distinctValues column).map units).toFinset.card :=
        Finset.card_le_card hsub
    _ ≤ ((distinctValues column).map units).length := List.toFinset_card_le _
    _ = (distinctValues column).length := List.length_map _

end Column
end TreeParty
