import TreeParty.Proofs.Binary64.Rank
import Mathlib.Data.List.Perm.Basic
/-!
# Sorted columns

Sorting permutes a column into ascending order. Without NaN the distinct values ascend strictly,
they are values of the column, and every value of the column is among them.
-/

set_option autoImplicit false

namespace TreeParty
namespace Column

open Binary64

theorem sorted_perm (column : List Binary64) : (sorted column).Perm column := by
  have hperm := (List.mergeSort_perm column.zipIdx fun a b => precedes a.1 b.1).map Prod.fst
  rwa [List.zipIdx_map_fst] at hperm

theorem mem_sorted {column : List Binary64} {x : Binary64} : x ∈ sorted column ↔ x ∈ column :=
  (sorted_perm column).mem_iff

@[simp] theorem length_sorted (column : List Binary64) :
    (sorted column).length = column.length := (sorted_perm column).length_eq

theorem pairwise_sorted (column : List Binary64) :
    (sorted column).Pairwise fun x y => precedes x y = true := by
  have hsorted := List.pairwise_mergeSort
    (fun (a b c : Binary64 × Nat) => @precedes_trans a.1 b.1 c.1)
    (fun a b => by simpa using precedes_total a.1 b.1) column.zipIdx
  exact List.pairwise_map.mpr hsorted

theorem sorted_of_pairwise {column : List Binary64}
    (h : column.Pairwise fun x y => precedes x y = true) : sorted column = column := by
  have hpairs : column.zipIdx.Pairwise fun a b => precedes a.1 b.1 = true := by
    rw [← List.zipIdx_map_fst 0 column] at h
    exact List.pairwise_map.mp h
  unfold sorted
  rw [List.mergeSort_of_pairwise hpairs, List.zipIdx_map_fst]

theorem distinctValues_of_pairwise {column : List Binary64}
    (h : column.Pairwise fun x y => precedes x y = true) :
    distinctValues column = dropRepeats column :=
  congrArg dropRepeats (sorted_of_pairwise h)

/-! ## Distinct values -/

theorem changes_sublist (previous : Binary64) (values : List Binary64) :
    (changes previous values).Sublist values := by
  induction values generalizing previous with
  | nil => exact List.Sublist.slnil
  | cons x rest ih =>
    rw [changes]
    by_cases hsame : previous.same x = true
    · rw [if_pos hsame]
      exact (ih x).cons x
    · rw [if_neg hsame]
      exact (ih x).cons_cons x

theorem dropRepeats_sublist (values : List Binary64) : (dropRepeats values).Sublist values := by
  cases values with
  | nil => exact List.Sublist.slnil
  | cons x rest => exact (changes_sublist x rest).cons_cons x

theorem mem_column_of_mem_distinctValues {column : List Binary64} {x : Binary64}
    (hx : x ∈ distinctValues column) : x ∈ column :=
  mem_sorted.mp ((dropRepeats_sublist _).subset hx)

theorem length_distinctValues_le (column : List Binary64) :
    (distinctValues column).length ≤ column.length := by
  rw [← length_sorted column]
  exact (dropRepeats_sublist _).length_le

theorem pairwise_changes {previous : Binary64} {values : List Binary64}
    (hnan : ∀ x ∈ previous :: values, x.isNaN = false)
    (hsorted : (previous :: values).Pairwise fun x y => precedes x y = true) :
    (previous :: changes previous values).Pairwise IsLess := by
  induction values generalizing previous with
  | nil => exact List.pairwise_singleton _ _
  | cons x rest ih =>
    obtain ⟨hprevious, hrest⟩ := List.pairwise_cons.mp hsorted
    have hrestNaN : ∀ y ∈ x :: rest, y.isNaN = false := fun y hy =>
      hnan y (List.mem_cons_of_mem previous hy)
    have hstep := ih hrestNaN hrest
    obtain ⟨hbelow, hchanges⟩ := List.pairwise_cons.mp hstep
    have hle : previous.le x = true := by
      have hprecedes := hprevious x List.mem_cons_self
      rwa [precedes, hrestNaN x List.mem_cons_self, Bool.false_or] at hprecedes
    rw [changes]
    cases hsame : previous.same x with
    | true =>
      rw [if_pos rfl]
      exact List.pairwise_cons.mpr ⟨fun y hy => (hbelow y hy).of_same hsame, hchanges⟩
    | false =>
      have hless : previous.IsLess x := isLess_of_le hle hsame
      rw [if_neg Bool.false_ne_true]
      refine List.pairwise_cons.mpr ⟨fun y hy => ?_, hstep⟩
      rcases List.mem_cons.mp hy with rfl | hmem
      · exact hless
      · exact hless.trans (hbelow y hmem)

theorem pairwise_isLess_distinctValues {column : List Binary64}
    (hnan : ∀ x ∈ column, x.isNaN = false) : (distinctValues column).Pairwise IsLess := by
  have hsortedNaN : ∀ x ∈ sorted column, x.isNaN = false := fun x hx =>
    hnan x (mem_sorted.mp hx)
  have hsorted := pairwise_sorted column
  unfold distinctValues
  cases hvalues : sorted column with
  | nil => exact List.Pairwise.nil
  | cons first rest =>
    rw [hvalues] at hsortedNaN hsorted
    exact pairwise_changes hsortedNaN hsorted

theorem pairwise_distinctValues {column : List Binary64}
    (hfinite : ∀ x ∈ column, x.isFinite = true) :
    (distinctValues column).Pairwise fun x y => x.units < y.units := by
  have hless := pairwise_isLess_distinctValues fun x hx => isNaN_of_isFinite (hfinite x hx)
  refine hless.imp_of_mem fun {x y} hx hy hlt => ?_
  exact (isLess_finite (hfinite x (mem_column_of_mem_distinctValues hx))
    (hfinite y (mem_column_of_mem_distinctValues hy))).mp hlt

theorem exists_same_changes {previous : Binary64} {values : List Binary64}
    (hnan : ∀ x ∈ previous :: values, x.isNaN = false) :
    ∀ x ∈ previous :: values, ∃ y ∈ previous :: changes previous values, y.same x = true := by
  induction values generalizing previous with
  | nil => exact fun x hx => ⟨x, hx, same_self (hnan x hx)⟩
  | cons x rest ih =>
    have hrest : ∀ y ∈ x :: rest, y.isNaN = false := fun y hy =>
      hnan y (List.mem_cons_of_mem previous hy)
    rw [changes]
    intro z hz
    rcases List.mem_cons.mp hz with rfl | hz
    · exact ⟨z, List.mem_cons_self, same_self (hnan z List.mem_cons_self)⟩
    obtain ⟨y, hy, hyz⟩ := ih hrest z hz
    cases hsame : previous.same x with
    | true =>
      rw [if_pos rfl]
      rcases List.mem_cons.mp hy with rfl | hy
      · exact ⟨previous, List.mem_cons_self, same_trans hsame hyz⟩
      · exact ⟨y, List.mem_cons_of_mem previous hy, hyz⟩
    | false =>
      rw [if_neg Bool.false_ne_true]
      exact ⟨y, List.mem_cons_of_mem previous hy, hyz⟩

theorem exists_same_distinctValues {column : List Binary64}
    (hnan : ∀ x ∈ column, x.isNaN = false) :
    ∀ x ∈ column, ∃ y ∈ distinctValues column, y.same x = true := by
  have hsortedNaN : ∀ x ∈ sorted column, x.isNaN = false := fun x hx =>
    hnan x (mem_sorted.mp hx)
  intro x hx
  have hmem : x ∈ sorted column := mem_sorted.mpr hx
  unfold distinctValues
  cases hvalues : sorted column with
  | nil =>
    rw [hvalues] at hmem
    exact absurd hmem List.not_mem_nil
  | cons first rest =>
    rw [hvalues] at hsortedNaN hmem
    exact exists_same_changes hsortedNaN x hmem

theorem exists_units_distinctValues {column : List Binary64}
    (hfinite : ∀ x ∈ column, x.isFinite = true) :
    ∀ x ∈ column, ∃ y ∈ distinctValues column, y.units = x.units := by
  intro x hx
  obtain ⟨y, hy, hyx⟩ :=
    exists_same_distinctValues (fun z hz => isNaN_of_isFinite (hfinite z hz)) x hx
  have hyFinite := hfinite y (mem_column_of_mem_distinctValues hy)
  exact ⟨y, hy, (same_finite hyFinite (hfinite x hx)).mp hyx⟩

end Column
end TreeParty
