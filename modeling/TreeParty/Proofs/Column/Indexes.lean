import TreeParty.Proofs.Column.Order
import TreeParty.Proofs.Loops
import Mathlib.Data.Finset.Card
/-!
# Sorted indexes

The sorted indexes of a column are all its positions, with the numbers in ascending order, NaN
behind them, and ties in the order in which the samples came. The samples at these positions, with
repetitions dropped, are the distinct values: one for each number that occurs, each larger than the
one before.
-/

set_option autoImplicit false

namespace TreeParty

namespace Binary64

variable {x y : Binary64}

/-- Whether a double has to stand in front of another: numbers ascend, and NaN comes last. -/
def IsBelow (x y : Binary64) : Prop := x.IsLess y ∨ x.isNaN = false ∧ y.isNaN = true

/-- Equal numbers tie, the two zeros among them, and so do NaNs. -/
def Ties (x y : Binary64) : Prop := x.same y = true ∨ x.isNaN = true ∧ y.isNaN = true

instance (x y : Binary64) : Decidable (IsLess x y) := inferInstanceAs (Decidable (_ ∧ _))

instance (x y : Binary64) : Decidable (IsBelow x y) := inferInstanceAs (Decidable (_ ∨ _))

instance (x y : Binary64) : Decidable (Ties x y) := inferInstanceAs (Decidable (_ ∨ _))

theorem isBelow_or_ties (hxy : Column.precedes x y = true) : x.IsBelow y ∨ x.Ties y := by
  unfold Column.precedes at hxy
  cases hy : y.isNaN with
  | true =>
    cases hx : x.isNaN with
    | true => exact .inr (.inr ⟨hx, hy⟩)
    | false => exact .inl (.inr ⟨hx, hy⟩)
  | false =>
    rw [hy, Bool.false_or] at hxy
    cases hsame : x.same y with
    | true => exact .inr (.inl hsame)
    | false => exact .inl (.inl (isLess_of_le hxy hsame))

theorem IsBelow.not_precedes (h : x.IsBelow y) : Column.precedes y x = false := by
  unfold Column.precedes
  rcases h with ⟨hle, hlt⟩ | ⟨hx, hy⟩
  · rw [hlt, (le_iff.mp hle).1, Bool.false_or]
  · have hnot : y.le x = false := by
      rw [Bool.eq_false_iff, ne_eq, le_iff, hy]
      simp
    rw [hx, hnot, Bool.false_or]

theorem IsBelow.asymm (h : x.IsBelow y) : ¬ y.IsBelow x := by
  intro hback
  rcases Column.precedes_total x y with hprecedes | hprecedes
  · rw [hback.not_precedes] at hprecedes
    cases hprecedes
  · rw [h.not_precedes] at hprecedes
    cases hprecedes

theorem Ties.precedes (h : x.Ties y) : Column.precedes y x = true := by
  unfold Column.precedes
  rcases h with hsame | ⟨hx, -⟩
  · rw [(same_iff.mp hsame).2, Bool.or_true]
  · rw [hx, Bool.true_or]

theorem Ties.symm (h : x.Ties y) : y.Ties x := by
  rcases h with hsame | ⟨hx, hy⟩
  · exact .inl (same_comm x y ▸ hsame)
  · exact .inr ⟨hy, hx⟩

theorem Ties.not_isBelow (h : x.Ties y) : ¬ x.IsBelow y := by
  intro hbelow
  have hprecedes := h.precedes
  rw [hbelow.not_precedes] at hprecedes
  cases hprecedes

def rank (x : Binary64) : ℕ × ℤ := (x.tier, x.units)

/-- Numbers are equal exactly if their places in the order are. -/
theorem same_iff_rank_eq (hx : x.isNaN = false) (hy : y.isNaN = false) :
    x.same y = true ↔ x.rank = y.rank := by
  simp only [same_iff, le_iff, rank, Prod.mk.injEq, hx, hy, true_and]
  omega

end Binary64

/-! ## Stable sorting -/

section Stable

variable {α : Type}

theorem snd_eq_of_mem_zipIdx {items : List α} {e : (α × ℕ) × ℕ} (he : e ∈ items.zipIdx.zipIdx) :
    e.1.2 = e.2 := by
  obtain ⟨⟨x, i⟩, k⟩ := e
  rw [List.mk_mem_zipIdx_iff_getElem?, List.getElem?_zipIdx, Option.map_eq_some_iff] at he
  obtain ⟨y, -, hpair⟩ := he
  simpa [eq_comm] using (Prod.mk.inj hpair).2

/-- Items sorted together with their positions: where two of them tie, the positions ascend. -/
theorem pairwise_mergeSort_zipIdx {le : α → α → Bool}
    (htrans : ∀ x y z, le x y = true → le y z = true → le x z = true)
    (htotal : ∀ x y, (le x y || le y x) = true) (items : List α) :
    (items.zipIdx.mergeSort fun a b => le a.1 b.1).Pairwise
      fun a b => le a.1 b.1 = true ∧ (le b.1 a.1 = true → a.2 ≤ b.2) := by
  -- The library states stability by a second numbering, which agrees with the first.
  have hnumbered := List.pairwise_mergeSort
    (List.zipIdxLE_trans fun (a b c : α × ℕ) => htrans a.1 b.1 c.1)
    (List.zipIdxLE_total fun (a b : α × ℕ) => htotal a.1 b.1) items.zipIdx.zipIdx
  rw [← List.mergeSort_zipIdx, List.pairwise_map]
  refine hnumbered.imp_of_mem fun {a b} ha hb hab => ?_
  rw [snd_eq_of_mem_zipIdx (List.mem_mergeSort.mp ha),
    snd_eq_of_mem_zipIdx (List.mem_mergeSort.mp hb)]
  unfold List.zipIdxLE at hab
  split_ifs at hab with hle hback
  · exact ⟨hle, fun _ => of_decide_eq_true hab⟩
  · exact ⟨hle, fun h => absurd h hback⟩

end Stable

namespace Column

open Binary64

variable {column : List Binary64}

/-! ## Indexes -/

/-- Whether positions are those of a column in ascending order, ties in their original order. -/
structure IsStableOrder (column : List Binary64) (indexes : List ℕ) : Prop where
  perm : indexes.Perm (List.range column.length)
  ascending : indexes.Pairwise fun i j => ∀ x ∈ column[i]?, ∀ y ∈ column[j]?,
    x.IsBelow y ∨ x.Ties y ∧ i < j

theorem sortIndexes_perm (column : List Binary64) :
    (sortIndexes column).Perm (List.range column.length) := by
  have hperm := (List.mergeSort_perm column.zipIdx fun a b => precedes a.1 b.1).map Prod.snd
  rwa [List.zipIdx_map_snd, ← List.range_eq_range'] at hperm

theorem nodup_sortIndexes (column : List Binary64) : (sortIndexes column).Nodup :=
  (sortIndexes_perm column).nodup_iff.mpr List.nodup_range

theorem isStableOrder_sortIndexes (column : List Binary64) :
    IsStableOrder column (sortIndexes column) where
  perm := sortIndexes_perm column
  ascending := by
    have hstable := pairwise_mergeSort_zipIdx (fun x y z => @precedes_trans x y z)
      (fun x y => by simpa using precedes_total x y) column
    have hdifferent := List.pairwise_map.mp (nodup_sortIndexes column)
    apply List.pairwise_map.mpr
    refine (hstable.and hdifferent).imp_of_mem ?_
    rintro ⟨x, i⟩ ⟨y, j⟩ hi hj ⟨⟨hprecedes, htie⟩, hne⟩ x' hx y' hy
    rw [List.mem_mergeSort, List.mk_mem_zipIdx_iff_getElem?] at hi hj
    obtain rfl : x = x' := Option.some.inj (hi.symm.trans hx)
    obtain rfl : y = y' := Option.some.inj (hj.symm.trans hy)
    rcases isBelow_or_ties hprecedes with hbelow | hties
    · exact .inl hbelow
    · exact .inr ⟨hties, lt_of_le_of_ne (htie hties.precedes) hne⟩

/-- There is only one such order. -/
theorem IsStableOrder.unique {indexes others : List ℕ} (h : IsStableOrder column indexes)
    (h' : IsStableOrder column others) : indexes = others := by
  refine List.Perm.eq_of_pairwise ?_ h.ascending h'.ascending (h.perm.trans h'.perm.symm)
  intro i j hi hj hij hji
  have hx := List.getElem?_eq_getElem (List.mem_range.mp (h.perm.mem_iff.mp hi))
  have hy := List.getElem?_eq_getElem (List.mem_range.mp (h'.perm.mem_iff.mp hj))
  rcases hij _ hx _ hy with hbelow | ⟨hties, hlt⟩
  · rcases hji _ hy _ hx with hbelow' | ⟨hties', -⟩
    · exact absurd hbelow' hbelow.asymm
    · exact absurd hbelow hties'.symm.not_isBelow
  · rcases hji _ hy _ hx with hbelow' | ⟨-, hlt'⟩
    · exact absurd hbelow' hties.symm.not_isBelow
    · omega

theorem select_sortIndexes (column : List Binary64) :
    select column ((sortIndexes column).map fun i : ℕ => (i : ℤ)) = .ok (sorted column) := by
  unfold select sortIndexes sorted
  rw [mapM_eq_ok_iff, List.map_map, List.forall₂_map_left_iff, List.forall₂_map_right_iff,
    List.forall₂_same]
  rintro ⟨x, i⟩ he
  rw [List.mem_mergeSort, List.mk_mem_zipIdx_iff_getElem?] at he
  simp only [Function.comp_apply, Position.get?_natCast, he]

/-! ## Distinct values -/

theorem length_distinctValues_eq (hnan : ∀ x ∈ column, x.isNaN = false) :
    (distinctValues column).length = (column.map rank).toFinset.card := by
  have hnan' : ∀ x ∈ distinctValues column, x.isNaN = false := fun x hx =>
    hnan x (mem_column_of_mem_distinctValues hx)
  have hnodup : ((distinctValues column).map rank).Nodup := by
    apply List.pairwise_map.mpr
    refine (pairwise_isLess_distinctValues hnan).imp_of_mem fun {x y} hx hy hlt heq => ?_
    rw [← same_iff_rank_eq (hnan' x hx) (hnan' y hy), hlt.same_eq] at heq
    cases heq
  have hranks : (column.map rank).toFinset = ((distinctValues column).map rank).toFinset := by
    apply Finset.Subset.antisymm
    · intro r hr
      obtain ⟨x, hx, rfl⟩ := List.mem_map.mp (List.mem_toFinset.mp hr)
      obtain ⟨y, hy, hyx⟩ := exists_same_distinctValues hnan x hx
      rw [same_iff_rank_eq (hnan' y hy) (hnan x hx)] at hyx
      exact List.mem_toFinset.mpr (List.mem_map.mpr ⟨y, hy, hyx⟩)
    · intro r hr
      obtain ⟨y, hy, rfl⟩ := List.mem_map.mp (List.mem_toFinset.mp hr)
      exact List.mem_toFinset.mpr (List.mem_map_of_mem (mem_column_of_mem_distinctValues hy))
  rw [hranks, List.toFinset_card_of_nodup hnodup, List.length_map]

/-- Sorting a column is stable with NaN last. Dropping the repetitions from the samples at the
sorted indexes of a column without NaN leaves one sample for each number, in ascending order. -/
theorem sortIndexes_isStable (column : List Binary64) :
    (∀ indexes, IsStableOrder column indexes ↔ indexes = sortIndexes column) ∧
    ∃ values, (select column ((sortIndexes column).map fun i : ℕ => (i : ℤ))).map dropRepeats =
        .ok values ∧
      ((∀ x ∈ column, x.isNaN = false) →
        values.Pairwise IsLess ∧ (∀ x ∈ column, ∃ v ∈ values, v.same x = true) ∧
        (∀ v ∈ values, v ∈ column) ∧ values.length = (column.map rank).toFinset.card) := by
  have hstable := isStableOrder_sortIndexes column
  refine ⟨fun indexes => ⟨fun h => h.unique hstable, fun h => h ▸ hstable⟩,
    distinctValues column, ?_, fun hnan => ?_⟩
  · rw [select_sortIndexes]
    rfl
  · exact ⟨pairwise_isLess_distinctValues hnan, exists_same_distinctValues hnan,
      fun v hv => mem_column_of_mem_distinctValues hv, length_distinctValues_eq hnan⟩

/-- Of the two zeros the first is kept, and the infinities stand at the ends. -/
theorem sortIndexes_isStable_zeros :
    let column : List Binary64 := [inf false, zero.neg, oneHalf, zero, inf true, oneHalf]
    let values : List Binary64 := [inf true, zero.neg, oneHalf, inf false]
    (∀ x ∈ column, x.isNaN = false) ∧ sortIndexes column = [4, 1, 3, 2, 5, 0] ∧
      (select column [4, 1, 3, 2, 5, 0]).map dropRepeats = .ok values ∧
      values.Pairwise IsLess ∧ values.length = (column.map rank).toFinset.card := by
  intro column values
  have hnan : ∀ x ∈ column, x.isNaN = false := by decide +kernel
  have horder : IsStableOrder column [4, 1, 3, 2, 5, 0] := ⟨by decide, by decide +kernel⟩
  have hselect : select column [4, 1, 3, 2, 5, 0] =
      .ok [inf true, zero.neg, zero, oneHalf, oneHalf, inf false] := rfl
  have hdrop : dropRepeats [inf true, zero.neg, zero, oneHalf, oneHalf, inf false] = values := by
    decide +kernel
  have hvalues : (select column [4, 1, 3, 2, 5, 0]).map dropRepeats = .ok values := by
    rw [hselect, ← hdrop]
    rfl
  obtain ⟨hunique, found, hfound, hdistinct⟩ := sortIndexes_isStable column
  have hindexes := (hunique _).mp horder
  rw [← hindexes] at hfound ⊢
  obtain rfl : values = found := Except.ok.inj (hvalues.symm.trans hfound)
  obtain ⟨hless, -, -, hlength⟩ := hdistinct hnan
  exact ⟨hnan, rfl, hvalues, hless, hlength⟩

end Column
end TreeParty
