import TreeParty.Proofs.Column.Thresholds
import Mathlib
/-!
# The bins of a continuous column

The cuts divide a column into one bin more than there are cuts. For distinct whole samples a cut
stands strictly below the upper one of its two samples, so the number of samples up to it is known
exactly, and with it the size of each bin. Every cut stands one sample behind the boundary of bins
of equal size: the first bin has one sample more than its share, and the last one has one less than
what is left for it.
-/

set_option autoImplicit false

namespace TreeParty

open Binary64

namespace SplitParams

open Column

/-! ## Bins -/

/-- Whether a value is up to the cut behind a bin. Behind the last bin there is none. -/
def isUpTo (cuts : List Binary64) (i : ℕ) (v : Binary64) : Bool := cuts[i]?.all fun t => v.le t

def inBin (cuts : List Binary64) : ℕ → Binary64 → Bool
  | 0, v => isUpTo cuts 0 v
  | i + 1, v => !isUpTo cuts i v && isUpTo cuts (i + 1) v

def binSize (cuts column : List Binary64) (i : ℕ) : ℕ := column.countP (inBin cuts i)

variable {limit i : ℕ} {column : List Binary64} {t : Binary64}

theorem isUpTo_of_some {cuts : List Binary64} (ht : cuts[i]? = some t) :
    isUpTo cuts i = (·.le t) := by
  unfold isUpTo
  rw [ht]
  rfl

theorem isUpTo_of_none {cuts : List Binary64} (hnone : cuts[i]? = none) :
    isUpTo cuts i = fun _ => true := by
  unfold isUpTo
  rw [hnone]
  rfl

theorem countP_not_and_add {α : Type} {P Q : α → Bool} {l : List α}
    (hPQ : ∀ x ∈ l, P x = true → Q x = true) :
    l.countP (fun x => !P x && Q x) + l.countP P = l.countP Q := by
  induction l with
  | nil => rfl
  | cons x rest ih =>
    have hrest := ih fun y hy => hPQ y (List.mem_cons_of_mem x hy)
    have hx := hPQ x List.mem_cons_self
    rw [List.countP_cons, List.countP_cons, List.countP_cons]
    cases hP : P x with
    | false =>
      rw [Bool.not_false, Bool.true_and, if_neg Bool.false_ne_true]
      omega
    | true =>
      rw [hx hP, Bool.not_true, Bool.false_and, if_neg Bool.false_ne_true, if_pos rfl]
      omega

theorem binSize_succ_add {cuts : List Binary64}
    (hnested : ∀ x ∈ column, isUpTo cuts i x = true → isUpTo cuts (i + 1) x = true) :
    binSize cuts column (i + 1) + column.countP (isUpTo cuts i) =
      column.countP (isUpTo cuts (i + 1)) :=
  countP_not_and_add hnested

/-! ## Distinct whole samples -/

/-- Whether the samples are distinct whole numbers, and so small that their sums are exact. -/
structure IsDistinctWhole (column : List Binary64) : Prop where
  whole : ∀ x ∈ column, ∃ k : ℤ, k.natAbs < 2 ^ 51 ∧ x.equalsInt k = true
  distinct : column.Pairwise fun x y => x.same y = false

theorem equalsInt_iff {x : Binary64} {k : ℤ} :
    x.equalsInt k = true ↔ x.isFinite = true ∧ x.units = k * unitsPerOne := by
  unfold equalsInt
  rw [Bool.and_eq_true, beq_iff_eq]

namespace IsDistinctWhole

theorem isFinite (h : IsDistinctWhole column) : ∀ x ∈ column, x.isFinite = true := by
  intro x hx
  obtain ⟨k, -, hk⟩ := h.whole x hx
  exact (equalsInt_iff.mp hk).1

theorem midpoint_exact (h : IsDistinctWhole column) {x y : Binary64} (hx : x ∈ column)
    (hy : y ∈ column) :
    (x.add y).isFinite = true ∧ (x.midpoint y).units * 2 = x.units + y.units := by
  obtain ⟨a, ha, hxa⟩ := h.whole x hx
  obtain ⟨b, hb, hyb⟩ := h.whole y hy
  have hsmall : (a + b).natAbs ≤ 9007199254740992 := by omega
  exact midpoint_whole (h.isFinite x hx) (h.isFinite y hy) (equalsInt_iff.mp hxa).2
    (equalsInt_iff.mp hyb).2 hsmall

theorem hasFiniteSums (h : IsDistinctWhole column) : HasFiniteSums column :=
  fun _ hx _ hy => (h.midpoint_exact hx hy).1

theorem units_ne (h : IsDistinctWhole column) : column.Pairwise fun x y => x.units ≠ y.units := by
  refine h.distinct.imp_of_mem fun {x y} hx hy hsame heq => ?_
  rw [(same_finite (h.isFinite x hx) (h.isFinite y hy)).mpr heq] at hsame
  cases hsame

theorem lt_length_distinctValues (h : IsDistinctWhole column) (hsize : limit + 1 ≤ column.length) :
    limit < (distinctValues column).length := by
  have hnodup : (column.map units).Nodup := List.pairwise_map.mpr h.units_ne
  calc limit + 1 ≤ column.length := hsize
    _ = (column.map units).length := (List.length_map _).symm
    _ = (column.map units).toFinset.card := (List.toFinset_card_of_nodup hnodup).symm
    _ ≤ (distinctValues column).length := card_units_le h.isFinite

theorem units_lt_of_getElem? (h : IsDistinctWhole column) {j : ℕ} {x y : Binary64} (hij : i < j)
    (hx : (sorted column)[i]? = some x) (hy : (sorted column)[j]? = some y) :
    x.units < y.units := by
  have hne : (sorted column).Pairwise fun x y => x.units ≠ y.units :=
    ((sorted_perm column).pairwise_iff fun hxy => hxy.symm).mpr h.units_ne
  have hle := units_le_of_getElem? h.isFinite (Nat.le_of_lt hij) hx hy
  obtain ⟨hi, rfl⟩ := List.getElem?_eq_some_iff.mp hx
  obtain ⟨hj, rfl⟩ := List.getElem?_eq_some_iff.mp hy
  exact lt_of_le_of_ne hle (List.pairwise_iff_getElem.mp hne i j hi hj hij)

/-- Up to a cut there are the samples in front of its lower sample, that sample, and no others. -/
theorem countP_isUpTo (h : IsDistinctWhole column) (hsize : limit + 1 ≤ column.length)
    (hi : i < limit) : column.countP (isUpTo (cuts (sorted column) limit) i) =
      cutPlace column.length limit i + 1 := by
  obtain ⟨low, high, hlow, hhigh, hcut⟩ := exists_cut hsize hi
  obtain ⟨t, ht, hrank⟩ := exists_cut_hasRank h.isFinite h.hasFiniteSums hsize hi
  rw [isUpTo_of_some ht]
  refine Nat.le_antisymm ?_ hrank.lt_countP
  -- a cut at the last place has no sample behind it
  by_cases hlast : column.length ≤ cutPlace column.length limit i + 1
  · exact List.countP_le_length.trans hlast
  · have hnext : nextPlace column.length limit i = cutPlace column.length limit i + 1 := by
      unfold nextPlace
      omega
    rw [hnext] at hhigh
    have hhighmem := mem_of_getElem?_sorted hhigh
    have hmiddle := (h.midpoint_exact (mem_of_getElem?_sorted hlow) hhighmem).2
    have hlt := h.units_lt_of_getElem? (Nat.lt_succ_self _) hlow hhigh
    have ht : t = low.midpoint high := Option.some.inj (ht.symm.trans hcut)
    have hbelow : ¬ high.le t = true := by
      rw [le_finite (h.isFinite high hhighmem) hrank.isFinite, ht]
      omega
    rw [le_iff_lt_countP h.isFinite hrank.isFinite hhigh] at hbelow
    exact Nat.le_of_not_lt hbelow

theorem countP_isUpTo_last (column : List Binary64) (limit : ℕ) :
    column.countP (isUpTo (cuts (sorted column) limit) limit) = column.length := by
  have hnone : (cuts (sorted column) limit)[limit]? = none :=
    List.getElem?_eq_none (length_cuts _ _).le
  rw [isUpTo_of_none hnone]
  exact List.countP_eq_length.mpr fun _ _ => rfl

theorem isUpTo_nested (h : IsDistinctWhole column) (hsize : limit + 1 ≤ column.length)
    (hi : i < limit) : ∀ x ∈ column, isUpTo (cuts (sorted column) limit) i x = true →
      isUpTo (cuts (sorted column) limit) (i + 1) x = true := by
  intro x hx hup
  rcases Nat.lt_or_eq_of_le (Nat.succ_le_of_lt hi) with hnext | hlast
  · have hlength : (cuts (sorted column) limit).length = limit := length_cuts _ _
    have hs : i < (cuts (sorted column) limit).length := by omega
    have ht : i + 1 < (cuts (sorted column) limit).length := by omega
    have hst := List.pairwise_iff_getElem.mp (pairwise_cuts h.isFinite hsize) i (i + 1) hs ht
      (Nat.lt_succ_self i)
    rw [isUpTo_of_some (List.getElem?_eq_getElem hs)] at hup
    rw [isUpTo_of_some (List.getElem?_eq_getElem ht)]
    exact Binary64.le_trans hup hst
  · have hnone : (cuts (sorted column) limit)[i + 1]? = none :=
      List.getElem?_eq_none ((length_cuts _ _).trans_le hlast.ge)
    rw [isUpTo_of_none hnone]

/-! ## Sizes -/

theorem binSize_first (h : IsDistinctWhole column) (hsize : limit + 1 ≤ column.length)
    (hlimit : 1 ≤ limit) : binSize (cuts (sorted column) limit) column 0 =
      column.length / (limit + 1) + 1 := by
  have hcount := h.countP_isUpTo hsize hlimit
  unfold cutPlace at hcount
  rwa [Nat.zero_add, Nat.one_mul] at hcount

theorem binSize_inner (h : IsDistinctWhole column) (hsize : limit + 1 ≤ column.length)
    (hi : i + 1 < limit) : binSize (cuts (sorted column) limit) column (i + 1) =
      column.length / (limit + 1) := by
  have hadd := binSize_succ_add (h.isUpTo_nested hsize (Nat.lt_of_succ_lt hi))
  rw [h.countP_isUpTo hsize hi, h.countP_isUpTo hsize (Nat.lt_of_succ_lt hi)] at hadd
  unfold cutPlace at hadd
  have hstep : (i + 1 + 1) * (column.length / (limit + 1)) =
      (i + 1) * (column.length / (limit + 1)) + column.length / (limit + 1) :=
    Nat.succ_mul (i + 1) _
  omega

theorem binSize_last (h : IsDistinctWhole column) (hsize : limit + 1 ≤ column.length)
    (hlimit : 1 ≤ limit) : binSize (cuts (sorted column) limit) column limit +
      (limit * (column.length / (limit + 1)) + 1) = column.length := by
  obtain ⟨i, rfl⟩ : ∃ i, limit = i + 1 := ⟨limit - 1, by omega⟩
  have hadd := binSize_succ_add (h.isUpTo_nested hsize (Nat.lt_succ_self i))
  rw [countP_isUpTo_last, h.countP_isUpTo hsize (Nat.lt_succ_self i)] at hadd
  exact hadd

theorem exists_beyond_iff (h : IsDistinctWhole column) (hsize : limit + 1 ≤ column.length) :
    (∀ t ∈ cuts (sorted column) limit, ∃ x ∈ column, x.le t = false) ↔
      ∀ i < limit, (i + 1) * (column.length / (limit + 1)) + 1 ≠ column.length := by
  have hall : ∀ i < limit, ∀ t, (cuts (sorted column) limit)[i]? = some t →
      ((∀ x ∈ column, x.le t = true) ↔
        (i + 1) * (column.length / (limit + 1)) + 1 = column.length) := by
    intro i hi t ht
    have hcount := h.countP_isUpTo hsize hi
    rw [isUpTo_of_some ht] at hcount
    rw [← List.countP_eq_length, hcount]
    rfl
  constructor
  · intro hbeyond i hi hplace
    obtain ⟨_, _, -, -, hcut⟩ := exists_cut hsize hi
    obtain ⟨x, hx, hnot⟩ := hbeyond _ (List.mem_of_getElem? hcut)
    rw [(hall i hi _ hcut).mpr hplace x hx] at hnot
    cases hnot
  · intro hplaces t ht
    obtain ⟨i, hcut⟩ := List.mem_iff_getElem?.mp ht
    have hi : i < limit := by
      rw [← length_cuts (sorted column) limit]
      exact (List.getElem?_eq_some_iff.mp hcut).1
    by_contra hnone
    refine hplaces i hi ((hall i hi t hcut).mp fun x hx => ?_)
    by_contra hnot
    exact hnone ⟨x, hx, Bool.eq_false_iff.mpr hnot⟩

end IsDistinctWhole

/-- A share of a column is at least one sample, and what is left after the shares is less. -/
theorem share_spec {size : ℕ} (hsize : limit + 1 ≤ size) :
    1 ≤ size / (limit + 1) ∧ size % (limit + 1) < limit + 1 ∧
      size = limit * (size / (limit + 1)) + size / (limit + 1) + size % (limit + 1) := by
  refine ⟨Nat.div_pos hsize (Nat.succ_pos limit), Nat.mod_lt _ (Nat.succ_pos limit), ?_⟩
  calc size = (limit + 1) * (size / (limit + 1)) + size % (limit + 1) :=
        (Nat.div_add_mod size (limit + 1)).symm
    _ = limit * (size / (limit + 1)) + size / (limit + 1) + size % (limit + 1) := by
        rw [Nat.succ_mul]

/-- Some cut stands behind the last sample exactly if each share is one sample and nothing is
left. -/
theorem place_ne_iff {size : ℕ} (hlimit : 1 ≤ limit) (hsize : limit + 1 ≤ size) :
    (∀ i < limit, (i + 1) * (size / (limit + 1)) + 1 ≠ size) ↔ size ≠ limit + 1 := by
  obtain ⟨hshare, -, hsum⟩ := share_spec hsize
  constructor
  · rintro hplaces rfl
    have hone : (limit + 1) / (limit + 1) = 1 := Nat.div_self (Nat.succ_pos limit)
    refine hplaces (limit - 1) (by omega) ?_
    rw [hone]
    omega
  · intro hne i hi hplace
    have hle : (i + 1) * (size / (limit + 1)) ≤ limit * (size / (limit + 1)) :=
      Nat.mul_le_mul_right _ hi
    -- so the share is one and nothing is left
    have hone : size / (limit + 1) = 1 := by omega
    rw [hone] at hsum hplace
    omega

/-- The bins of distinct whole samples: the first has a sample more than its share, the inner ones
have their share, and the last has the rest less one sample. So no bin is short exactly if the bins
do not divide the samples evenly, and a cut has every sample up to it exactly if there is one sample
for each bin. -/
theorem binSizes_areBalanced_iff {limit : ℕ} {column : List Binary64} (hlimit : 1 ≤ limit)
    (hsize : limit + 1 ≤ column.length)
    (hwhole : ∀ x ∈ column, ∃ k : ℤ, k.natAbs < 2 ^ 51 ∧ x.equalsInt k = true)
    (hdistinct : column.Pairwise fun x y => x.same y = false) :
    ∃ cuts : List Binary64,
      ofColumn limit column = .ok ⟨.continuous, limit, cuts⟩ ∧ cuts.length = limit ∧
      binSize cuts column 0 = column.length / (limit + 1) + 1 ∧
      (∀ i, 1 ≤ i → i < limit → binSize cuts column i = column.length / (limit + 1)) ∧
      binSize cuts column limit + (limit * (column.length / (limit + 1)) + 1) = column.length ∧
      ((∀ i ≤ limit, column.length / (limit + 1) ≤ binSize cuts column i) ↔
        ¬ limit + 1 ∣ column.length) ∧
      ((∀ t ∈ cuts, ∃ x ∈ column, x.le t = false) ↔ column.length ≠ limit + 1) := by
  have h : IsDistinctWhole column := ⟨hwhole, hdistinct⟩
  obtain ⟨hshare, hrest, hsum⟩ := share_spec hsize
  have hfirst := h.binSize_first hsize hlimit
  have hinner : ∀ i, 1 ≤ i → i < limit →
      binSize (cuts (sorted column) limit) column i = column.length / (limit + 1) := by
    intro i hone hi
    obtain ⟨j, rfl⟩ : ∃ j, i = j + 1 := ⟨i - 1, by omega⟩
    exact h.binSize_inner hsize hi
  have hlast := h.binSize_last hsize hlimit
  refine ⟨cuts (sorted column) limit, ofColumn_of_many (h.lt_length_distinctValues hsize),
    length_cuts _ _, hfirst, hinner, hlast, ?_, ?_⟩
  · rw [Nat.dvd_iff_mod_eq_zero]
    constructor
    · intro hall heven
      have hlastshare := hall limit le_rfl
      omega
    · intro huneven i hi
      rcases Nat.eq_zero_or_pos i with rfl | hpos
      · omega
      · rcases Nat.lt_or_eq_of_le hi with hlt | rfl
        · rw [hinner i hpos hlt]
        · omega
  · rw [h.exists_beyond_iff hsize]
    exact place_ne_iff hlimit hsize

/-- Three samples do not divide evenly. -/
theorem binSizes_areBalanced_iff_three_samples :
    let column : List Binary64 := [.ofNat 2, .ofNat 0, .ofNat 1]
    1 ≤ 1 ∧ 1 + 1 ≤ column.length ∧
      (∀ x ∈ column, ∃ k : ℤ, k.natAbs < 2 ^ 51 ∧ x.equalsInt k = true) ∧
      column.Pairwise (fun x y => x.same y = false) ∧
      ∃ cuts : List Binary64, ofColumn 1 column = .ok ⟨.continuous, 1, cuts⟩ ∧
        (∀ i ≤ 1, column.length / (1 + 1) ≤ binSize cuts column i) ∧
        ∀ t ∈ cuts, ∃ x ∈ column, x.le t = false := by
  intro column
  have hwhole : ∀ x ∈ column, ∃ k : ℤ, k.natAbs < 2 ^ 51 ∧ x.equalsInt k = true := by
    simp only [column, List.forall_mem_cons]
    exact ⟨⟨2, by decide +kernel⟩, ⟨0, by decide +kernel⟩, ⟨1, by decide +kernel⟩,
      fun x hx => absurd hx List.not_mem_nil⟩
  have hdistinct : column.Pairwise fun x y => x.same y = false := by decide +kernel
  have hsize : 1 + 1 ≤ column.length := by decide
  obtain ⟨cuts, hcuts, -, -, -, -, hbalanced, hbeyond⟩ :=
    binSizes_areBalanced_iff le_rfl hsize hwhole hdistinct
  exact ⟨le_rfl, hsize, hwhole, hdistinct, cuts, hcuts, hbalanced.mpr (by decide),
    hbeyond.mpr (by decide)⟩

/-- Of two samples the cut is the upper one: both are up to it, and the second bin is empty. -/
theorem lastBin_isEmpty_two_samples :
    let column : List Binary64 := [.ofNat 0, .ofNat 1]
    1 + 1 ≤ column.length ∧
      (∀ x ∈ column, ∃ k : ℤ, k.natAbs < 2 ^ 51 ∧ x.equalsInt k = true) ∧
      column.Pairwise (fun x y => x.same y = false) ∧
      ofColumn 1 column = .ok ⟨.continuous, 1, [.ofNat 1]⟩ ∧
      binSize [.ofNat 1] column 1 < column.length / (1 + 1) ∧
      ∀ x ∈ column, x.le (.ofNat 1) = true := by
  intro column
  have hascending : column.Pairwise fun x y => precedes x y = true := by decide +kernel
  have hsorted : sorted column = column := sorted_of_pairwise hascending
  have hmany : 1 < (distinctValues column).length := by
    unfold distinctValues
    rw [hsorted]
    decide +kernel
  have hcuts : cuts (sorted column) 1 = [.ofNat 1] := by
    rw [hsorted]
    decide +kernel
  refine ⟨by decide, ?_, by decide +kernel, ?_, by decide +kernel, by decide +kernel⟩
  · simp only [column, List.forall_mem_cons]
    exact ⟨⟨0, by decide +kernel⟩, ⟨1, by decide +kernel⟩,
      fun x hx => absurd hx List.not_mem_nil⟩
  · have hcolumn := ofColumn_of_many hmany
    rwa [hcuts] at hcolumn

end SplitParams
end TreeParty
