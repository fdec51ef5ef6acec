import TreeParty.Proofs.Column.Rank
import TreeParty.Proofs.Column.Splits
import TreeParty.Proofs.Dataset.Fit
import Mathlib
/-!
# The ranks of the cuts

A cut lies between two neighbouring samples of the sorted column. So the cuts are in order, it is
known between which ranks each stands, and none is larger than every sample. The ranks need the sums
of samples to be finite, as they are in a column that passes the check of the field with at least
one place.
-/

set_option autoImplicit false

namespace TreeParty

open Binary64

/-! ## Sums that fit -/

/-- Whether no sum of two samples is too large for a double. -/
def Column.HasFiniteSums (column : List Binary64) : Prop :=
  ∀ x ∈ column, ∀ y ∈ column, (x.add y).isFinite = true

namespace TrainingData

open FixedPoint

variable {F : FieldParams} {p : Int}

/-- A column that passes the check with at least one place has finite sums. -/
theorem hasFiniteSums_of_checkFits (hp : 1 ≤ p) {column : List Binary64}
    (h : checkFits F (.places p) column = .ok ()) : Column.HasFiniteSums column := by
  have haccepts := checkFits_eq_ok_iff.mp h
  intro x hx y hy
  exact (haccepts x hx).isFinite_add hp (haccepts y hy)

end TrainingData

namespace SplitParams

open Column

variable {limit i j : ℕ} {column : List Binary64}

/-- The number of samples before the lower sample of a cut. -/
def cutPlace (size limit i : ℕ) : ℕ := (i + 1) * (size / (limit + 1))

def nextPlace (size limit i : ℕ) : ℕ := min (cutPlace size limit i + 1) (size - 1)

theorem cutPlace_mono {size : ℕ} (hij : i ≤ j) : cutPlace size limit i ≤ cutPlace size limit j :=
  Nat.mul_le_mul_right _ (Nat.succ_le_succ hij)

theorem nextPlace_mono {size : ℕ} (hij : i ≤ j) :
    nextPlace size limit i ≤ nextPlace size limit j := by
  have hplace : cutPlace size limit i ≤ cutPlace size limit j := cutPlace_mono hij
  unfold nextPlace
  omega

/-- Whether a value has a rank between two places of a column. -/
structure HasRank (column : List Binary64) (place next : ℕ) (t : Binary64) : Prop where
  isFinite : t.isFinite = true
  low : ∃ x, (sorted column)[place]? = some x ∧ x.le t = true
  high : ∃ x, (sorted column)[next]? = some x ∧ t.le x = true
  lt_countP : place + 1 ≤ column.countP (·.le t)
  countP_le : column.countP (fun x => !t.le x) ≤ next

theorem mem_of_getElem?_sorted {place : ℕ} {x : Binary64}
    (hx : (sorted column)[place]? = some x) : x ∈ column :=
  mem_sorted.mp (List.mem_of_getElem? hx)

/-- Whatever lies between two sorted samples has its rank between theirs. -/
theorem hasRank_of_between (hfinite : ∀ x ∈ column, x.isFinite = true) {place next : ℕ}
    {t low high : Binary64} (ht : t.isFinite = true) (hlow : (sorted column)[place]? = some low)
    (hhigh : (sorted column)[next]? = some high) (hle : low.units ≤ t.units)
    (hge : t.units ≤ high.units) : HasRank column place next t := by
  have hlowle : low.le t = true :=
    (le_finite (hfinite low (mem_of_getElem?_sorted hlow)) ht).mpr hle
  have hhighle : t.le high = true :=
    (le_finite ht (hfinite high (mem_of_getElem?_sorted hhigh))).mpr hge
  refine ⟨ht, ⟨low, hlow, hlowle⟩, ⟨high, hhigh, hhighle⟩, ?_, ?_⟩
  · exact (le_iff_lt_countP hfinite ht hlow).mp hlowle
  · refine Nat.le_of_not_lt fun hlt => ?_
    rw [(not_le_iff_lt_countP hfinite ht hhigh).mpr hlt] at hhighle
    cases hhighle

theorem units_le_of_getElem? (hfinite : ∀ x ∈ column, x.isFinite = true) {x y : Binary64}
    (hij : i ≤ j) (hx : (sorted column)[i]? = some x) (hy : (sorted column)[j]? = some y) :
    x.units ≤ y.units := by
  obtain ⟨hi, rfl⟩ := List.getElem?_eq_some_iff.mp hx
  obtain ⟨hj, rfl⟩ := List.getElem?_eq_some_iff.mp hy
  rcases Nat.lt_or_eq_of_le hij with hlt | rfl
  · exact List.pairwise_iff_getElem.mp (pairwise_units_sorted hfinite) i j hi hj hlt
  · exact le_refl _

theorem exists_cut (hsize : limit + 1 ≤ column.length) (hi : i < limit) :
    ∃ low high, (sorted column)[cutPlace column.length limit i]? = some low ∧
      (sorted column)[nextPlace column.length limit i]? = some high ∧
      (cuts (sorted column) limit)[i]? = some (low.midpoint high) := by
  have hplace : cutPlace column.length limit i < (sorted column).length := by
    rw [length_sorted]
    exact cut_place_lt hsize hi
  obtain ⟨low, high, hlow, hhigh⟩ := exists_cut_samples hplace
  have hcut := @getElem?_cuts (sorted column) limit i hi
  rw [length_sorted] at hcut
  refine ⟨low, high, hlow, ?_, ?_⟩
  · rwa [length_sorted] at hhigh
  · rw [hcut]
    exact congrArg some (cut_eq hlow hhigh)

variable (hfinite : ∀ x ∈ column, x.isFinite = true)

include hfinite in
theorem exists_cut_hasRank (hsums : HasFiniteSums column) (hsize : limit + 1 ≤ column.length)
    (hi : i < limit) : ∃ t, (cuts (sorted column) limit)[i]? = some t ∧
      HasRank column (cutPlace column.length limit i) (nextPlace column.length limit i) t := by
  obtain ⟨low, high, hlow, hhigh, hcut⟩ := exists_cut hsize hi
  have hlowmem := mem_of_getElem?_sorted hlow
  have hhighmem := mem_of_getElem?_sorted hhigh
  have hplace : cutPlace column.length limit i ≤ nextPlace column.length limit i := by
    have hlt : cutPlace column.length limit i < column.length := cut_place_lt hsize hi
    unfold nextPlace
    omega
  have hle := units_le_of_getElem? hfinite hplace hlow hhigh
  have hsum := hsums low hlowmem high hhighmem
  have hlowfinite := hfinite low hlowmem
  have hhighfinite := hfinite high hhighmem
  have hlower := le_midpoint hlowfinite hhighfinite hsum (Int.le_refl _) hle
  have hupper := midpoint_le hlowfinite hhighfinite hsum hle (Int.le_refl _)
  have hmiddle := (units_midpoint hlowfinite hhighfinite hsum).1
  exact ⟨_, hcut, hasRank_of_between hfinite hmiddle hlow hhigh hlower hupper⟩

include hfinite in
/-- The cuts are in order, whether their sums are finite or not. -/
theorem pairwise_cuts (hsize : limit + 1 ≤ column.length) :
    (cuts (sorted column) limit).Pairwise fun s t => s.le t = true := by
  rw [List.pairwise_iff_getElem]
  intro i j hi hj hij
  rw [length_cuts] at hi hj
  obtain ⟨low, high, hlow, hhigh, hcut⟩ := exists_cut hsize hi
  obtain ⟨low', high', hlow', hhigh', hcut'⟩ := exists_cut hsize hj
  rw [(List.getElem?_eq_some_iff.mp hcut).2, (List.getElem?_eq_some_iff.mp hcut').2]
  apply midpoint_mono
  · exact hfinite low (mem_of_getElem?_sorted hlow)
  · exact hfinite high (mem_of_getElem?_sorted hhigh)
  · exact hfinite low' (mem_of_getElem?_sorted hlow')
  · exact hfinite high' (mem_of_getElem?_sorted hhigh')
  · exact units_le_of_getElem? hfinite (cutPlace_mono hij.le) hlow hlow'
  · exact units_le_of_getElem? hfinite (nextPlace_mono hij.le) hhigh hhigh'

include hfinite in
theorem HasRank.exists_natAbs_le {place next : ℕ} {t : Binary64}
    (ht : HasRank column place next t) : ∃ x ∈ column, t.units.natAbs ≤ x.units.natAbs := by
  obtain ⟨x, hx, hxt⟩ := ht.low
  obtain ⟨y, hy, hty⟩ := ht.high
  have hxmem := mem_of_getElem?_sorted hx
  have hymem := mem_of_getElem?_sorted hy
  rw [le_finite (hfinite x hxmem) ht.isFinite] at hxt
  rw [le_finite ht.isFinite (hfinite y hymem)] at hty
  by_cases hsign : t.units < 0
  · exact ⟨x, hxmem, by omega⟩
  · exact ⟨y, hymem, by omega⟩

include hfinite in
theorem exists_natAbs_le_of_mem_cuts (hsums : HasFiniteSums column)
    (hsize : limit + 1 ≤ column.length) {t : Binary64} (ht : t ∈ cuts (sorted column) limit) :
    t.isFinite = true ∧ ∃ x ∈ column, t.units.natAbs ≤ x.units.natAbs := by
  obtain ⟨i, hi, hget⟩ := List.mem_iff_getElem.mp ht
  rw [length_cuts] at hi
  obtain ⟨s, hs, hrank⟩ := exists_cut_hasRank hfinite hsums hsize hi
  rw [(List.getElem?_eq_some_iff.mp hs).2] at hget
  subst hget
  exact ⟨hrank.isFinite, hrank.exists_natAbs_le hfinite⟩

/-- A finite column with more distinct values than the limit has as many cuts as the limit says, in
ascending order. Each lies between two neighbouring samples, which tells how many samples are up to
it and below it. No cut is larger than every sample, so the cuts of a column that passes the check
pass it too. -/
theorem cuts_haveRanks {limit : ℕ} {column : List Binary64}
    (hfinite : ∀ x ∈ column, x.isFinite = true)
    (hdistinct : limit + 1 ≤ (column.map units).toFinset.card) :
    (∀ (F : FieldParams) (p : ℤ), 1 ≤ p →
      TrainingData.checkFits F (.places p) column = .ok () → HasFiniteSums column) ∧
    (HasFiniteSums column → ∃ cuts : List Binary64,
      ofColumn limit column = .ok ⟨.continuous, limit, cuts⟩ ∧ cuts.length = limit ∧
      cuts.Pairwise (fun s t => s.le t = true) ∧
      (∀ i < limit, ∃ t, cuts[i]? = some t ∧
        HasRank column ((i + 1) * (column.length / (limit + 1)))
          (min ((i + 1) * (column.length / (limit + 1)) + 1) (column.length - 1)) t) ∧
      (∀ t ∈ cuts, ∃ x ∈ column, t.abs.le x.abs = true) ∧
      ∀ (F : FieldParams) (p : ℤ), TrainingData.checkFits F (.places p) column = .ok () →
        TrainingData.checkFits F (.places p) cuts = .ok ()) := by
  refine ⟨fun F p hp hchecked => TrainingData.hasFiniteSums_of_checkFits hp hchecked,
    fun hsums => ?_⟩
  have hmany : limit < (distinctValues column).length :=
    hdistinct.trans (card_units_le hfinite)
  have hsize : limit + 1 ≤ column.length := hmany.trans_le (length_distinctValues_le column)
  refine ⟨cuts (sorted column) limit, ofColumn_of_many hmany, length_cuts _ _,
    pairwise_cuts hfinite hsize, fun i hi => exists_cut_hasRank hfinite hsums hsize hi,
    fun t ht => ?_, fun F p hchecked => ?_⟩
  · obtain ⟨htfinite, x, hx, hle⟩ := exists_natAbs_le_of_mem_cuts hfinite hsums hsize ht
    exact ⟨x, hx, (abs_le_abs_iff htfinite (hfinite x hx)).mpr hle⟩
  · rw [TrainingData.checkFits_eq_ok_iff] at hchecked ⊢
    intro t ht
    obtain ⟨htfinite, x, hx, hle⟩ := exists_natAbs_le_of_mem_cuts hfinite hsums hsize ht
    exact (hchecked x hx).of_le htfinite hle

/-- Two samples are equal, and the middles of the smallest doubles are rounded. -/
theorem cuts_haveRanks_smallest :
    let column : List Binary64 := [.finite false 7 (by decide +kernel),
      .finite false 5 (by decide +kernel), .finite false 5 (by decide +kernel),
      .finite false 6 (by decide +kernel)]
    (∀ x ∈ column, x.isFinite = true) ∧ 2 + 1 ≤ (column.map units).toFinset.card ∧
      HasFiniteSums column ∧ ∃ cuts : List Binary64,
        ofColumn 2 column = .ok ⟨.continuous, 2, cuts⟩ ∧
        ∀ i < 2, ∃ t, cuts[i]? = some t ∧ HasRank column (i + 1) (min (i + 2) 3) t := by
  intro column
  have hfinite : ∀ x ∈ column, x.isFinite = true := by decide +kernel
  have hdistinct : 2 + 1 ≤ (column.map units).toFinset.card := by decide +kernel
  have hsums : HasFiniteSums column := by
    unfold HasFiniteSums
    decide +kernel
  refine ⟨hfinite, hdistinct, hsums, ?_⟩
  obtain ⟨cuts, hcuts, -, -, hranks, -⟩ := (cuts_haveRanks hfinite hdistinct).2 hsums
  refine ⟨cuts, hcuts, fun i hi => ?_⟩
  have hone : column.length / (2 + 1) = 1 := by decide
  have hrank := hranks i hi
  rwa [hone, Nat.mul_one] at hrank

end SplitParams
end TreeParty
