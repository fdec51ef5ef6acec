import TreeParty.Column.Splits
import TreeParty.Proofs.Binary64.Count
import TreeParty.Proofs.Column.Order
import TreeParty.Proofs.Loops
/-!
# Split vectors of finite columns

Under a limit of at least one, every finite column has a split vector: the number of splits, values
that are samples or lie in the middle of two samples, and the filler in every slot that is left.
-/

set_option autoImplicit false

namespace TreeParty
namespace SplitParams

open Binary64

def splitCount (limit : Nat) (column : List Binary64) : Nat :=
  min limit ((Column.distinctValues column).length - 1)

def usedSlots (limit : Nat) (column : List Binary64) : Nat :=
  let distinct := (Column.distinctValues column).length
  if limit < distinct then limit else if 1 < distinct then distinct else 0

/-- Whether a value is a sample or the middle of two samples. -/
def IsCut (column : List Binary64) (v : Binary64) : Prop :=
  v ∈ column ∨ ∃ x ∈ column, ∃ y ∈ column, v = x.midpoint y

theorem usedSlots_le (limit : Nat) (column : List Binary64) : usedSlots limit column ≤ limit := by
  unfold usedSlots
  simp only
  split_ifs <;> omega

/-! ## The splits of a column -/

def cut (sorted : List Binary64) (place : Nat) : Binary64 :=
  (sorted.getD place zero).midpoint (sorted.getD (min (place + 1) (sorted.length - 1)) zero)

theorem cut_eq {sorted : List Binary64} {place : Nat} {x y : Binary64}
    (hx : sorted[place]? = some x) (hy : sorted[min (place + 1) (sorted.length - 1)]? = some y) :
    cut sorted place = x.midpoint y := by
  unfold cut
  rw [List.getD_eq_getElem?_getD, List.getD_eq_getElem?_getD, hx, hy, Option.getD_some,
    Option.getD_some]

theorem exists_cut_samples {sorted : List Binary64} {place : Nat} (hplace : place < sorted.length) :
    ∃ x y, sorted[place]? = some x ∧ sorted[min (place + 1) (sorted.length - 1)]? = some y := by
  have hnext : min (place + 1) (sorted.length - 1) < sorted.length := by omega
  exact ⟨_, _, List.getElem?_eq_getElem hplace, List.getElem?_eq_getElem hnext⟩

theorem threshold_eq_cut {sorted : List Binary64} {place : Nat} (hplace : place < sorted.length) :
    threshold sorted place = .ok (cut sorted place) := by
  obtain ⟨x, y, hx, hy⟩ := exists_cut_samples hplace
  rw [cut_eq hx hy]
  unfold threshold
  rw [hx, hy]

theorem cut_place_lt {size limit i : Nat} (hsize : limit + 1 ≤ size) (hi : i < limit) :
    (i + 1) * (size / (limit + 1)) < size := by
  have hbin : 0 < size / (limit + 1) := Nat.div_pos hsize (Nat.succ_pos limit)
  calc (i + 1) * (size / (limit + 1)) < (limit + 1) * (size / (limit + 1)) :=
        Nat.mul_lt_mul_of_pos_right (Nat.succ_lt_succ hi) hbin
    _ ≤ size := Nat.mul_div_le size (limit + 1)

def cuts (sorted : List Binary64) (limit : Nat) : List Binary64 :=
  (List.range limit).map fun i => cut sorted ((i + 1) * (sorted.length / (limit + 1)))

@[simp] theorem length_cuts (sorted : List Binary64) (limit : Nat) :
    (cuts sorted limit).length = limit := by
  simp [cuts]

theorem thresholds_eq_cuts {sorted : List Binary64} {limit : Nat}
    (hlimit : limit + 1 ≤ sorted.length) :
    thresholds sorted limit = .ok (cuts sorted limit) := by
  apply mapM_eq_ok_map
  intro i hi
  exact threshold_eq_cut (cut_place_lt hlimit (List.mem_range.mp hi))

theorem cuts_areMiddles {sorted : List Binary64} {limit : Nat}
    (hlimit : limit + 1 ≤ sorted.length) :
    ∀ v ∈ cuts sorted limit, ∃ x ∈ sorted, ∃ y ∈ sorted, v = x.midpoint y := by
  intro v hv
  obtain ⟨i, hi, rfl⟩ := List.mem_map.mp hv
  obtain ⟨x, y, hx, hy⟩ := exists_cut_samples (cut_place_lt hlimit (List.mem_range.mp hi))
  exact ⟨x, List.mem_of_getElem? hx, y, List.mem_of_getElem? hy, cut_eq hx hy⟩

theorem getElem?_cuts {sorted : List Binary64} {limit i : Nat} (hi : i < limit) :
    (cuts sorted limit)[i]? = some (cut sorted ((i + 1) * (sorted.length / (limit + 1)))) := by
  unfold cuts
  rw [List.getElem?_map, List.getElem?_range hi]
  rfl

/-- A column with more distinct values than the limit is continuous, with all of its cuts. -/
theorem ofColumn_of_many {limit : Nat} {column : List Binary64}
    (hmany : limit < (Column.distinctValues column).length) :
    ofColumn limit column = .ok ⟨.continuous, limit, cuts (Column.sorted column) limit⟩ := by
  have hlength := Column.length_distinctValues_le column
  have hsorted : limit + 1 ≤ (Column.sorted column).length := by
    rw [Column.length_sorted]
    omega
  unfold ofColumn
  simp only
  rw [if_pos (by omega), if_neg (by omega), Int.toNat_natCast, thresholds_eq_cuts hsorted]
  rfl

theorem ofColumn_of_few {limit : Nat} {column : List Binary64}
    (hfew : ¬ limit < (Column.distinctValues column).length) :
    ofColumn limit column = .ok (ofFew (Column.distinctValues column)) := by
  unfold ofColumn
  simp only
  rw [if_neg (by omega)]

theorem ofColumn_eq_ok (limit : Nat) (column : List Binary64) :
    ∃ params, ofColumn limit column = .ok params ∧ params.count = splitCount limit column ∧
      params.values.length = usedSlots limit column ∧ ∀ v ∈ params.values, IsCut column v := by
  unfold splitCount usedSlots
  simp only
  by_cases hmany : limit < (Column.distinctValues column).length
  · have hlength := Column.length_distinctValues_le column
    have hsorted : limit + 1 ≤ (Column.sorted column).length := by
      rw [Column.length_sorted]
      omega
    refine ⟨_, ofColumn_of_many hmany, ?_, ?_, ?_⟩
    · rw [Nat.min_eq_left (by omega)]
    · rw [if_pos hmany]
      exact length_cuts _ _
    · intro v hv
      obtain ⟨x, hx, y, hy, hv⟩ := cuts_areMiddles hsorted v hv
      exact Or.inr ⟨x, Column.mem_sorted.mp hx, y, Column.mem_sorted.mp hy, hv⟩
  · refine ⟨_, ofColumn_of_few hmany, ?_⟩
    rw [if_neg hmany, Nat.min_eq_right (by omega)]
    unfold ofFew
    by_cases hsome : 1 < (Column.distinctValues column).length
    · rw [if_pos hsome, if_pos hsome]
      refine ⟨?_, rfl, fun v hv => Or.inl (Column.mem_column_of_mem_distinctValues hv)⟩
      show ((Column.distinctValues column).length : Int) - 1 = _
      omega
    · rw [if_neg hsome, if_neg hsome]
      refine ⟨?_, rfl, fun v hv => absurd hv List.not_mem_nil⟩
      show (0 : Int) = _
      omega

/-! ## The vector -/

/-- The vector of a column under a limit: count, values, filler. -/
def IsVector (limit : Nat) (filler : Binary64) (column vector : List Binary64) : Prop :=
  ∃ count values, vector = count :: values ++ List.replicate (limit - values.length) filler ∧
    ofInt? (splitCount limit column) = some count ∧ values.length = usedSlots limit column ∧
    ∀ v ∈ values, IsCut column v

theorem IsVector.length_eq {limit : Nat} {filler : Binary64} {column vector : List Binary64}
    (h : IsVector limit filler column vector) : vector.length = limit + 1 := by
  obtain ⟨count, values, rfl, -, hlength, -⟩ := h
  have hused := usedSlots_le limit column
  simp only [List.length_append, List.length_cons, List.length_replicate]
  omega

theorem splitCount_le_of_finite (limit : Nat) {column : List Binary64}
    (hfinite : ∀ x ∈ column, x.isFinite = true) :
    splitCount limit column ≤ Nat.pow 2 66 := by
  have hdistinct := length_le_of_pairwise_units (Column.pairwise_distinctValues hfinite)
  exact (Nat.min_le_right _ _).trans ((Nat.sub_le _ _).trans hdistinct)

theorem toVector_eq_ok {limit : Nat} {count : Binary64} {params : SplitParams} (filler : Binary64)
    (hcount : ofInt? params.count = some count) (hvalues : params.values.length ≤ limit) :
    params.toVector limit filler =
      .ok (count :: params.values ++ List.replicate (limit - params.values.length) filler) := by
  unfold toVector
  rw [if_neg (by omega), if_neg (by omega), hcount]
  simp only [Int.toNat_natCast]
  rw [if_pos hvalues]

theorem result_report {limit : Nat} {column : List Binary64} {params : SplitParams}
    (hparams : ofColumn limit column = .ok params) :
    (report (.whole limit) column).result = .ok params := by
  unfold report
  rw [Report.result_bind_of_ok (a := params) hparams]
  split
  · rfl
  · rfl

theorem result_vectorReport {limit : Nat} {column : List Binary64} {params : SplitParams}
    (hreport : (report (.whole limit) column).result = .ok params) (filler : Binary64) :
    (vectorReport (.whole limit) (.ok filler) column).result = params.toVector limit filler := by
  have hlimit : (SplitLimit.whole limit).count = .ok (limit : Int) := rfl
  unfold vectorReport
  rw [Report.result_bind_of_ok hreport, hlimit, Report.result_bind_of_ok (Report.result_liftM _),
    Report.result_bind_of_ok (Report.result_liftM _), Report.result_liftM]

theorem exists_vector (limit : Nat) (filler : Binary64) {column : List Binary64}
    (hfinite : ∀ x ∈ column, x.isFinite = true) :
    ∃ params count, ofColumn limit column = .ok params ∧ ofInt? params.count = some count ∧
      params.values.length ≤ limit ∧
      (vectorReport (.whole limit) (.ok filler) column).result =
        .ok (count :: params.values ++
          List.replicate (limit - params.values.length) filler) := by
  obtain ⟨params, hparams, hcount, hused, -⟩ := ofColumn_eq_ok limit column
  obtain ⟨count, hdouble⟩ := ofInt?_eq_some (n := splitCount limit column)
    (show 66 < 1024 by decide) (splitCount_le_of_finite limit hfinite)
  rw [← hcount] at hdouble
  have hslots : params.values.length ≤ limit := hused.trans_le (usedSlots_le limit column)
  refine ⟨params, count, hparams, hdouble, hslots, ?_⟩
  rw [result_vectorReport (result_report hparams), toVector_eq_ok filler hdouble hslots]

/-- Every finite column has a split vector. -/
theorem vectorReport_eq_ok (limit : Nat) (filler : Binary64) {column : List Binary64}
    (hfinite : ∀ x ∈ column, x.isFinite = true) :
    ∃ vector, (vectorReport (.whole limit) (.ok filler) column).result = .ok vector ∧
      IsVector limit filler column vector := by
  obtain ⟨params, count, hparams, hdouble, -, hvector⟩ := exists_vector limit filler hfinite
  obtain ⟨other, hother, hcount, hused, hcuts⟩ := ofColumn_eq_ok limit column
  obtain rfl : params = other := Except.ok.inj (hparams.symm.trans hother)
  exact ⟨_, hvector, count, params.values, rfl, hcount ▸ hdouble, hused, hcuts⟩

end SplitParams
end TreeParty
