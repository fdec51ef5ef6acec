import TreeParty.Indicator
import TreeParty.Proofs.Column.Decoding
import TreeParty.Proofs.Column.Thresholds
import TreeParty.Proofs.FixedPoint.Order
import Mathlib
/-!
# Bits against thresholds

Down the slots in use the left bits of a sample are zeros and then ones, because the thresholds
ascend. In a categorical column the first one stands at the slot of the sample's own value, so the
bits tell the values apart. Beside every bit the engines have the fixed-point numbers of the sample
and of the threshold, and those are in the order that the bit says.
-/

set_option autoImplicit false

namespace TreeParty
namespace Indicator

open Binary64 SplitParams

/-! ## Single bits -/

def bit? (rows : BitRows) (slot i : ℕ) : Option Bool := rows[slot]?.bind (·[i]?)

variable {limit slot i j : ℕ} {column vector : List Binary64} {t x y : Binary64}

theorem bit?_left (ht : vector[slot + 1]? = some t) (hx : column[i]? = some x) :
    bit? (left column vector) slot i = some (x.le t) := by
  simp [bit?, left, ht, hx]

theorem bit?_right (ht : vector[slot + 1]? = some t) (hx : column[i]? = some x) :
    bit? (right column vector) slot i = some (!x.le t) := by
  simp [bit?, right, left, ht, hx]

theorem bit?_left_eq_some {b : Bool} (h : bit? (left column vector) slot i = some b) :
    ∃ t x, vector[slot + 1]? = some t ∧ column[i]? = some x ∧ x.le t = b := by
  simp only [bit?, left, List.getElem?_map, List.getElem?_tail, Option.bind_eq_some_iff,
    Option.map_eq_some_iff] at h
  obtain ⟨row, ⟨t, ht, rfl⟩, hrow⟩ := h
  rw [List.getElem?_map, Option.map_eq_some_iff] at hrow
  obtain ⟨x, hx, hb⟩ := hrow
  exact ⟨t, x, ht, hx, hb⟩

/-! ## Left and right -/

/-- Whether two blocks of rows have one shape and bits that add up to one everywhere. -/
structure AreOpposite (slots samples : ℕ) (left right : BitRows) : Prop where
  leftSlots : left.length = slots
  rightSlots : right.length = slots
  leftSamples : ∀ row ∈ left, row.length = samples
  rightSamples : ∀ row ∈ right, row.length = samples
  add_eq_one : ∀ slot < slots, ∀ i < samples, ∃ a b, bit? left slot i = some a ∧
    bit? right slot i = some b ∧ a.toNat + b.toNat = 1

theorem areOpposite_left_right {slots : ℕ} (hlength : vector.length = slots + 1) :
    AreOpposite slots column.length (left column vector) (right column vector) where
  leftSlots := by simp [left, hlength]
  rightSlots := by simp [right, left, hlength]
  leftSamples := by
    intro row hrow
    obtain ⟨t, -, rfl⟩ := List.mem_map.mp hrow
    exact List.length_map _
  rightSamples := by
    intro row hrow
    obtain ⟨bits, hbits, rfl⟩ := List.mem_map.mp hrow
    obtain ⟨t, -, rfl⟩ := List.mem_map.mp hbits
    simp
  add_eq_one := by
    intro slot hslot i hi
    have hlt : slot + 1 < vector.length := by omega
    have ht : vector[slot + 1]? = some vector[slot + 1] := List.getElem?_eq_getElem hlt
    have hx : column[i]? = some column[i] := List.getElem?_eq_getElem hi
    refine ⟨_, _, bit?_left ht hx, bit?_right ht hx, ?_⟩
    cases column[i].le vector[slot + 1] <;> rfl

/-! ## The slots in use -/

/-- Whether a bit that is one at a slot is one at every later slot in use. -/
def AreNested (used : ℕ) (rows : BitRows) : Prop :=
  ∀ s t, s ≤ t → t < used → ∀ i, bit? rows s i = some true → bit? rows t i = some true

/-- Whether the bits at the slots in use tell the values of the samples apart: the first one of a
sample stands at the slot of its own value, and all bits of the last slot are ones. -/
structure SeparateValues (used : ℕ) (column vector : List Binary64) (rows : BitRows) : Prop where
  eq_iff : ∀ i j x y, column[i]? = some x → column[j]? = some y →
    ((∀ slot < used, bit? rows slot i = bit? rows slot j) ↔ x.same y = true)
  first : ∀ i x, column[i]? = some x → ∃ slot < used, ∃ v, vector[slot + 1]? = some v ∧
    v.same x = true ∧ bit? rows slot i = some true ∧ ∀ s < slot, bit? rows s i = some false
  last : ∀ i < column.length, bit? rows (used - 1) i = some true

theorem getElem?_slot {count : Binary64} {values rest : List Binary64}
    (hslot : slot < values.length) :
    (count :: values ++ rest)[slot + 1]? = values[slot]? := by
  rw [List.cons_append, List.getElem?_cons_succ, List.getElem?_append_left hslot]

theorem areNested_left {count : Binary64} {values rest : List Binary64}
    (hascending : values.Pairwise fun s t => s.le t = true) :
    AreNested values.length (left column (count :: values ++ rest)) := by
  intro s t hst ht i hbit
  rcases Nat.lt_or_eq_of_le hst with hlt | rfl
  · obtain ⟨low, x, hlow, hx, hle⟩ := bit?_left_eq_some hbit
    have hs : s < values.length := by omega
    have hhigh : values[t]? = some values[t] := List.getElem?_eq_getElem ht
    rw [getElem?_slot hs, List.getElem?_eq_getElem hs, Option.some.injEq] at hlow
    have hstep : values[s].le values[t] = true :=
      List.pairwise_iff_getElem.mp hascending s t hs ht hlt
    rw [hlow] at hstep
    rw [bit?_left ((getElem?_slot ht).trans hhigh) hx, Binary64.le_trans hle hstep]
  · exact hbit

/-! ## The slots of a categorical column -/

structure AreValuesOf (column values : List Binary64) : Prop where
  samples_finite : ∀ x ∈ column, x.isFinite = true
  values_finite : ∀ v ∈ values, v.isFinite = true
  ascending : values.Pairwise fun v w => v.units < w.units
  complete : ∀ x ∈ column, ∃ v ∈ values, v.units = x.units

theorem areValuesOf_distinctValues (hfinite : ∀ x ∈ column, x.isFinite = true) :
    AreValuesOf column (Column.distinctValues column) where
  samples_finite := hfinite
  values_finite := fun v hv => hfinite v (Column.mem_column_of_mem_distinctValues hv)
  ascending := Column.pairwise_distinctValues hfinite
  complete := Column.exists_units_distinctValues hfinite

namespace AreValuesOf

variable {count v w : Binary64} {values rest : List Binary64} (h : AreValuesOf column values)

include h

theorem units_lt (hij : i < j) (hv : values[i]? = some v) (hw : values[j]? = some w) :
    v.units < w.units := by
  obtain ⟨hi, rfl⟩ := List.getElem?_eq_some_iff.mp hv
  obtain ⟨hj, rfl⟩ := List.getElem?_eq_some_iff.mp hw
  exact List.pairwise_iff_getElem.mp h.ascending i j hi hj hij

/-- A sample has a one at the slot of a value exactly if it is at most that value. -/
theorem bit?_eq (hx : column[i]? = some x) (hv : values[slot]? = some v) :
    bit? (left column (count :: values ++ rest)) slot i = some (decide (x.units ≤ v.units)) := by
  have hslot := (List.getElem?_eq_some_iff.mp hv).1
  have hxfinite := h.samples_finite x (List.mem_of_getElem? hx)
  have hvfinite := h.values_finite v (List.mem_of_getElem? hv)
  have hle : x.le v = decide (x.units ≤ v.units) := by
    rw [Bool.eq_iff_iff, le_finite hxfinite hvfinite, decide_eq_true_iff]
  rw [bit?_left ((getElem?_slot hslot).trans hv) hx, hle]

/-- Every sample has a slot with its own value. -/
theorem exists_slot (hx : column[i]? = some x) :
    ∃ (slot : ℕ) (v : Binary64), slot < values.length ∧ values[slot]? = some v ∧
      v.units = x.units := by
  obtain ⟨v, hv, hunits⟩ := h.complete x (List.mem_of_getElem? hx)
  obtain ⟨slot, hslot, rfl⟩ := List.mem_iff_getElem.mp hv
  exact ⟨slot, _, hslot, List.getElem?_eq_getElem hslot, hunits⟩

theorem units_le_of_bits (hx : column[i]? = some x) (hy : column[j]? = some y)
    (hbits : ∀ slot < values.length, bit? (left column (count :: values ++ rest)) slot i =
      bit? (left column (count :: values ++ rest)) slot j) : x.units ≤ y.units := by
  obtain ⟨slot, v, hslot, hv, hunits⟩ := h.exists_slot hy
  have hbit := hbits slot hslot
  rw [h.bit?_eq hx hv, h.bit?_eq hy hv, hunits] at hbit
  simpa using hbit

theorem eq_iff_same (hx : column[i]? = some x) (hy : column[j]? = some y) :
    (∀ slot < values.length, bit? (left column (count :: values ++ rest)) slot i =
      bit? (left column (count :: values ++ rest)) slot j) ↔ x.same y = true := by
  have hxfinite := h.samples_finite x (List.mem_of_getElem? hx)
  have hyfinite := h.samples_finite y (List.mem_of_getElem? hy)
  rw [same_finite hxfinite hyfinite]
  constructor
  · intro hbits
    apply le_antisymm
    · exact h.units_le_of_bits hx hy hbits
    · exact h.units_le_of_bits hy hx fun slot hslot => (hbits slot hslot).symm
  · intro hunits slot hslot
    have hv := List.getElem?_eq_getElem hslot
    rw [h.bit?_eq hx hv, h.bit?_eq hy hv, hunits]

theorem exists_first (hx : column[i]? = some x) :
    ∃ slot < values.length, ∃ v, (count :: values ++ rest)[slot + 1]? = some v ∧
      v.same x = true ∧ bit? (left column (count :: values ++ rest)) slot i = some true ∧
      ∀ s < slot, bit? (left column (count :: values ++ rest)) s i = some false := by
  obtain ⟨slot, v, hslot, hv, hunits⟩ := h.exists_slot hx
  have hxfinite := h.samples_finite x (List.mem_of_getElem? hx)
  have hvfinite := h.values_finite v (List.mem_of_getElem? hv)
  refine ⟨slot, hslot, v, (getElem?_slot hslot).trans hv,
    (same_finite hvfinite hxfinite).mpr hunits, ?_, fun s hs => ?_⟩
  · rw [h.bit?_eq hx hv]
    simp [hunits]
  · have hlow := List.getElem?_eq_getElem (hs.trans hslot)
    have hlt := h.units_lt hs hlow hv
    rw [h.bit?_eq hx hlow]
    simp only [Option.some.injEq, decide_eq_false_iff_not]
    omega

theorem last_bit (hx : column[i]? = some x) :
    bit? (left column (count :: values ++ rest)) (values.length - 1) i = some true := by
  obtain ⟨slot, v, hslot, hv, hunits⟩ := h.exists_slot hx
  have hlt : values.length - 1 < values.length := by omega
  have hlast := List.getElem?_eq_getElem hlt
  have hle : v.units ≤ values[values.length - 1].units := by
    by_cases hbefore : slot < values.length - 1
    · exact (h.units_lt hbefore hv hlast).le
    · obtain rfl : slot = values.length - 1 := by omega
      rw [Option.some.inj (hlast.symm.trans hv)]
  rw [h.bit?_eq hx hlast, ← hunits]
  simpa using hle

theorem separateValues :
    SeparateValues values.length column (count :: values ++ rest)
      (left column (count :: values ++ rest)) where
  eq_iff := fun _ _ _ _ hx hy => h.eq_iff_same hx hy
  first := fun _ _ hx => h.exists_first hx
  last := fun _ hi => h.last_bit (List.getElem?_eq_getElem hi)

end AreValuesOf

/-! ## The bits of a column -/

/-- How many slots of a vector hold splits: none in a degenerate column, one more than there are
splits in a categorical one, all of them in a continuous one. -/
def slotsInUse (limit : ℕ) (params : SplitParams) : ℕ :=
  match params.kind with
  | .degenerate => 0
  | .categorical => params.count.toNat + 1
  | .continuous => limit

variable {params : SplitParams}

theorem slotsInUse_eq (h : HasShape limit params) :
    slotsInUse limit params = params.values.length := by
  cases h with
  | degenerate => rfl
  | categorical hpos hcount hvalues => simp [slotsInUse, hvalues]
  | continuous hvalues => simp [slotsInUse, hvalues]

theorem values_of_categorical (h : ofColumn limit column = .ok params)
    (hkind : params.kind = .categorical) : params.values = Column.distinctValues column := by
  by_cases hmany : limit < (Column.distinctValues column).length
  · rw [ofColumn_of_many hmany] at h
    cases h
    cases hkind
  · rw [ofColumn_of_few hmany] at h
    cases h
    unfold ofFew at hkind ⊢
    split at hkind
    · next hsome => rw [if_pos hsome]
    · cases hkind

theorem pairwise_distinct_le (hfinite : ∀ x ∈ column, x.isFinite = true) :
    (Column.distinctValues column).Pairwise fun s t => s.le t = true := by
  refine (Column.pairwise_distinctValues hfinite).imp_of_mem fun {s t} hs ht hlt => ?_
  have hsfinite := hfinite s (Column.mem_column_of_mem_distinctValues hs)
  have htfinite := hfinite t (Column.mem_column_of_mem_distinctValues ht)
  exact (le_finite hsfinite htfinite).mpr hlt.le

/-- The values of a finite column ascend, whatever its kind is. -/
theorem pairwise_values (hfinite : ∀ x ∈ column, x.isFinite = true)
    (h : ofColumn limit column = .ok params) :
    params.values.Pairwise fun s t => s.le t = true := by
  by_cases hmany : limit < (Column.distinctValues column).length
  · have hsize : limit + 1 ≤ column.length :=
      Nat.le_trans hmany (Column.length_distinctValues_le column)
    rw [ofColumn_of_many hmany] at h
    cases h
    exact pairwise_cuts hfinite hsize
  · rw [ofColumn_of_few hmany] at h
    cases h
    unfold ofFew
    split
    · exact pairwise_distinct_le hfinite
    · exact List.Pairwise.nil

/-- The bits of a finite column against its own splits: left and right bits are opposite in every
slot, the left ones are nested over the slots in use, and in a categorical column they tell the
values of the samples apart. A sum that is too large for a double changes none of this. -/
theorem columnBits_areNested (limit : ℕ) (sentinel : Binary64) {column : List Binary64}
    (hfinite : ∀ x ∈ column, x.isFinite = true) :
    ∃ params vector, ofColumn limit column = .ok params ∧
      (vectorReport (.whole limit) (.ok sentinel) column).result = .ok vector ∧
      AreOpposite limit column.length (left column vector) (right column vector) ∧
      AreNested (slotsInUse limit params) (left column vector) ∧
      (params.kind = .categorical →
        SeparateValues (slotsInUse limit params) column vector (left column vector)) := by
  obtain ⟨params, count, hparams, -, hslots, hvector⟩ := exists_vector limit sentinel hfinite
  obtain ⟨other, hother, hshape⟩ := ofColumn_hasShape limit column
  obtain rfl : params = other := Except.ok.inj (hparams.symm.trans hother)
  refine ⟨params, _, hparams, hvector, ?_, ?_, fun hkind => ?_⟩
  · apply areOpposite_left_right
    simp only [List.length_append, List.length_cons, List.length_replicate]
    omega
  · rw [slotsInUse_eq hshape]
    exact areNested_left (pairwise_values hfinite hparams)
  · have hvalues := areValuesOf_distinctValues hfinite
    rw [← values_of_categorical hparams hkind] at hvalues
    rw [slotsInUse_eq hshape]
    exact hvalues.separateValues

/-- Zeros of both signs, and samples at the sentinel and below it. -/
theorem columnBits_areNested_sentinel_samples :
    let sentinel : Binary64 := oneHalf.neg
    let lowest : Binary64 := (Binary64.ofNat 1).neg
    let column : List Binary64 := [lowest, sentinel, zero, zero.neg]
    (∀ x ∈ column, x.isFinite = true) ∧
      ∃ vector, (vectorReport (.whole 4) (.ok sentinel) column).result = .ok vector ∧
        AreNested 3 (left column vector) ∧
        SeparateValues 3 column vector (left column vector) := by
  intro sentinel lowest column
  have hfinite : ∀ x ∈ column, x.isFinite = true := by decide +kernel
  have hascending : column.Pairwise fun x y => Column.precedes x y = true := by decide +kernel
  have hdistinct : Column.distinctValues column = [lowest, sentinel, zero] := by
    rw [Column.distinctValues_of_pairwise hascending]
    decide +kernel
  have hsplits : ofColumn 4 column = .ok ⟨.categorical, 2, [lowest, sentinel, zero]⟩ := by
    unfold ofColumn
    rw [hdistinct]
    rfl
  obtain ⟨params, vector, hparams, hvector, -, hnested, hseparate⟩ :=
    columnBits_areNested 4 sentinel hfinite
  obtain rfl : params = _ := Except.ok.inj (hparams.symm.trans hsplits)
  exact ⟨hfinite, vector, hvector, hnested, hseparate rfl⟩

/-! ## Bits and fixed-point numbers -/

/-- A bit says in which order the numbers of the sample and of the threshold are, under every
precision that gives both a number. So it differs from their comparison only where they are
equal. -/
theorem columnBits_agreeWith_encode (limit : ℕ) (sentinel : Binary64) {column : List Binary64}
    (hfinite : ∀ x ∈ column, x.isFinite = true) :
    ∃ vector, (vectorReport (.whole limit) (.ok sentinel) column).result = .ok vector ∧
      ∀ slot t, vector[slot + 1]? = some t → ∀ i x, column[i]? = some x →
        ∃ b, bit? (left column vector) slot i = some b ∧
          ∀ precision m n, FixedPoint.encode precision x = .ok m →
            FixedPoint.encode precision t = .ok n →
              (b = true → m ≤ n) ∧ (b = false → n ≤ m) ∧ (b ≠ decide (m ≤ n) → m = n) := by
  obtain ⟨params, count, -, -, -, hvector⟩ := exists_vector limit sentinel hfinite
  refine ⟨_, hvector, fun slot t ht i x hx => ⟨x.le t, bit?_left ht hx, ?_⟩⟩
  intro precision m n hm hn
  have hxfinite := hfinite x (List.mem_of_getElem? hx)
  have htfinite := (FixedPoint.exists_scale_of_encode hn).1
  have hbit : x.le t = true ↔ x.units ≤ t.units := le_finite hxfinite htfinite
  have hup : x.le t = true → m ≤ n := fun hle => FixedPoint.encode_mono hm hn (hbit.mp hle)
  have hdown : x.le t = false → n ≤ m := by
    intro hle
    have hlt : t.units ≤ x.units := by
      rw [Bool.eq_false_iff, ne_eq, hbit] at hle
      omega
    exact FixedPoint.encode_mono hn hm hlt
  refine ⟨hup, hdown, fun hdiffers => ?_⟩
  cases hb : x.le t with
  | true =>
    have hmn := hup hb
    simp [hb, hmn] at hdiffers
  | false =>
    have hnm := hdown hb
    have hmn : m ≤ n := by simpa [hb] using hdiffers
    omega

/-- One is beyond one half, but without places both are encoded as one: the bit says that the sample
is not on the left, the comparison of the numbers that it is. -/
theorem columnBits_agreeWith_encode_oneHalf :
    let column : List Binary64 := [oneHalf, .ofNat 1]
    (∀ x ∈ column, x.isFinite = true) ∧
      ∃ vector, (vectorReport (.whole 2) (.ok zero) column).result = .ok vector ∧
        bit? (left column vector) 0 1 = some false ∧
        ∃ m n, FixedPoint.encode (.places 0) (.ofNat 1) = .ok m ∧
          FixedPoint.encode (.places 0) oneHalf = .ok n ∧
            n ≤ m ∧ decide (m ≤ n) = true ∧ m = n := by
  intro column
  have hfinite : ∀ x ∈ column, x.isFinite = true := by decide +kernel
  have hone : FixedPoint.encode (.places 0) (.ofNat 1) = .ok 1 := by decide +kernel
  have hhalf : FixedPoint.encode (.places 0) oneHalf = .ok 1 := by decide +kernel
  have hascending : column.Pairwise fun x y => Column.precedes x y = true := by decide +kernel
  have hdistinct : Column.distinctValues column = column := by
    rw [Column.distinctValues_of_pairwise hascending]
    decide +kernel
  have hsplits : ofColumn 2 column = .ok ⟨.categorical, 1, column⟩ := by
    unfold ofColumn
    rw [hdistinct]
    rfl
  have hvector : (vectorReport (.whole 2) (.ok zero) column).result =
      .ok [.ofNat 1, oneHalf, .ofNat 1] :=
    (@result_vectorReport 2 column _ (result_report hsplits) zero).trans (by decide +kernel)
  obtain ⟨vector, hsame, hagree⟩ := columnBits_agreeWith_encode 2 zero hfinite
  obtain rfl : vector = _ := Except.ok.inj (hsame.symm.trans hvector)
  obtain ⟨b, hbit, horder⟩ := hagree 0 oneHalf rfl 1 (.ofNat 1) rfl
  have hb : b = false := by
    have hle : (Binary64.ofNat 1).le oneHalf = false := by decide +kernel
    rw [bit?_left (t := oneHalf) (x := .ofNat 1) rfl rfl, hle] at hbit
    exact (Option.some.inj hbit).symm
  subst hb
  obtain ⟨-, hdown, hequal⟩ := horder (.places 0) 1 1 hone hhalf
  exact ⟨hfinite, _, hvector, hbit, 1, 1, hone, hhalf, hdown rfl, rfl, hequal (by decide)⟩

end Indicator
end TreeParty
