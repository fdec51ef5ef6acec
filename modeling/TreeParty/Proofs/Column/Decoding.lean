import TreeParty.Proofs.Binary64.Magnitude
import TreeParty.Proofs.Column.Splits
import Mathlib
/-!
# Reading split vectors back

The kind of a column is not in its vector. It is told from the number of splits: none for a
degenerate column, as many as there are slots for a continuous one, and fewer for a categorical one,
which has one value more than splits. The sentinel plays no part in it, so that samples may be equal
to it.
-/

set_option autoImplicit false

namespace TreeParty
namespace SplitParams

open Binary64

variable {limit : Nat} {column : List Binary64} {params : SplitParams}

/-- The shapes that split parameters have under a limit. -/
inductive HasShape (limit : Nat) : SplitParams → Prop where
  | degenerate : HasShape limit ⟨.degenerate, 0, []⟩
  | categorical {count : Nat} {values : List Binary64} (hpos : 1 ≤ count) (hcount : count < limit)
    (hvalues : values.length = count + 1) : HasShape limit ⟨.categorical, count, values⟩
  | continuous {values : List Binary64} (hvalues : values.length = limit) :
    HasShape limit ⟨.continuous, limit, values⟩

/-! ## Every column has one of the shapes -/

def kindOf (limit distinct : Nat) : SplitKind :=
  if limit < distinct then .continuous else if 1 < distinct then .categorical else .degenerate

theorem kind_of_ofColumn (h : ofColumn limit column = .ok params) :
    params.kind = kindOf limit (Column.distinctValues column).length := by
  unfold kindOf
  by_cases hmany : limit < (Column.distinctValues column).length
  · rw [ofColumn_of_many hmany] at h
    cases h
    rw [if_pos hmany]
  · rw [ofColumn_of_few hmany] at h
    cases h
    unfold ofFew
    rw [if_neg hmany]
    split <;> rfl

theorem ofColumn_hasShape (limit : Nat) (column : List Binary64) :
    ∃ params, ofColumn limit column = .ok params ∧ HasShape limit params := by
  obtain ⟨params, hparams, hcount, hused, -⟩ := ofColumn_eq_ok limit column
  have hkind := kind_of_ofColumn hparams
  refine ⟨params, hparams, ?_⟩
  obtain ⟨kind, count, values⟩ := params
  unfold splitCount at hcount
  unfold usedSlots at hused
  unfold kindOf at hkind
  simp only at hcount hused hkind
  generalize (Column.distinctValues column).length = distinct at hcount hused hkind
  by_cases hmany : limit < distinct
  · rw [if_pos hmany] at hused hkind
    rw [Nat.min_eq_left (by omega)] at hcount
    subst hkind hcount
    exact .continuous hused
  · rw [if_neg hmany] at hused hkind
    rw [Nat.min_eq_right (by omega)] at hcount
    by_cases hsome : 1 < distinct
    · rw [if_pos hsome] at hused hkind
      subst hkind hcount
      exact .categorical (by omega) (by omega) (by omega)
    · rw [if_neg hsome] at hused hkind
      have hnone : count = 0 := by omega
      have hempty : values = [] := List.eq_nil_of_length_eq_zero hused
      subst hkind hnone hempty
      exact .degenerate

/-! ## Reading back -/

theorem HasShape.length_values_le (h : HasShape limit params) : params.values.length ≤ limit := by
  cases h with
  | degenerate => exact Nat.zero_le limit
  | categorical hpos hcount hvalues => exact hvalues.trans_le hcount
  | continuous hvalues => exact hvalues.le

theorem HasShape.exists_count (h : HasShape limit params) :
    ∃ count ≤ limit, params.count = (count : Nat) := by
  cases h with
  | degenerate => exact ⟨0, Nat.zero_le limit, rfl⟩
  | categorical hpos hcount hvalues => exact ⟨_, hcount.le, rfl⟩
  | continuous hvalues => exact ⟨limit, le_refl limit, rfl⟩

theorem slice_one_cons {α : Type} (first : α) {front back : List α} {stop : Nat}
    (hstop : stop = 1 + front.length) :
    Position.slice 1 (stop : Int) (first :: (front ++ back)) = front := by
  have hlength : stop ≤ (first :: (front ++ back)).length := by
    rw [List.length_cons, List.length_append]
    omega
  have hslice := Position.slice_natCast 1 stop (first :: (front ++ back)) hlength
  rw [Int.natCast_one] at hslice
  rw [hslice, List.drop_one, List.tail_cons, hstop, Nat.add_sub_cancel_left, List.take_left]

theorem ofVector_cons_append {first filler : Binary64} (hpos : 1 ≤ limit)
    (h : HasShape limit params) (hfirst : first.trunc = .ok params.count) :
    ofVector (first :: (params.values ++
      List.replicate (limit - params.values.length) filler)) = .ok params := by
  have hslots : (params.values ++
      List.replicate (limit - params.values.length) filler).length = limit := by
    have hused := h.length_values_le
    rw [List.length_append, List.length_replicate]
    omega
  unfold ofVector
  simp only [hfirst, hslots]
  cases h with
  | degenerate => rfl
  | @categorical count values hone hcount hvalues =>
    have hslice := @slice_one_cons _ first values
      (List.replicate (limit - values.length) filler) (2 + count) (by omega)
    push_cast at hslice
    dsimp only
    rw [if_neg (by omega), if_neg (by omega), hslice]
  | @continuous values hvalues =>
    have hslice := @slice_one_cons _ first values
      (List.replicate (limit - values.length) filler) (1 + limit) (by omega)
    push_cast at hslice
    dsimp only
    rw [if_neg (by omega), if_pos (Int.le_refl _), hslice]

theorem toVector_of_hasShape (hsmall : limit ≤ Nat.pow 2 53) (h : HasShape limit params)
    (filler : Binary64) :
    ∃ first, first.trunc = .ok params.count ∧ params.toVector limit filler =
      .ok (first :: (params.values ++
        List.replicate (limit - params.values.length) filler)) := by
  obtain ⟨count, hcount, hparams⟩ := h.exists_count
  obtain ⟨first, hdouble, htrunc⟩ := trunc_ofInt?_natCast (hcount.trans hsmall)
  rw [← hparams] at hdouble htrunc
  exact ⟨first, htrunc, toVector_eq_ok filler hdouble h.length_values_le⟩

/-- The splits of every column have one of three shapes, and splits of these shapes are read back
from their vectors, whatever fills the slots that are left. -/
theorem toVector_isReadBack {limit : Nat} (hpos : 1 ≤ limit) (hsmall : limit < Nat.pow 2 53)
    (sentinel : Binary64) :
    (∀ column, ∃ params, (report (.whole limit) column).result = .ok params ∧
      HasShape limit params ∧
      (vectorReport (.whole limit) (.ok sentinel) column).result =
        params.toVector limit sentinel) ∧
    ∀ params, HasShape limit params → ∃ vector, params.toVector limit sentinel = .ok vector ∧
      vector.length = limit + 1 ∧
      (∀ slot, params.values.length < slot → slot ≤ limit → vector[slot]? = some sentinel) ∧
      ofVector vector = .ok params := by
  constructor
  · intro column
    obtain ⟨params, hparams, hshape⟩ := ofColumn_hasShape limit column
    have hreport := result_report hparams
    exact ⟨params, hreport, hshape, result_vectorReport hreport sentinel⟩
  · intro params hshape
    obtain ⟨first, hfirst, hvector⟩ := toVector_of_hasShape hsmall.le hshape sentinel
    have hused := hshape.length_values_le
    refine ⟨_, hvector, ?_, ?_, ofVector_cons_append hpos hshape hfirst⟩
    · rw [List.length_cons, List.length_append, List.length_replicate]
      omega
    · intro slot hslot hlimit
      obtain ⟨place, rfl⟩ : ∃ place, slot = place + 1 := ⟨slot - 1, by omega⟩
      rw [List.getElem?_cons_succ, List.getElem?_append_right (by omega),
        List.getElem?_replicate_of_lt (by omega)]

/-- The lower of the two values of a column is the sentinel itself. -/
theorem toVector_isReadBack_sentinel_sample :
    let low : Binary64 := .finite true 1 (by decide +kernel)
    let high : Binary64 := .finite false 3 (by decide +kernel)
    1 ≤ 2 ∧ 2 < Nat.pow 2 53 ∧
      ofColumn 2 [low, high, low] = .ok ⟨.categorical, 1, [low, high]⟩ ∧
      ∃ vector, toVector 2 low ⟨.categorical, 1, [low, high]⟩ = .ok vector ∧
        vector.length = 3 ∧ ofVector vector = .ok ⟨.categorical, 1, [low, high]⟩ := by
  intro low high
  have hshape : HasShape 2 ⟨.categorical, (1 : Nat), [low, high]⟩ :=
    .categorical (by decide) (by decide) rfl
  have hdistinct : Column.distinctValues [low, high, low] = [low, high] := by cbv
  have hsplits : ofColumn 2 [low, high, low] = .ok ⟨.categorical, 1, [low, high]⟩ := by
    unfold ofColumn
    rw [hdistinct]
    rfl
  refine ⟨by decide, by decide, hsplits, ?_⟩
  obtain ⟨vector, hvector, hlength, -, hback⟩ :=
    (toVector_isReadBack (by decide) (by decide) low).2 _ hshape
  exact ⟨vector, hvector, hlength, hback⟩

end SplitParams
end TreeParty
