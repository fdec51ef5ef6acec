import TreeParty.Proofs.Dataset.Fit
import TreeParty.Proofs.Session.Schedule
import Mathlib
/-!
# Sessions that stay inside the field

When samples and labels fit the field, so do the thresholds, and what is left to fit are the number
of splits and the sentinel of each split vector. A session with honest engines returns exactly if
they do.
-/

set_option autoImplicit false

namespace TreeParty

open Binary64 FixedPoint

/-! ## Split vectors -/

namespace SplitParams

variable {F : FieldParams} {places limit : Nat} {filler : Binary64} {column vector : List Binary64}

theorem IsCut.fits (hpos : 0 < places) {v : Binary64} (hcut : IsCut column v)
    (hcolumn : ∀ x ∈ column, Fits F places x) : Fits F places v := by
  rcases hcut with hmem | ⟨x, hx, y, hy, rfl⟩
  · exact hcolumn v hmem
  · exact (hcolumn x hx).midpoint hpos (hcolumn y hy)

theorem splitCount_pos_of_usedSlots (hlimit : 0 < limit) (h : usedSlots limit column = limit) :
    0 < splitCount limit column := by
  unfold usedSlots at h
  unfold splitCount
  simp only at h
  split_ifs at h <;> omega

theorem splitCount_le (limit : Nat) (column : List Binary64) : splitCount limit column ≤ limit :=
  Nat.min_le_left _ _

theorem fits_splitCount (hplaces : places < 1024)
    (hsmall : limit * Nat.pow 2 places < Nat.pow 2 52) {count : Binary64}
    (hcount : ofInt? (splitCount limit column) = some count) :
    Fits F places count ↔ splitCount limit column * Nat.pow 2 places ≤ F.prime / 2 := by
  have hshifted : splitCount limit column * Nat.pow 2 places ≤ limit * Nat.pow 2 places :=
    Nat.mul_le_mul_right _ (splitCount_le limit column)
  have hdigits : splitCount limit column ≤ Nat.pow 2 53 := by
    have hone : 1 ≤ Nat.pow 2 places := Nat.one_le_two_pow
    have hself := Nat.le_mul_of_pos_right (splitCount limit column) hone
    have hpowers : Nat.pow 2 52 ≤ Nat.pow 2 53 := by decide
    omega
  obtain ⟨x, hx, hfinite, hunits⟩ := ofInt?_natCast hdigits
  rw [hcount] at hx
  cases hx
  exact fits_whole hplaces hfinite hunits (Nat.lt_of_le_of_lt hshifted hsmall)

/-- A split vector of values that fit does itself fit if its count does and is not zero, or the
sentinel stands for one. -/
theorem IsVector.fits_iff (hplaces : places < 1024) (hpos : 0 < places) (hlimit : 0 < limit)
    (hsmall : limit * Nat.pow 2 places < Nat.pow 2 52) (hfinite : filler.isFinite = true)
    (hfiller : filler.units.natAbs = 1 * unitsPerOne)
    (hvector : IsVector limit filler column vector) (hcolumn : ∀ x ∈ column, Fits F places x) :
    (∀ v ∈ vector, Fits F places v) ↔
      max 1 (splitCount limit column) * Nat.pow 2 places ≤ F.prime / 2 := by
  obtain ⟨count, values, rfl, hcount, hused, hcuts⟩ := hvector
  have hpower : Nat.pow 2 places ≤ limit * Nat.pow 2 places := Nat.le_mul_of_pos_left _ hlimit
  have hcountfits := @fits_splitCount F places limit column hplaces hsmall count hcount
  have hfillerfits : Fits F places filler ↔ 1 * Nat.pow 2 places ≤ F.prime / 2 :=
    fits_whole hplaces hfinite hfiller (by omega)
  constructor
  · intro hall
    have hcountok := hcountfits.mp (hall count (by simp))
    by_cases hroom : values.length < limit
    · have hmem : filler ∈ count :: values ++ List.replicate (limit - values.length) filler := by
        refine List.mem_append_right _ (List.mem_replicate.mpr ⟨by omega, rfl⟩)
      have hfillerok := hfillerfits.mp (hall filler hmem)
      rcases Nat.le_total 1 (splitCount limit column) with hone | hone
      · rwa [Nat.max_eq_right hone]
      · rwa [Nat.max_eq_left hone]
    · have hslots := usedSlots_le limit column
      have hone := @splitCount_pos_of_usedSlots limit column hlimit (by omega)
      rwa [Nat.max_eq_right hone]
  · intro hbound v hv
    rcases List.mem_append.mp hv with hfront | hback
    · rcases List.mem_cons.mp hfront with rfl | hvalue
      · exact hcountfits.mpr ((Nat.mul_le_mul_right _ (Nat.le_max_right _ _)).trans hbound)
      · exact (hcuts v hvalue).fits hpos hcolumn
    · rw [List.eq_of_mem_replicate hback]
      exact hfillerfits.mpr ((Nat.mul_le_mul_right _ (Nat.le_max_left _ _)).trans hbound)

end SplitParams

/-! ## Entries -/

namespace Client

variable {client : Client} {places : Nat}

theorem accepted?_real (hprecision : client.precision = .places places) (x : Binary64) :
    ((Entry.real x).accepted? client).isSome ↔ Fits client.field places x := by
  have hnumber : (Entry.real x).number client = encode (.places places) x := by
    rw [← hprecision]
    rfl
  unfold Entry.accepted? Fits
  rw [hnumber]
  cases encode (.places places) x with
  | error fault => simp
  | ok n =>
    by_cases hlarge : client.field.prime / 2 < n.natAbs
    · simp [hlarge]
    · simp [hlarge, Nat.le_of_not_lt hlarge]

theorem accepted?_bit (client : Client) (b : Bool) : ((Entry.bit b).accepted? client).isSome := by
  have hprime := client.field.three_le_prime
  have hsmall : ¬ client.field.prime / 2 < (if b then 1 else 0 : Int).natAbs := by
    cases b
    · exact Nat.not_lt_zero _
    · change ¬ client.field.prime / 2 < 1
      omega
  unfold Entry.accepted? Entry.number
  dsimp only
  rw [if_neg hsmall]
  rfl

end Client

namespace Session

open Client Mailbox SplitParams

variable {s : Session} {places limit : Nat} {filler : Binary64}
  {vectors : List (List Binary64)}

theorem accepted_reals_iff (hprecision : s.client.precision = .places places)
    (values : List Binary64) :
    (∀ entry ∈ values.map Entry.real, (entry.accepted? s.client).isSome) ↔
      ∀ x ∈ values, Fits s.client.field places x := by
  rw [List.forall_mem_map]
  exact forall₂_congr fun x _ => accepted?_real hprecision x

theorem accepted_bits (client : Client) (bits : List Bool) :
    ∀ entry ∈ bits.map Entry.bit, (entry.accepted? client).isSome := by
  rw [List.forall_mem_map]
  exact fun b _ => accepted?_bit client b

/-- All entries of a schedule are accepted exactly if the split vectors fit, when the samples and
labels do. -/
theorem accepted_schedule_iff (hprecision : s.client.precision = .places places)
    (hcells : ∀ x ∈ s.samples.cells, Fits s.client.field places x)
    (hlabels : ∀ x ∈ s.labels.getD [], Fits s.client.field places x) :
    (∀ entry ∈ s.schedule vectors, (entry.accepted? s.client).isSome) ↔
      ∀ vector ∈ vectors, ∀ v ∈ vector, Fits s.client.field places v := by
  have hlabelled : ∀ entry ∈ labelEntries s.labels, (entry.accepted? s.client).isSome := by
    cases hcase : s.labels with
    | none => exact fun entry hentry => absurd hentry List.not_mem_nil
    | some labels =>
      rw [hcase] at hlabels
      exact List.forall_mem_append.mpr
        ⟨(accepted_reals_iff hprecision labels).mpr hlabels, accepted_bits s.client _⟩
  have hindicated : ∀ pair ∈ s.samples.columns.zip vectors,
      ∀ entry ∈ indicatorEntries pair.1 pair.2, (entry.accepted? s.client).isSome :=
    fun _ _ => List.forall_mem_append.mpr ⟨accepted_bits s.client _, accepted_bits s.client _⟩
  have hsplit : (∀ entry ∈ vectors.flatMap (·.map Entry.real), (entry.accepted? s.client).isSome) ↔
      ∀ vector ∈ vectors, ∀ v ∈ vector, Fits s.client.field places v := by
    rw [List.forall_mem_flatMap]
    exact forall₂_congr fun vector _ => accepted_reals_iff hprecision vector
  unfold schedule
  rw [List.forall_mem_append, List.forall_mem_append, List.forall_mem_append, hsplit]
  have hsamples := (accepted_reals_iff hprecision s.samples.cells).mpr hcells
  constructor
  · intro h
    exact h.2.2.1
  · intro h
    exact ⟨hsamples, hlabelled, h, List.forall_mem_flatMap.mpr hindicated⟩

/-- Whether the counts and sentinels of the split vectors of some columns fit the field. -/
def HasRoom (F : FieldParams) (places limit : Nat) (columns : List (List Binary64)) : Prop :=
  ∀ column ∈ columns, max 1 (splitCount limit column) * Nat.pow 2 places ≤ F.prime / 2

theorem vectors_fit_iff (hplaces : places < 1024) (hpos : 0 < places) (hlimit : 0 < limit)
    (hsmall : limit * Nat.pow 2 places < Nat.pow 2 52) (hfinite : filler.isFinite = true)
    (hfiller : filler.units.natAbs = 1 * unitsPerOne) {F : FieldParams}
    {columns : List (List Binary64)} (hall : List.Forall₂ (IsVector limit filler) columns vectors)
    (hcolumns : ∀ column ∈ columns, ∀ x ∈ column, Fits F places x) :
    (∀ vector ∈ vectors, ∀ v ∈ vector, Fits F places v) ↔ HasRoom F places limit columns := by
  unfold HasRoom
  induction hall with
  | nil => simp
  | cons hvector _ ih =>
    have hfirst := hvector.fits_iff hplaces hpos hlimit hsmall hfinite hfiller
      (hcolumns _ List.mem_cons_self)
    have hrest := ih fun column hcolumn => hcolumns column (List.mem_cons_of_mem _ hcolumn)
    rw [List.forall_mem_cons, List.forall_mem_cons, hfirst, hrest]

end Session
end TreeParty
