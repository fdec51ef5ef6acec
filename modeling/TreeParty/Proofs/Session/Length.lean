import TreeParty.Proofs.Session.Schedule
import TreeParty.Proofs.Indicator.Classes
import Mathlib
/-!
# The length of a schedule

How many numbers a session has to send depends on the shape of the samples, the split limit, the
number of labels and the number of distinct labels, and on nothing else: every split vector has the
same length whatever the column is.
-/

set_option autoImplicit false

namespace TreeParty

/-! ## Label classes -/

namespace Indicator

open Binary64

def distinctCount (labels : List Binary64) : Nat := (labels.map units).toFinset.card

theorem length_classes {labels : List Binary64} (hfinite : ∀ x ∈ labels, x.isFinite = true) :
    (classes labels).length = distinctCount labels := by
  have hclass : ∀ c ∈ classes labels, c.isFinite = true := fun c hc =>
    hfinite c (mem_of_mem_classes hc)
  have hnan : ∀ x ∈ labels, x.isNaN = false := fun x hx => isNaN_of_isFinite (hfinite x hx)
  have hnodup : ((classes labels).map units).Nodup := by
    apply List.pairwise_map.mpr
    refine (pairwise_classes hnan).imp_of_mem fun {c d} hc hd hcd heq => ?_
    rw [(same_finite (hclass c hc) (hclass d hd)).mpr heq] at hcd
    cases hcd
  have hset : ((classes labels).map units).toFinset = (labels.map units).toFinset := by
    ext u
    rw [List.mem_toFinset, List.mem_toFinset, List.mem_map, List.mem_map]
    constructor
    · rintro ⟨c, hc, rfl⟩
      exact ⟨c, mem_of_mem_classes hc, rfl⟩
    · rintro ⟨x, hx, rfl⟩
      obtain ⟨c, hc, hsame⟩ := exists_class hnan x hx
      exact ⟨c, hc, ((same_finite (hfinite x hx) (hclass c hc)).mp hsame).symm⟩
  rw [distinctCount, ← hset, List.toFinset_card_of_nodup hnodup, List.length_map]

end Indicator

/-! ## Regular lists -/

theorem length_flatMap_of_forall {α β : Type} {items : List α} {f : α → List β} {size : Nat}
    (h : ∀ a ∈ items, (f a).length = size) : (items.flatMap f).length = items.length * size := by
  rw [List.length_flatMap, List.map_congr_left h, List.map_const', List.sum_replicate, smul_eq_mul]

theorem Grid.length_of_mem_columns {g : Grid} {rows features : Nat}
    (hshape : g.shape = [rows, features]) : ∀ column ∈ g.columns, column.length = rows := by
  intro column hcolumn
  obtain ⟨j, hj, rfl⟩ := List.mem_map.mp hcolumn
  have hj : j < features := by simpa [featureCount, hshape] using hj
  have hcells : g.cells.length = rows * features := by simp [g.complete, hshape, cellCount]
  have hpresent : ∀ i ∈ List.range rows, g.cells[i * features + j]?.isSome := by
    intro i hi
    have hi : i < rows := List.mem_range.mp hi
    have hle : (i + 1) * features ≤ rows * features := Nat.mul_le_mul_right features hi
    rw [isSome_getElem?, hcells]
    rw [Nat.succ_mul] at hle
    omega
  simp only [column, hshape]
  rw [List.length_filterMap_eq_countP, List.countP_eq_length.mpr hpresent, List.length_range]

/-! ## The schedule -/

namespace Session

open Client Indicator

/-- What is public about a session: how many samples, features and splits there are and, at the
label holder, how many labels and how many distinct ones. -/
structure Form where
  rows : Nat
  features : Nat
  limit : Nat
  labelling : Option (Nat × Nat)
  deriving DecidableEq

def Form.inputs (form : Form) : Nat :=
  form.rows * form.features + form.features * (form.limit + 1) +
    2 * form.features * form.limit * form.rows +
      match form.labelling with
      | none => 0
      | some (labels, distinct) => labels + distinct * labels

structure HasForm (s : Session) (form : Form) : Prop where
  shape : s.samples.shape = [form.rows, form.features]
  finiteSamples : ∀ x ∈ s.samples.cells, x.isFinite = true
  labelling : s.labels.map (fun labels => (labels.length, distinctCount labels)) = form.labelling
  finiteLabels : ∀ labels, s.labels = some labels → ∀ x ∈ labels, x.isFinite = true
  splitLimit : s.splitLimit = .whole form.limit
  splitSentinel : ∃ filler, s.splitSentinel = .ok filler

variable {s : Session} {form : Form} {vectors : List (List Binary64)}

theorem HasForm.featureSplits_eq_ok (h : s.HasForm form) :
    ∃ vectors, s.featureSplits.result = .ok vectors ∧ vectors.length = form.features ∧
      ∀ vector ∈ vectors, vector.length = form.limit + 1 := by
  obtain ⟨filler, hfiller⟩ := h.splitSentinel
  obtain ⟨vectors, hvectors, hall⟩ :=
    Session.featureSplits_eq_ok h.finiteSamples h.splitLimit hfiller
  obtain ⟨hcount, hlengths⟩ := lengths_of_isVector h.shape hall
  exact ⟨vectors, hvectors, hcount, hlengths⟩

theorem schedule_eq (s : Session) (vectors : List (List Binary64)) :
    s.schedule vectors = s.samples.cells.map .real ++ (labelEntries s.labels ++
      (vectors.flatMap (·.map .real) ++
        (s.samples.columns.zip vectors).flatMap fun pair => indicatorEntries pair.1 pair.2)) := rfl

theorem length_indicatorEntries (column vector : List Binary64) :
    (indicatorEntries column vector).length = 2 * (vector.length - 1) * column.length := by
  have hleft : (left column vector).flatten.length = (vector.length - 1) * column.length := by
    rw [left, ← List.flatMap_def, length_flatMap_of_forall fun _ _ => List.length_map _,
      List.length_tail]
  have hright : (right column vector).flatten.length = (left column vector).flatten.length := by
    rw [right, ← List.map_flatten, List.length_map]
  rw [indicatorEntries, List.length_append, List.length_map, List.length_map, hright, hleft,
    Nat.mul_assoc, Nat.two_mul]

theorem HasForm.length_labelEntries (h : s.HasForm form) :
    (labelEntries s.labels).length =
      match form.labelling with
      | none => 0
      | some (labels, distinct) => labels + distinct * labels := by
  rw [← h.labelling]
  cases hlabels : s.labels with
  | none => rfl
  | some labels =>
    have hrows : (ofLabels labels).flatten.length = distinctCount labels * labels.length := by
      rw [ofLabels, ← List.flatMap_def, length_flatMap_of_forall fun _ _ => List.length_map _,
        length_classes (h.finiteLabels labels hlabels)]
    rw [labelEntries, List.length_append, List.length_map, List.length_map, hrows]
    rfl

theorem HasForm.length_schedule (h : s.HasForm form) (hvectors : vectors.length = form.features)
    (hlengths : ∀ vector ∈ vectors, vector.length = form.limit + 1) :
    (s.schedule vectors).length = form.inputs := by
  have hcells : s.samples.cells.length = form.rows * form.features := by
    simp [s.samples.complete, h.shape, cellCount]
  have hcolumns : s.samples.columns.length = form.features := by
    simp [Grid.columns, Grid.featureCount, h.shape]
  have hsplits : (vectors.flatMap (·.map Entry.real)).length =
      form.features * (form.limit + 1) := by
    rw [length_flatMap_of_forall fun vector hvector => ?_, hvectors]
    rw [List.length_map, hlengths vector hvector]
  have hindicators : ((s.samples.columns.zip vectors).flatMap fun pair =>
      indicatorEntries pair.1 pair.2).length = form.features * (2 * form.limit * form.rows) := by
    rw [length_flatMap_of_forall fun pair hpair => ?_, List.length_zip, hvectors, hcolumns,
      Nat.min_self]
    obtain ⟨hcolumn, hvector⟩ := List.of_mem_zip hpair
    rw [length_indicatorEntries, hlengths _ hvector,
      Grid.length_of_mem_columns h.shape _ hcolumn]
    rfl
  rw [schedule_eq, List.length_append, List.length_append, List.length_append, List.length_map,
    hcells, h.length_labelEntries, hsplits, hindicators, Form.inputs]
  ring

end Session
end TreeParty
