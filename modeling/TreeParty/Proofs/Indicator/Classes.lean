import TreeParty.Column.Order
import TreeParty.Indicator
import TreeParty.Proofs.Binary64.Rank
import Mathlib
/-!
# Label classes

The classes of labels without NaN are the labels that equal no earlier one, so the row of a class
begins with the first label of the class. Every label is in exactly one class, and the classes with
their rows give the labels back. The rows themselves are the different rows of the table that says
which labels are equal. The same classes are found by sorting twice: the labels by value, to keep
one place for each value, and then these places.
-/

set_option autoImplicit false

namespace TreeParty

open Binary64

namespace Indicator

/-! ## First places -/

def firstPlace (labels : List Binary64) (c : Binary64) : ℕ := labels.findIdx (·.same c)

variable {labels others values : List Binary64} {c d x : Binary64} {i : ℕ}

theorem firstPlace_congr (h : c.same d = true) : firstPlace labels c = firstPlace labels d := by
  unfold firstPlace
  congr 1
  funext y
  cases hy : y.isNaN with
  | false => exact same_congr (same_self hy) h
  | true =>
    have hnone : ∀ z : Binary64, y.same z = false := by
      intro z
      rw [Bool.eq_false_iff, ne_eq, same_iff, le_iff]
      simp [hy]
    rw [hnone, hnone]

theorem firstPlace_eq (hx : labels[i]? = some x) (hsame : x.same c = true)
    (hbefore : ∀ j < i, ∀ y, labels[j]? = some y → y.same c = false) :
    firstPlace labels c = i := by
  obtain ⟨hi, rfl⟩ := List.getElem?_eq_some_iff.mp hx
  apply (List.findIdx_eq hi).mpr
  exact ⟨hsame, fun j hj => hbefore j hj _ (List.getElem?_eq_getElem _)⟩

theorem firstPlace_cons (x : Binary64) (rest : List Binary64) (c : Binary64) :
    firstPlace (x :: rest) c = if x.same c then 0 else firstPlace rest c + 1 := by
  unfold firstPlace
  rw [List.findIdx_cons, Bool.cond_eq_ite]

/-! ## Classes -/

theorem mem_of_mem_classes {c : Binary64} (h : c ∈ classes labels) : c ∈ labels := by
  induction labels with
  | nil => exact h
  | cons x rest ih =>
    rcases List.mem_cons.mp h with rfl | hrest
    · exact List.mem_cons_self
    · exact List.mem_cons_of_mem x (ih (List.mem_of_mem_filter hrest))

theorem sameClass_eq (hx : x.isNaN = false) (y : Binary64) : sameClass x y = x.same y := by
  rw [sameClass, hx, Bool.false_and, Bool.or_false]

/-- The classes after the first are those of the other labels, without the first label. -/
theorem mem_classes_cons {rest : List Binary64} (hx : x.isNaN = false) :
    c ∈ classes (x :: rest) ↔ c = x ∨ c ∈ classes rest ∧ x.same c = false := by
  simp only [classes, List.mem_cons, List.mem_filter, sameClass_eq hx, Bool.not_eq_true']

section

variable (hnan : ∀ x ∈ labels, x.isNaN = false)

include hnan

theorem exists_class : ∀ x ∈ labels, ∃ c ∈ classes labels, x.same c = true := by
  induction labels with
  | nil => exact fun x hx => absurd hx List.not_mem_nil
  | cons y rest ih =>
    have hy := hnan y List.mem_cons_self
    intro x hx
    rcases List.mem_cons.mp hx with rfl | hrest
    · exact ⟨x, List.mem_cons_self, same_self hy⟩
    · obtain ⟨c, hc, hxc⟩ := ih (fun z hz => hnan z (List.mem_cons_of_mem y hz)) x hrest
      cases hyc : y.same c with
      | false => exact ⟨c, (mem_classes_cons hy).mpr (.inr ⟨hc, hyc⟩), hxc⟩
      | true =>
        have hxy : x.same y = x.same c := same_congr (same_self (hnan x hx)) hyc
        exact ⟨y, List.mem_cons_self, hxy.trans hxc⟩

theorem getElem?_firstPlace (hc : c ∈ classes labels) :
    labels[firstPlace labels c]? = some c := by
  induction labels with
  | nil => exact absurd hc List.not_mem_nil
  | cons x rest ih =>
    have hx := hnan x List.mem_cons_self
    rw [firstPlace_cons]
    rcases (mem_classes_cons hx).mp hc with rfl | ⟨hrest, hother⟩
    · rw [if_pos (same_self hx), List.getElem?_cons_zero]
    · rw [if_neg (by simp [hother]), List.getElem?_cons_succ]
      exact ih (fun z hz => hnan z (List.mem_cons_of_mem x hz)) hrest

theorem pairwise_firstPlace :
    (classes labels).Pairwise fun c d => firstPlace labels c < firstPlace labels d := by
  induction labels with
  | nil => exact List.Pairwise.nil
  | cons x rest ih =>
    have hx := hnan x List.mem_cons_self
    have hshift : ∀ c ∈ (classes rest).filter (fun y => !sameClass x y),
        firstPlace (x :: rest) c = firstPlace rest c + 1 := by
      intro c hc
      have hother := (List.mem_filter.mp hc).2
      rw [sameClass_eq hx] at hother
      rw [firstPlace_cons, if_neg (by simpa using hother)]
    rw [classes, List.pairwise_cons]
    constructor
    · intro c hc
      rw [hshift c hc, firstPlace_cons, if_pos (same_self hx)]
      exact Nat.succ_pos _
    · have hrest := (ih fun z hz => hnan z (List.mem_cons_of_mem x hz)).filter
        fun y => !sameClass x y
      refine hrest.imp_of_mem fun {c d} hc hd hlt => ?_
      rw [hshift c hc, hshift d hd]
      exact Nat.succ_lt_succ hlt

theorem pairwise_classes : (classes labels).Pairwise fun c d => c.same d = false := by
  refine (pairwise_firstPlace hnan).imp fun {c d} hlt => ?_
  rw [Bool.eq_false_iff]
  intro hsame
  rw [firstPlace_congr hsame] at hlt
  exact Nat.lt_irrefl _ hlt

end

/-! ## One-hot rows -/

/-- The row of a number: a bit for each label, one where they are equal. -/
def rowOf (labels : List Binary64) (c : Binary64) : List Bool := labels.map fun x => x.same c

theorem ofLabels_eq (labels : List Binary64) :
    ofLabels labels = (classes labels).map (rowOf labels) := rfl

theorem getElem?_rowOf (hx : labels[i]? = some x) (c : Binary64) :
    (rowOf labels c)[i]? = some (x.same c) := by
  unfold rowOf
  rw [List.getElem?_map, hx]
  rfl

theorem idxOf_rowOf (labels : List Binary64) (c : Binary64) :
    (rowOf labels c).idxOf true = firstPlace labels c := by
  unfold rowOf firstPlace List.idxOf
  rw [List.findIdx_map]
  congr 1
  funext x
  simp

/-- Whether rows of bits say which label is in which class: the classes are the different labels in
the order of their first places, each label has exactly one one, in the row of its class, and each
row begins its ones with its class itself. -/
structure IsOneHot (labels classes : List Binary64) (rows : BitRows) : Prop where
  length_rows : rows.length = classes.length
  different : classes.Pairwise fun c d => c.same d = false
  covered : ∀ x ∈ labels, ∃ c ∈ classes, x.same c = true
  length_row : ∀ row ∈ rows, row.length = labels.length
  one_in_column : ∀ i < labels.length, rows.countP (fun row => row[i]? == some true) = 1
  one_in_row : ∀ row ∈ rows, true ∈ row
  ascending : rows.Pairwise fun row next => row.idxOf true < next.idxOf true
  first_eq : ∀ (k : ℕ) (row : List Bool), rows[k]? = some row →
    labels[row.idxOf true]? = classes[k]?
  bit_eq : ∀ (k i : ℕ) (c x : Binary64), classes[k]? = some c → labels[i]? = some x →
    ∃ row, rows[k]? = some row ∧ row[i]? = some (x.same c)

theorem countP_same_eq_one {values : List Binary64}
    (hdifferent : values.Pairwise fun c d => c.same d = false)
    (hcovered : ∃ c ∈ values, x.same c = true) : values.countP (x.same ·) = 1 := by
  induction values with
  | nil =>
    obtain ⟨c, hc, -⟩ := hcovered
    exact absurd hc List.not_mem_nil
  | cons c rest ih =>
    obtain ⟨hc, hrest⟩ := List.pairwise_cons.mp hdifferent
    cases hxc : x.same c with
    | true =>
      have hnone : rest.countP (x.same ·) = 0 := by
        rw [List.countP_eq_zero]
        intro d hd hxd
        have hcd : c.same d = true := same_trans (same_comm c x ▸ hxc) hxd
        rw [hc d hd] at hcd
        cases hcd
      rw [List.countP_cons_of_pos hxc, hnone]
    | false =>
      rw [List.countP_cons_of_neg (by simp [hxc])]
      apply ih hrest
      obtain ⟨d, hd, hxd⟩ := hcovered
      rcases List.mem_cons.mp hd with rfl | hmem
      · rw [hxc] at hxd
        cases hxd
      · exact ⟨d, hmem, hxd⟩

theorem isOneHot_ofLabels (hnan : ∀ x ∈ labels, x.isNaN = false) :
    IsOneHot labels (classes labels) (ofLabels labels) where
  length_rows := List.length_map _
  different := pairwise_classes hnan
  covered := exists_class hnan
  length_row := by
    intro row hrow
    obtain ⟨c, -, rfl⟩ := List.mem_map.mp hrow
    exact List.length_map _
  one_in_column := by
    intro i hi
    have hx := List.getElem?_eq_getElem hi
    have hbit : (fun row : List Bool => row[i]? == some true) ∘ rowOf labels =
        fun c => labels[i].same c := by
      funext c
      simp [getElem?_rowOf hx]
    rw [ofLabels_eq, List.countP_map, hbit]
    exact countP_same_eq_one (pairwise_classes hnan) (exists_class hnan _ (List.getElem_mem hi))
  one_in_row := by
    intro row hrow
    obtain ⟨c, hc, rfl⟩ := List.mem_map.mp hrow
    have hmem := mem_of_mem_classes hc
    exact List.mem_map.mpr ⟨c, hmem, same_self (hnan c hmem)⟩
  ascending := by
    rw [ofLabels_eq, List.pairwise_map]
    refine (pairwise_firstPlace hnan).imp fun {c d} hlt => ?_
    rwa [idxOf_rowOf, idxOf_rowOf]
  first_eq := by
    intro k row hrow
    rw [ofLabels_eq, List.getElem?_map, Option.map_eq_some_iff] at hrow
    obtain ⟨c, hc, rfl⟩ := hrow
    rw [idxOf_rowOf, getElem?_firstPlace hnan (List.mem_of_getElem? hc), hc]
  bit_eq := by
    intro k i c x hc hx
    refine ⟨rowOf labels c, ?_, getElem?_rowOf hx c⟩
    rw [ofLabels_eq, List.getElem?_map, hc]
    rfl

/-! ## Reading the labels back -/

def classAt (classes : List Binary64) (rows : BitRows) (i : ℕ) : Option Binary64 :=
  ((classes.zip rows).find? fun p => p.2[i]? == some true).map (·.1)

theorem classAt_map (values : List Binary64) (f : Binary64 → List Bool) (i : ℕ) :
    classAt values (values.map f) i = values.find? fun c => (f c)[i]? == some true := by
  unfold classAt
  induction values with
  | nil => rfl
  | cons c rest ih =>
    rw [List.map_cons, List.zip_cons_cons, List.find?_cons, List.find?_cons]
    cases (f c)[i]? == some true with
    | true => rfl
    | false => exact ih

/-- The classes and their rows give back a number equal to each label. -/
theorem classAt_ofLabels (hnan : ∀ x ∈ labels, x.isNaN = false) (i : ℕ) :
    Option.Rel (fun x c => x.same c = true) labels[i]?
      (classAt (classes labels) (ofLabels labels) i) := by
  rw [ofLabels_eq, classAt_map]
  cases hx : labels[i]? with
  | none =>
    have hnone : (classes labels).find? (fun c => (rowOf labels c)[i]? == some true) = none := by
      rw [List.find?_eq_none]
      intro c _
      simp [rowOf, hx]
    rw [hnone]
    exact Option.Rel.none
  | some x =>
    simp only [getElem?_rowOf hx, Option.some_beq_some, beq_true]
    obtain ⟨c, hc, hxc⟩ := exists_class hnan x (List.mem_of_getElem? hx)
    cases hfind : (classes labels).find? fun c => x.same c with
    | none => exact absurd hxc (by simpa using List.find?_eq_none.mp hfind c hc)
    | some d => exact Option.Rel.some (by simpa using List.find?_some hfind)

/-! ## Only equality matters -/

structure HaveSamePattern (labels others : List Binary64) : Prop where
  length_eq : labels.length = others.length
  same_eq : ∀ (i j : ℕ) (x y x' y' : Binary64), labels[i]? = some x → labels[j]? = some y →
    others[i]? = some x' → others[j]? = some y' → x.same y = x'.same y'

def equality (labels : List Binary64) : BitRows := labels.map (rowOf labels)

theorem HaveSamePattern.equality_eq (h : HaveSamePattern labels others) :
    equality others = equality labels := by
  unfold equality rowOf
  apply List.ext_getElem
  · simp [h.length_eq]
  · intro i hi hi'
    rw [List.getElem_map, List.getElem_map]
    apply List.ext_getElem
    · simp [h.length_eq]
    · intro j hj hj'
      rw [List.length_map] at hi hi' hj hj'
      rw [List.getElem_map, List.getElem_map]
      symm
      apply h.same_eq j i
      · exact List.getElem?_eq_getElem hj'
      · exact List.getElem?_eq_getElem hi'
      · exact List.getElem?_eq_getElem hj
      · exact List.getElem?_eq_getElem hi

theorem rowOf_eq_iff (hnan : ∀ x ∈ labels, x.isNaN = false) (hc : c ∈ labels) :
    rowOf labels d = rowOf labels c ↔ c.same d = true := by
  constructor
  · intro hrows
    obtain ⟨i, hi⟩ := List.mem_iff_getElem?.mp hc
    have hbit := getElem?_rowOf hi d
    rw [hrows, getElem?_rowOf hi c, Option.some.injEq] at hbit
    rw [← hbit]
    exact same_self (hnan c hc)
  · intro hsame
    apply List.map_congr_left
    intro x hx
    exact (same_congr (same_self (hnan x hx)) hsame).symm

theorem eraseDups_filter {α : Type} [BEq α] [LawfulBEq α] (P : α → Bool) (items : List α) :
    (items.filter P).eraseDups = items.eraseDups.filter P := by
  match items with
  | [] => rfl
  | x :: rest =>
    have hrest := eraseDups_filter P (rest.filter fun y => !y == x)
    rw [List.eraseDups_cons]
    by_cases hx : P x = true
    · rw [List.filter_cons_of_pos hx, List.filter_cons_of_pos hx, List.eraseDups_cons, ← hrest,
        List.filter_filter, List.filter_filter]
      simp only [Bool.and_comm]
    · -- what equals a dropped item is dropped too
      have hdrop : (rest.filter fun y => !y == x).filter P = rest.filter P := by
        rw [List.filter_filter]
        apply List.filter_congr
        intro y _
        by_cases hyx : y = x
        · simp [hyx, hx]
        · simp [hyx]
      rw [List.filter_cons_of_neg hx, List.filter_cons_of_neg hx, ← hrest, hdrop]
termination_by items.length
decreasing_by exact Nat.lt_succ_of_le (List.length_filter_le _ _)

/-- The rows of some labels, without repetitions, are the rows of their classes. -/
theorem map_rowOf_classes (hnan : ∀ x ∈ labels, x.isNaN = false) {part : List Binary64}
    (hpart : part ⊆ labels) :
    (classes part).map (rowOf labels) = (part.map (rowOf labels)).eraseDups := by
  induction part with
  | nil => rfl
  | cons x rest ih =>
    obtain ⟨hx, hrest⟩ := List.cons_subset.mp hpart
    have hother :
        (fun y => !sameClass x y) = (fun row => !row == rowOf labels x) ∘ rowOf labels := by
      funext y
      rw [sameClass_eq (hnan x hx), Function.comp_apply, Bool.eq_iff_iff]
      simp [rowOf_eq_iff hnan hx]
    rw [classes, List.map_cons, List.map_cons, List.eraseDups_cons, hother, ← List.filter_map,
      ih hrest, eraseDups_filter]

/-- The rows of the classes are the different rows of the table of equal labels. -/
theorem ofLabels_eq_eraseDups (hnan : ∀ x ∈ labels, x.isNaN = false) :
    ofLabels labels = (equality labels).eraseDups :=
  map_rowOf_classes hnan (List.Subset.refl labels)

/-! ## Sorting twice -/

/-- Whether values are the different labels in ascending order, each with the place where it is
first found. -/
structure AreFirstPlaces (labels values : List Binary64) (places : List ℕ) : Prop where
  ascending : values.Pairwise fun v w => w.le v = false
  complete : ∀ x ∈ labels, ∃ v ∈ values, x.same v = true
  first : List.Forall₂ (fun v place => ∃ x, labels[place]? = some x ∧ x.same v = true ∧
    ∀ j < place, ∀ y, labels[j]? = some y → y.same v = false) values places

namespace AreFirstPlaces

variable {places : List ℕ} (h : AreFirstPlaces labels values places)

include h

theorem places_eq : places = values.map (firstPlace labels) := by
  have hfirst : List.Forall₂ (fun v place => firstPlace labels v = place) values places := by
    refine h.first.imp fun v place hplace => ?_
    obtain ⟨x, hx, hsame, hbefore⟩ := hplace
    exact firstPlace_eq hx hsame hbefore
  rw [← List.forall₂_map_left_iff, List.forall₂_eq_eq_eq] at hfirst
  exact hfirst.symm

/-- Each value is equal to a label, the one at its first place. -/
theorem exists_label : ∀ v ∈ values, ∃ x, labels[firstPlace labels v]? = some x ∧
    x.same v = true := by
  intro v hv
  obtain ⟨k, hk, rfl⟩ := List.mem_iff_getElem.mp hv
  have hlength := h.first.length_eq
  obtain ⟨x, hx, hsame, hbefore⟩ := List.Forall₂.get h.first hk (hlength ▸ hk)
  have hplace := firstPlace_eq hx hsame hbefore
  exact ⟨x, hplace ▸ hx, hsame⟩

theorem nodup_places : places.Nodup := by
  rw [h.places_eq]
  refine List.pairwise_map.mpr (h.ascending.imp_of_mem fun {v w} hv hw hlt heq => ?_)
  obtain ⟨x, hx, hxv⟩ := h.exists_label v hv
  obtain ⟨y, hy, hyw⟩ := h.exists_label w hw
  rw [heq, hy, Option.some.injEq] at hx
  subst hx
  have hwv : w.same v = true := same_trans (same_comm w y ▸ hyw) hxv
  rw [(same_iff.mp hwv).1] at hlt
  cases hlt

variable (hnan : ∀ x ∈ labels, x.isNaN = false)

include hnan

theorem mem_places_iff (place : ℕ) :
    place ∈ places ↔ place ∈ (classes labels).map (firstPlace labels) := by
  rw [h.places_eq]
  simp only [List.mem_map]
  constructor
  · rintro ⟨v, hv, rfl⟩
    obtain ⟨x, hx, hxv⟩ := h.exists_label v hv
    obtain ⟨c, hc, hxc⟩ := exists_class hnan x (List.mem_of_getElem? hx)
    exact ⟨c, hc, firstPlace_congr (same_trans (same_comm c x ▸ hxc) hxv)⟩
  · rintro ⟨c, hc, rfl⟩
    obtain ⟨v, hv, hcv⟩ := h.complete c (mem_of_mem_classes hc)
    exact ⟨v, hv, (firstPlace_congr hcv).symm⟩

/-- Sorted by themselves the places are those of the classes. -/
theorem mergeSort_eq :
    (places.mergeSort fun i j => decide (i ≤ j)) = (classes labels).map (firstPlace labels) := by
  have hclasses := List.pairwise_map.mpr (pairwise_firstPlace hnan)
  have hnodup : ((classes labels).map (firstPlace labels)).Nodup := hclasses.imp Nat.ne_of_lt
  have hperm : places.Perm ((classes labels).map (firstPlace labels)) :=
    (List.perm_ext_iff_of_nodup h.nodup_places hnodup).mpr (h.mem_places_iff hnan)
  apply List.Perm.eq_of_sortedLE
  · exact List.sortedLE_mergeSort
  · exact (hclasses.imp Nat.le_of_lt).sortedLE
  · exact (List.mergeSort_perm places _).trans hperm

theorem length_values : values.length = (classes labels).length := by
  have hlength := congrArg List.length (h.mergeSort_eq hnan)
  rw [List.length_mergeSort, List.length_map, h.places_eq, List.length_map] at hlength
  exact hlength

end AreFirstPlaces

/-- The labels at the first places of some of the classes are these classes. -/
theorem select_firstPlace (hnan : ∀ x ∈ labels, x.isNaN = false) {part : List Binary64}
    (hpart : part ⊆ classes labels) :
    Column.select labels (part.map fun c => (firstPlace labels c : ℤ)) = .ok part := by
  unfold Column.select
  induction part with
  | nil => rfl
  | cons c rest ih =>
    obtain ⟨hc, hrest⟩ := List.cons_subset.mp hpart
    rw [List.map_cons, List.mapM_cons, ih hrest, Position.get?_natCast,
      getElem?_firstPlace hnan hc]
    rfl

theorem pairwise_mergeSort_classes (hnan : ∀ x ∈ labels, x.isNaN = false) :
    ((classes labels).mergeSort Column.precedes).Pairwise fun v w => w.le v = false := by
  have hperm := List.mergeSort_perm (classes labels) Column.precedes
  have hsorted := List.pairwise_mergeSort (fun a b c => @Column.precedes_trans a b c)
    (fun a b => by simpa using Column.precedes_total a b) (classes labels)
  have hdifferent : ((classes labels).mergeSort Column.precedes).Pairwise
      fun v w => v.same w = false :=
    (hperm.pairwise_iff fun {v w} hvw => same_comm v w ▸ hvw).mpr (pairwise_classes hnan)
  refine (hsorted.and hdifferent).imp_of_mem fun {v w} _ hw hvw => ?_
  obtain ⟨hprecedes, hother⟩ := hvw
  have hnumber : w.isNaN = false := hnan w (mem_of_mem_classes (hperm.mem_iff.mp hw))
  rw [Column.precedes, hnumber, Bool.false_or] at hprecedes
  rw [Bool.eq_false_iff]
  intro hwv
  rw [same_iff.mpr ⟨hprecedes, hwv⟩] at hother
  cases hother

/-- Labels without NaN have such places: those of their classes, sorted by value. -/
theorem exists_areFirstPlaces (hnan : ∀ x ∈ labels, x.isNaN = false) :
    ∃ values places, AreFirstPlaces labels values places := by
  have hperm := List.mergeSort_perm (classes labels) Column.precedes
  refine ⟨_, ((classes labels).mergeSort Column.precedes).map (firstPlace labels),
    pairwise_mergeSort_classes hnan, ?_, ?_⟩
  · intro x hx
    obtain ⟨c, hc, hxc⟩ := exists_class hnan x hx
    exact ⟨c, hperm.mem_iff.mpr hc, hxc⟩
  · rw [List.forall₂_map_right_iff, List.forall₂_same]
    intro v hv
    have hclass : v ∈ classes labels := hperm.mem_iff.mp hv
    have hnumber : v.isNaN = false := hnan v (mem_of_mem_classes hclass)
    refine ⟨v, getElem?_firstPlace hnan hclass, same_self hnumber, ?_⟩
    intro j hj y hy
    obtain ⟨_, rfl⟩ := List.getElem?_eq_some_iff.mp hy
    exact List.not_of_lt_findIdx hj

/-- The rows of the label classes are a one-hot encoding that loses nothing: classes and rows give
the labels back, the rows depend only on which labels are equal, and there is one row for each
value that sorting keeps, in the order of the first places. -/
theorem ofLabels_isLossless {labels : List Binary64} (hnan : ∀ x ∈ labels, x.isNaN = false) :
    IsOneHot labels (classes labels) (ofLabels labels) ∧
    (∀ i : ℕ, Option.Rel (fun x c => x.same c = true) labels[i]?
      (classAt (classes labels) (ofLabels labels) i)) ∧
    (∀ others : List Binary64, (∀ x ∈ others, x.isNaN = false) → HaveSamePattern labels others →
      ofLabels others = ofLabels labels) ∧
    (∃ values places, AreFirstPlaces labels values places) ∧
    ∀ values places, AreFirstPlaces labels values places →
      (ofLabels labels).length = values.length ∧
      Column.select labels ((places.mergeSort fun i j => decide (i ≤ j)).map fun i : ℕ => (i : ℤ)) =
        .ok (classes labels) := by
  refine ⟨isOneHot_ofLabels hnan, classAt_ofLabels hnan, ?_, exists_areFirstPlaces hnan, ?_⟩
  · intro others hothers hpattern
    rw [ofLabels_eq_eraseDups hothers, hpattern.equality_eq, ofLabels_eq_eraseDups hnan]
  · intro values places hplaces
    constructor
    · rw [hplaces.length_values hnan]
      exact List.length_map _
    · rw [hplaces.mergeSort_eq hnan, List.map_map]
      exact select_firstPlace hnan (List.Subset.refl _)

/-- Zeros of both signs are one class, and an infinity is another. -/
theorem ofLabels_isLossless_zeros :
    let labels : List Binary64 := [inf false, zero, inf false, oneHalf, zero.neg]
    (∀ x ∈ labels, x.isNaN = false) ∧
      IsOneHot labels [inf false, zero, oneHalf] [[true, false, true, false, false],
        [false, true, false, false, true], [false, false, false, true, false]] := by
  intro labels
  have hnan : ∀ x ∈ labels, x.isNaN = false := by decide +kernel
  have hclasses : classes labels = [inf false, zero, oneHalf] := by decide +kernel
  have hrows : ofLabels labels = [[true, false, true, false, false],
      [false, true, false, false, true], [false, false, false, true, false]] := by
    decide +kernel
  have honehot := (ofLabels_isLossless hnan).1
  rw [hclasses, hrows] at honehot
  exact ⟨hnan, honehot⟩

end Indicator
end TreeParty
