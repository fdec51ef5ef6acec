import TreeParty.Indicator
import TreeParty.Proofs.Binary64.Midpoint
import TreeParty.Proofs.Column.Rank
import TreeParty.Proofs.Column.Splits
import Mathlib
/-!
# Columns in another order

The splits of a column depend on its samples and not on their order. Sorting brings two orders of
the same samples to lists of equal numbers, where only the signs of zeros may differ, and dropping
repetitions, cutting and filling up keep that. The bits of each sample move with it.
-/

set_option autoImplicit false

namespace TreeParty

open Binary64

abbrev AreSame : List Binary64 → List Binary64 → Prop :=
  List.Forall₂ fun x y => x.same y = true

def rearrange {α : Type} (order : List ℕ) (items : List α) : List α :=
  order.filterMap (items[·]?)

section Order

variable {α β : Type} {order : List ℕ} {items : List α}

theorem rearrange_range (items : List α) : rearrange (List.range items.length) items = items := by
  unfold rearrange
  induction items with
  | nil => rfl
  | cons a rest ih =>
    rw [List.length_cons, List.range_succ_eq_map, List.filterMap_cons, List.filterMap_map]
    exact congrArg (a :: ·) ih

theorem rearrange_perm (horder : order.Perm (List.range items.length)) :
    (rearrange order items).Perm items := by
  have hperm := horder.filterMap (items[·]?)
  rwa [← rearrange, ← rearrange, rearrange_range] at hperm

theorem map_rearrange (f : α → β) (order : List ℕ) (items : List α) :
    (rearrange order items).map f = rearrange order (items.map f) := by
  unfold rearrange
  rw [List.map_filterMap]
  simp only [List.getElem?_map]

end Order

/-! ## The middle of equal numbers -/

namespace Binary64

theorem same_midpoint {x y x' y' : Binary64} (hx : x.isFinite = true) (hy : y.isFinite = true)
    (hx' : x'.isFinite = true) (hy' : y'.isFinite = true) (hxx : x.same x' = true)
    (hyy : y.same y' = true) : (x.midpoint y).same (x'.midpoint y') = true := by
  rw [same_finite hx hx'] at hxx
  rw [same_finite hy hy'] at hyy
  rw [same_iff]
  constructor
  · exact midpoint_mono hx hy hx' hy' hxx.le hyy.le
  · exact midpoint_mono hx' hy' hx hy hxx.ge hyy.ge

end Binary64

/-! ## Sorting -/

namespace Column

variable {column other xs ys : List Binary64}

theorem areSame_of_units (hxs : ∀ x ∈ xs, x.isFinite = true) (hys : ∀ y ∈ ys, y.isFinite = true)
    (hunits : xs.map units = ys.map units) : AreSame xs ys := by
  induction xs generalizing ys with
  | nil =>
    rw [List.map_nil, eq_comm, List.map_eq_nil_iff] at hunits
    rw [hunits]
    exact .nil
  | cons x xs ih =>
    cases ys with
    | nil => cases hunits
    | cons y ys =>
      rw [List.map_cons, List.map_cons, List.cons.injEq] at hunits
      obtain ⟨hx, hxs⟩ := List.forall_mem_cons.mp hxs
      obtain ⟨hy, hys⟩ := List.forall_mem_cons.mp hys
      exact .cons ((same_finite hx hy).mpr hunits.1) (ih hxs hys hunits.2)

/-- Two orders of the same finite samples are sorted to equal numbers. -/
theorem areSame_sorted (hfinite : ∀ x ∈ column, x.isFinite = true) (hperm : other.Perm column) :
    AreSame (sorted column) (sorted other) := by
  have hother : ∀ x ∈ other, x.isFinite = true := fun x hx => hfinite x (hperm.mem_iff.mp hx)
  apply areSame_of_units (isFinite_sorted hfinite) (isFinite_sorted hother)
  apply List.Perm.eq_of_sortedLE
  · exact (List.pairwise_map.mpr (pairwise_units_sorted hfinite)).sortedLE
  · exact (List.pairwise_map.mpr (pairwise_units_sorted hother)).sortedLE
  · exact (((sorted_perm column).trans hperm.symm).trans (sorted_perm other).symm).map units

theorem areSame_changes {x y : Binary64} (hxy : x.same y = true) (h : AreSame xs ys) :
    AreSame (changes x xs) (changes y ys) := by
  induction h generalizing x y with
  | nil => exact .nil
  | cons hab _ ih =>
    rw [changes, changes, same_congr hxy hab]
    split
    · exact ih hab
    · exact .cons hab (ih hab)

theorem areSame_dropRepeats (h : AreSame xs ys) : AreSame (dropRepeats xs) (dropRepeats ys) := by
  cases h with
  | nil => exact .nil
  | cons hab hrest => exact .cons hab (areSame_changes hab hrest)

theorem areSame_distinctValues (hfinite : ∀ x ∈ column, x.isFinite = true)
    (hperm : other.Perm column) : AreSame (distinctValues column) (distinctValues other) :=
  areSame_dropRepeats (areSame_sorted hfinite hperm)

end Column

/-! ## Splits -/

namespace SplitParams

open Column

variable {limit : ℕ} {column other xs ys : List Binary64} {params p q : SplitParams}

theorem isFinite_getD (hxs : ∀ x ∈ xs, x.isFinite = true) (place : ℕ) :
    (xs.getD place zero).isFinite = true := by
  rw [List.getD_eq_getElem?_getD]
  cases hx : xs[place]? with
  | none => rfl
  | some x => exact hxs x (List.mem_of_getElem? hx)

theorem same_getD (h : AreSame xs ys) (place : ℕ) :
    (xs.getD place zero).same (ys.getD place zero) = true := by
  induction h generalizing place with
  | nil => exact same_self rfl
  | cons hab _ ih =>
    cases place with
    | zero => exact hab
    | succ place => exact ih place

theorem areSame_cuts (hxs : ∀ x ∈ xs, x.isFinite = true) (hys : ∀ y ∈ ys, y.isFinite = true)
    (h : AreSame xs ys) : AreSame (cuts xs limit) (cuts ys limit) := by
  unfold AreSame cuts
  rw [List.forall₂_map_left_iff, List.forall₂_map_right_iff, List.forall₂_same]
  intro i _
  unfold cut
  rw [h.length_eq]
  exact same_midpoint (isFinite_getD hxs _) (isFinite_getD hxs _) (isFinite_getD hys _)
    (isFinite_getD hys _) (same_getD h _) (same_getD h _)

theorem same_eq_true_iff :
    p.same q = true ↔ p.kind = q.kind ∧ p.count = q.count ∧ AreSame p.values q.values := by
  unfold SplitParams.same
  simp only [Bool.and_eq_true, beq_iff_eq, List.all_eq_true, Prod.forall, and_assoc,
    List.forall₂_iff_zip]

theorem ofColumn_same (limit : ℕ) (hfinite : ∀ x ∈ column, x.isFinite = true)
    (hperm : other.Perm column) (hp : ofColumn limit column = .ok p)
    (hq : ofColumn limit other = .ok q) : p.same q = true := by
  have hdistinct := areSame_distinctValues hfinite hperm
  have hlength := hdistinct.length_eq
  have hother : ∀ x ∈ other, x.isFinite = true := fun x hx => hfinite x (hperm.mem_iff.mp hx)
  rw [same_eq_true_iff]
  by_cases hmany : limit < (distinctValues column).length
  · rw [ofColumn_of_many hmany] at hp
    rw [ofColumn_of_many (hlength ▸ hmany)] at hq
    cases hp
    cases hq
    exact ⟨rfl, rfl, areSame_cuts (isFinite_sorted hfinite) (isFinite_sorted hother)
      (areSame_sorted hfinite hperm)⟩
  · rw [ofColumn_of_few hmany] at hp
    rw [ofColumn_of_few (hlength ▸ hmany)] at hq
    cases hp
    cases hq
    unfold ofFew
    rw [← hlength]
    split
    · exact ⟨rfl, rfl, hdistinct⟩
    · exact ⟨rfl, rfl, .nil⟩

theorem notices_report (h : ofColumn limit column = .ok params) :
    (report (.whole limit) column).notices = if params.kind = .degenerate then
      [.fewDistinct column.length (distinctValues column).length] else [] := by
  have hsplit : (SplitLimit.whole limit).split column = .ok params := h
  obtain ⟨kind, count, values⟩ := params
  unfold report
  rw [hsplit]
  cases kind <;> rfl

end SplitParams

/-! ## Bits -/

namespace Indicator

variable {column v w : List Binary64}

/-- Thresholds with the same samples up to them give the same rows, with the bits in the order of
the samples. -/
theorem left_rearrange (h : List.Forall₂ (fun s t => ∀ x : Binary64, x.le s = x.le t) v w)
    (order : List ℕ) :
    left (rearrange order column) w = (left column v).map (rearrange order) := by
  unfold left
  cases h with
  | nil => rfl
  | cons _ hrest =>
    rw [List.tail_cons, List.tail_cons]
    induction hrest with
    | nil => rfl
    | cons hst _ ih =>
      rw [List.map_cons, List.map_cons, List.map_cons, ih, map_rearrange]
      simp only [hst]

theorem right_rearrange (h : List.Forall₂ (fun s t => ∀ x : Binary64, x.le s = x.le t) v w)
    (order : List ℕ) :
    right (rearrange order column) w = (right column v).map (rearrange order) := by
  unfold right
  rw [left_rearrange h, List.map_map, List.map_map]
  apply List.map_congr_left
  intro row _
  exact map_rearrange _ order row

end Indicator

namespace SplitParams

variable {limit : ℕ} {column other : List Binary64}

/-- A relation that equal values stand in, and the count and the sentinel each with itself, holds
slot by slot between the vectors of equal values. -/
theorem forall₂_vector (limit : ℕ) {R : Binary64 → Binary64 → Prop} {xs ys : List Binary64}
    {count sentinel : Binary64} (hsame : ∀ s t, s.same t = true → R s t) (hcount : R count count)
    (hsentinel : R sentinel sentinel) (h : AreSame xs ys) :
    List.Forall₂ R (count :: xs ++ List.replicate (limit - xs.length) sentinel)
      (count :: ys ++ List.replicate (limit - ys.length) sentinel) := by
  rw [List.cons_append, List.cons_append, h.length_eq]
  apply List.Forall₂.cons hcount
  apply List.rel_append
  · exact h.imp hsame
  · exact List.forall₂_same.mpr fun s hs => (List.eq_of_mem_replicate hs) ▸ hsentinel

/-- Two orders of the same finite samples have equal splits, equal vectors and the same notices,
and the bits of each sample move with it. -/
theorem splits_ignoreOrder (limit : ℕ) (sentinel : Binary64) {column : List Binary64}
    (hfinite : ∀ x ∈ column, x.isFinite = true) {order : List ℕ}
    (horder : order.Perm (List.range column.length)) :
    (report (.whole limit) (rearrange order column)).notices =
      (report (.whole limit) column).notices ∧
    ∃ p q v w,
      (report (.whole limit) column).result = .ok p ∧
      (report (.whole limit) (rearrange order column)).result = .ok q ∧ p.same q = true ∧
      (vectorReport (.whole limit) (.ok sentinel) column).result = .ok v ∧
      (vectorReport (.whole limit) (.ok sentinel) (rearrange order column)).result = .ok w ∧
      (sentinel.isNaN = false → AreSame v w) ∧
      Indicator.left (rearrange order column) w =
        (Indicator.left column v).map (rearrange order) ∧
      Indicator.right (rearrange order column) w =
        (Indicator.right column v).map (rearrange order) := by
  have hperm : (rearrange order column).Perm column := rearrange_perm horder
  have hother : ∀ x ∈ rearrange order column, x.isFinite = true := fun x hx =>
    hfinite x (hperm.mem_iff.mp hx)
  obtain ⟨p, count, hp, hcount, -, hv⟩ := exists_vector limit sentinel hfinite
  obtain ⟨q, count', hq, hcount', -, hw⟩ := exists_vector limit sentinel hother
  have hsame := ofColumn_same limit hfinite hperm hp hq
  obtain ⟨hkind, hcounts, hvalues⟩ := same_eq_true_iff.mp hsame
  rw [← hcounts, hcount, Option.some.injEq] at hcount'
  subst hcount'
  have hbounds := forall₂_vector limit (R := fun s t => ∀ x : Binary64, x.le s = x.le t)
    (fun s t hst x => le_congr_right hst) (fun x => Eq.refl (x.le count))
    (fun x => Eq.refl (x.le sentinel)) hvalues
  refine ⟨?_, p, q, _, _, result_report hp, result_report hq, hsame, hv, hw, fun hsentinel => ?_,
    Indicator.left_rearrange hbounds order, Indicator.right_rearrange hbounds order⟩
  · rw [notices_report hp, notices_report hq, ← hkind, hperm.length_eq,
      (Column.areSame_distinctValues hfinite hperm).length_eq]
  · have hnumber := isNaN_of_isFinite (isFinite_of_ofInt? hcount)
    exact forall₂_vector limit (fun _ _ h => h) (same_self hnumber) (same_self hsentinel) hvalues

/-- Whichever zero comes first is kept, and the splits are equal all the same. -/
theorem splits_ignoreOrder_zeros :
    let column : List Binary64 := [zero, oneHalf, zero.neg]
    (∀ x ∈ column, x.isFinite = true) ∧ [2, 0, 1].Perm (List.range column.length) ∧
      rearrange [2, 0, 1] column = [zero.neg, zero, oneHalf] ∧
      ∃ p q, (report (.whole 2) column).result = .ok p ∧
        (report (.whole 2) [zero.neg, zero, oneHalf]).result = .ok q ∧ p.same q = true := by
  intro column
  have hfinite : ∀ x ∈ column, x.isFinite = true := by decide +kernel
  have horder : [2, 0, 1].Perm (List.range column.length) := by decide
  have hother : rearrange [2, 0, 1] column = [zero.neg, zero, oneHalf] := rfl
  obtain ⟨-, p, q, _, _, hp, hq, hsame, -⟩ := splits_ignoreOrder 2 zero hfinite horder
  exact ⟨hfinite, horder, hother, p, q, hp, hother ▸ hq, hsame⟩

end SplitParams
end TreeParty
