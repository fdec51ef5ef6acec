import TreeParty.Notice
import Mathlib.Data.List.Forall2
/-!
# Loops that may fail

A loop over a list that stops at the first fault, seen as a whole. A report is a result with
notices; what its result is does not depend on them.
-/

set_option autoImplicit false

namespace TreeParty

variable {α β ε : Type}

theorem mapM_congr {items : List α} {f g : α → Except ε β} (h : ∀ a ∈ items, f a = g a) :
    items.mapM f = items.mapM g := by
  induction items with
  | nil => rfl
  | cons a rest ih =>
    rw [List.mapM_cons, List.mapM_cons, h a List.mem_cons_self,
      ih fun b hb => h b (List.mem_cons_of_mem a hb)]

/-- A loop succeeds exactly when it does so on every item. -/
theorem mapM_eq_ok_iff {items : List α} {f : α → Except ε β} {results : List β} :
    items.mapM f = .ok results ↔ List.Forall₂ (fun a b => f a = .ok b) items results := by
  induction items generalizing results with
  | nil =>
    rw [List.forall₂_nil_left_iff]
    constructor
    · intro h
      cases h
      rfl
    · rintro rfl
      rfl
  | cons a rest ih =>
    rw [List.mapM_cons, List.forall₂_cons_left_iff]
    constructor
    · intro h
      cases ha : f a with
      | error fault =>
        rw [ha] at h
        cases h
      | ok b =>
        rw [ha] at h
        cases hrest : rest.mapM f with
        | error fault =>
          rw [hrest] at h
          cases h
        | ok bs =>
          rw [hrest] at h
          cases h
          exact ⟨b, bs, rfl, ih.mp hrest, rfl⟩
    · rintro ⟨b, bs, ha, hrest, rfl⟩
      rw [ha, ih.mpr hrest]
      rfl

theorem mapM_eq_ok_map {items : List α} {f : α → Except ε β} {g : α → β}
    (h : ∀ a ∈ items, f a = .ok (g a)) : items.mapM f = .ok (items.map g) := by
  rw [mapM_eq_ok_iff, List.forall₂_map_right_iff, List.forall₂_same]
  exact h

/-- A loop that fails has the fault of the first item that has one. -/
theorem exists_of_mapM_eq_error {items : List α} {f : α → Except ε β} {fault : ε}
    (h : items.mapM f = .error fault) :
    ∃ front a rest, items = front ++ a :: rest ∧ (∀ b ∈ front, ∃ c, f b = .ok c) ∧
      f a = .error fault := by
  induction items with
  | nil => cases h
  | cons b items ih =>
    rw [List.mapM_cons] at h
    cases hb : f b with
    | error first =>
      rw [hb] at h
      cases h
      exact ⟨[], b, items, rfl, nofun, hb⟩
    | ok value =>
      rw [hb] at h
      cases hrest : items.mapM f with
      | ok results =>
        rw [hrest] at h
        cases h
      | error later =>
        rw [hrest] at h
        cases h
        obtain ⟨front, a, rest, rfl, hfront, ha⟩ := ih hrest
        exact ⟨b :: front, a, rest, rfl, List.forall_mem_cons.mpr ⟨⟨value, hb⟩, hfront⟩, ha⟩

theorem exists_mem_of_mapM {items : List α} {f : α → Except ε β} {results : List β}
    (h : items.mapM f = .ok results) :
    (∀ a ∈ items, ∃ b ∈ results, f a = .ok b) ∧ ∀ b ∈ results, ∃ a ∈ items, f a = .ok b := by
  have heach := mapM_eq_ok_iff.mp h
  clear h
  induction heach with
  | nil => exact ⟨nofun, nofun⟩
  | cons hab _ ih =>
    obtain ⟨hitems, hresults⟩ := ih
    simp only [List.forall_mem_cons, List.exists_mem_cons_iff]
    exact ⟨⟨.inl hab, fun a ha => .inr (hitems a ha)⟩, .inl hab, fun b hb => .inr (hresults b hb)⟩

theorem exists_ok_of_mapM {items : List α} {f : α → Except ε β} {results : List β}
    (h : items.mapM f = .ok results) : ∀ a ∈ items, ∃ b, f a = .ok b := by
  intro a ha
  obtain ⟨b, -, hb⟩ := (exists_mem_of_mapM h).1 a ha
  exact ⟨b, hb⟩

theorem exists_mapM_eq_error {items : List α} {f : α → Except ε β}
    (hbad : ∃ a ∈ items, ∃ fault, f a = .error fault) :
    ∃ fault, items.mapM f = .error fault := by
  obtain ⟨a, ha, fault, hfault⟩ := hbad
  cases hloop : items.mapM f with
  | error first => exact ⟨first, rfl⟩
  | ok results =>
    obtain ⟨b, hb⟩ := exists_ok_of_mapM hloop a ha
    rw [hfault] at hb
    cases hb

theorem mapM_eq_error {items : List α} {f : α → Except ε β} {g : α → β} {fault : ε}
    (h : ∀ a ∈ items, f a = .ok (g a) ∨ f a = .error fault)
    (hbad : ∃ a ∈ items, f a = .error fault) : items.mapM f = .error fault := by
  obtain ⟨first, hfirst⟩ := exists_mapM_eq_error (hbad.imp fun a => And.imp_right fun ha => ⟨_, ha⟩)
  obtain ⟨front, a, rest, rfl, -, ha⟩ := exists_of_mapM_eq_error hfirst
  rcases h a (by simp) with hok | herror
  · rw [hok] at ha
    cases ha
  · rw [herror] at ha
    cases ha
    exact hfirst

theorem length_of_mapM_eq_ok {items : List α} {f : α → Except ε β} {results : List β}
    (h : items.mapM f = .ok results) : results.length = items.length :=
  (mapM_eq_ok_iff.mp h).length_eq.symm

/-! ## Reports -/

namespace Report

theorem result_bind (x : Report α) (f : α → Report β) :
    (x >>= f).result = match x.result with
      | .ok a => (f a).result
      | .error fault => .error fault := by
  show (x.bind f).result = _
  unfold Report.bind
  cases x.result <;> rfl

theorem result_bind_of_ok {x : Report α} {a : α} (h : x.result = .ok a) (f : α → Report β) :
    (x >>= f).result = (f a).result := by
  rw [result_bind, h]

@[simp] theorem result_liftM (r : Except Fault α) : (liftM r : Report α).result = r := rfl

theorem liftM_ok (a : α) : (liftM (Except.ok a : Except Fault α) : Report α) = pure a := rfl

instance : LawfulMonad Report := LawfulMonad.mk' Report
  (fun x => by
    show x.bind Pure.pure = x
    obtain ⟨notices, result⟩ := x
    cases result <;> simp [Report.bind, Pure.pure])
  (fun a f => by
    show Report.bind ⟨[], .ok a⟩ f = f a
    simp [Report.bind])
  (fun x f g => by
    show (x.bind f).bind g = x.bind fun a => (f a).bind g
    obtain ⟨notices, result⟩ := x
    cases result with
    | error fault => rfl
    | ok a =>
      simp only [Report.bind]
      cases (f a).result <;> simp)

theorem mapM_result {items : List α} {f : α → Report β} {P : α → β → Prop}
    (h : ∀ a ∈ items, ∃ b, (f a).result = .ok b ∧ P a b) :
    ∃ results, (items.mapM f).result = .ok results ∧ List.Forall₂ P items results := by
  induction items with
  | nil => exact ⟨[], rfl, List.Forall₂.nil⟩
  | cons a rest ih =>
    obtain ⟨b, hb, hP⟩ := h a List.mem_cons_self
    obtain ⟨bs, hbs, hPs⟩ := ih fun c hc => h c (List.mem_cons_of_mem a hc)
    refine ⟨b :: bs, ?_, List.Forall₂.cons hP hPs⟩
    rw [List.mapM_cons, result_bind_of_ok hb, result_bind_of_ok hbs]
    rfl

end Report

end TreeParty
