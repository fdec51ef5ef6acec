import TreeParty.Proofs.Link.Arrival
import Mathlib.Algebra.Order.BigOperators.Group.Finset
import Mathlib.Logic.Relation
/-!
# Runs under way

An `Underway` is a run in the middle: what the client does next, the mailboxes, and the items that
are still on their way. In every `Step` an item arrives or the client takes one action. Which of the
two comes first does not matter: the `outcome`, the run with all items in place, is the same after
every step, and every way to go on comes to an end. So all of them end alike.
-/

set_option autoImplicit false

namespace TreeParty

variable {α : Type}

/-- A run in the middle. -/
structure Underway (α : Type) where
  /-- What the client does next. -/
  rest : Exchange α
  progress : Progress
  room : MailRoom
  /-- The items that are on their way from each engine, in order. -/
  coming : Nat → List (Option Bytes)

namespace Underway

open MailRoom

def run (u : Underway α) : (Ending α × Progress) × MailRoom :=
  MailRoom.run u.rest u.progress u.room

/-- The next action of the client, unless it is done or waits for an item that is not there. -/
def act? (u : Underway α) : Option (Underway α) :=
  let carrier := Link.carrier (links u.room.boxes.length) note
  match u.rest with
  | .done _ => none
  | .fail _ => none
  | .send engine payload next =>
    match carrier.send engine payload u.room with
    | (.ok (), room) => some { u with rest := next, room := room }
    | (.error fault, room) => some { u with rest := .fail fault, room := room }
  | .receive engine limit next =>
    match carrier.receive engine limit u.room with
    | (.returned bytes, room) => some { u with rest := next bytes, room := room }
    | (.failed fault, room) => some { u with rest := .fail fault, room := room }
    | (.waiting, _) => none
  | .note notice next => some { u with rest := next, room := (note notice u.room).2 }
  | .advance change next => some { u with rest := next, progress := change u.progress }

def standing (u : Underway α) : Ending α :=
  match u.rest with
  | .done a => .returned a
  | .fail fault => .failed fault
  | _ => .waiting

def withLater (later : Nat → List (Option Bytes)) (u : Underway α) : Underway α :=
  { u with room := u.room.withLater later }

def outcome (u : Underway α) : (Ending α × Progress) × MailRoom := (u.withLater u.coming).run

/-- What may happen next: an item arrives, or the client acts. -/
inductive Step : Underway α → Underway α → Prop where
  | arrive (u : Underway α) {engine : Nat} {item : Option Bytes} {later : List (Option Bytes)}
    (hengine : engine < u.room.boxes.length) (hcoming : u.coming engine = item :: later) :
    Step u { u with
      room := u.room.put engine item, coming := Function.update u.coming engine later }
  | act {u v : Underway α} (h : u.act? = some v) : Step u v

def Steps : Underway α → Underway α → Prop := Relation.ReflTransGen Step

def IsOver (u : Underway α) : Prop := ∀ v, ¬ Step u v

variable {u v : Underway α}

/-! ## Actions -/

theorem run_of_act? (h : u.act? = some v) : v.run = u.run ∧ v.coming = u.coming := by
  obtain ⟨rest, progress, room, coming⟩ := u
  unfold run MailRoom.run
  cases rest with
  | done a => cases h
  | fail fault => cases h
  | send engine payload next =>
    have hlength := length_boxes_send room.boxes.length engine payload room
    simp only [act?] at h
    rw [Exchange.run_send]
    revert h hlength
    rcases (Link.carrier (links room.boxes.length) note).send engine payload room with
      ⟨_ | _, room'⟩
    · rintro ⟨⟩ hlength
      exact ⟨rfl, rfl⟩
    · rintro ⟨⟩ hlength
      refine ⟨?_, rfl⟩
      simp only at hlength ⊢
      rw [hlength]
  | receive engine limit next =>
    have hlength := length_boxes_receive room.boxes.length engine limit room
    simp only [act?] at h
    rw [Exchange.run_receive]
    revert h hlength
    rcases (Link.carrier (links room.boxes.length) note).receive engine limit room with
      ⟨bytes | _ | _, room'⟩
    · rintro ⟨⟩ hlength
      refine ⟨?_, rfl⟩
      simp only at hlength ⊢
      rw [hlength]
    · rintro ⟨⟩ hlength
      exact ⟨rfl, rfl⟩
    · rintro ⟨⟩
  | note notice next =>
    cases h
    exact ⟨rfl, rfl⟩
  | advance change next =>
    cases h
    exact ⟨rfl, rfl⟩

/-- An action does not depend on what comes later. -/
theorem act?_withLater (h : u.act? = some v) (later : Nat → List (Option Bytes)) :
    (u.withLater later).act? = some (v.withLater later) := by
  obtain ⟨rest, progress, room, coming⟩ := u
  cases rest with
  | done a => cases h
  | fail fault => cases h
  | send engine payload next =>
    simp only [act?] at h
    simp only [act?, withLater, length_boxes_withLater, carrier_send_withLater]
    revert h
    rcases (Link.carrier (links room.boxes.length) note).send engine payload room with
      ⟨_ | _, room'⟩
    · rintro ⟨⟩
      rfl
    · rintro ⟨⟩
      rfl
  | receive engine limit next =>
    have hready := @carrier_receive_withLater room room.boxes.length engine limit
    simp only [act?] at h
    simp only [act?, withLater, length_boxes_withLater]
    revert h hready
    rcases (Link.carrier (links room.boxes.length) note).receive engine limit room with
      ⟨bytes | _ | _, room'⟩
    · rintro ⟨⟩ hready
      rw [hready (by simp) later]
    · rintro ⟨⟩ hready
      rw [hready (by simp) later]
    · rintro ⟨⟩
  | note notice next =>
    cases h
    rfl
  | advance change next =>
    cases h
    rfl

theorem run_of_act?_eq_none (h : u.act? = none) : u.run = ((u.standing, u.progress), u.room) := by
  obtain ⟨rest, progress, room, coming⟩ := u
  unfold run MailRoom.run
  cases rest with
  | done a => rfl
  | fail fault => rfl
  | send engine payload next =>
    simp only [act?] at h
    split at h
    · cases h
    · cases h
  | receive engine limit next =>
    have hsame := @carrier_receive_of_waiting room room.boxes.length engine limit
    simp only [act?] at h
    simp only [Exchange.run_receive]
    revert h hsame
    rcases (Link.carrier (links room.boxes.length) note).receive engine limit room with
      ⟨bytes | _ | _, room'⟩
    · rintro ⟨⟩
    · rintro ⟨⟩
    · intro _ hsame
      simp only at hsame ⊢
      rw [hsame trivial]
      rfl
  | note notice next => cases h
  | advance change next => cases h

/-! ## Steps -/

/-- The outcome does not depend on what arrives or is done first. -/
theorem Step.outcome_eq (h : Step u v) : v.outcome = u.outcome := by
  cases h with
  | @arrive engine item later hengine hcoming =>
    have hsame : (u.room.put engine item).withLater (Function.update u.coming engine later) =
        u.room.withLater u.coming := by
      unfold put
      rw [withLater_withLater]
      refine withLater_congr fun place _ => ?_
      by_cases hplace : place = engine
      · subst hplace
        simp [hcoming]
      · simp [hplace]
    simp only [outcome, withLater, hsame, run]
  | act h =>
    obtain ⟨-, hcoming⟩ := run_of_act? h
    have hrun := (run_of_act? (act?_withLater h u.coming)).1
    rw [outcome, hcoming, hrun]
    rfl

theorem Steps.outcome_eq (h : Steps u v) : v.outcome = u.outcome := by
  induction h with
  | refl => rfl
  | tail _ hstep ih => rw [hstep.outcome_eq, ih]

theorem sentMore_outcome (u : Underway α) : SentMore u.room u.outcome.2 := by
  have hrun := sentMore_exchange u.room.boxes.length u.rest u.progress (u.room.withLater u.coming)
  unfold outcome run MailRoom.run
  simp only [withLater, length_boxes_withLater]
  unfold SentMore at hrun ⊢
  rwa [map_outbox_withLater] at hrun

theorem outcome_of_isOver (h : u.IsOver) : u.outcome = ((u.standing, u.progress), u.room) := by
  have hcoming : ∀ engine < u.room.boxes.length, u.coming engine = [] := by
    intro engine hengine
    cases hitems : u.coming engine with
    | nil => rfl
    | cons item later => exact absurd (Step.arrive u hengine hitems) (h _)
  have hact : u.act? = none := by
    cases hnext : u.act? with
    | none => rfl
    | some v => exact absurd (Step.act hnext) (h v)
  have hroom : u.room.withLater u.coming = u.room :=
    (withLater_congr hcoming).trans (withLater_nil u.room)
  rw [← run_of_act?_eq_none hact]
  unfold outcome withLater
  rw [hroom]

/-! ## Ends -/

def comingCount (u : Underway α) : Nat :=
  ∑ engine ∈ Finset.range u.room.boxes.length, (u.coming engine).length

theorem comingCount_arrive {engine : Nat} {item : Option Bytes} {later : List (Option Bytes)}
    (hengine : engine < u.room.boxes.length) (hcoming : u.coming engine = item :: later) :
    comingCount { u with
      room := u.room.put engine item, coming := Function.update u.coming engine later } <
      u.comingCount := by
  unfold comingCount put
  rw [length_boxes_withLater]
  refine Finset.sum_lt_sum ?_ ⟨engine, Finset.mem_range.mpr hengine, ?_⟩
  · intro place _
    by_cases hplace : place = engine
    · subst hplace
      simp [hcoming]
    · simp [hplace]
  · simp [hcoming]

/-- If all ways to go on after an action of the client come to an end, so do all ways to go on:
there are only so many items that can arrive before it. -/
theorem acc_of_act? {rest : Exchange α}
    (hact : ∀ {u v : Underway α}, u.rest = rest → u.act? = some v → Acc (fun v u => Step u v) v)
    (u : Underway α) (hrest : u.rest = rest) : Acc (fun v u => Step u v) u := by
  induction hcount : u.comingCount using Nat.strongRecOn generalizing u with
  | ind count ih =>
    refine Acc.intro u fun v hstep => ?_
    cases hstep with
    | arrive hengine hcoming =>
      exact ih _ (hcount ▸ comingCount_arrive hengine hcoming) _ hrest rfl
    | act h => exact hact hrest h

/-- No run goes on for ever. -/
theorem acc_step (u : Underway α) : Acc (fun v u => Step u v) u := by
  have hfail : ∀ (fault : Fault) (u : Underway α), u.rest = .fail fault →
      Acc (fun v u => Step u v) u := fun fault => acc_of_act? fun {u v} hrest h => by
    rw [act?, hrest] at h
    cases h
  obtain ⟨rest, hrest⟩ : ∃ rest, u.rest = rest := ⟨_, rfl⟩
  induction rest generalizing u with
  | done a =>
    refine acc_of_act? (fun {u v} hrest h => ?_) u hrest
    rw [act?, hrest] at h
    cases h
  | fail fault => exact hfail fault u hrest
  | send engine payload next ih =>
    refine acc_of_act? (fun {u v} hrest h => ?_) u hrest
    simp only [act?, hrest] at h
    split at h
    · cases h
      exact ih _ rfl
    · cases h
      exact hfail _ _ rfl
  | receive engine limit next ih =>
    refine acc_of_act? (fun {u v} hrest h => ?_) u hrest
    simp only [act?, hrest] at h
    split at h
    · cases h
      exact ih _ _ rfl
    · cases h
      exact hfail _ _ rfl
    · cases h
  | note notice next ih =>
    refine acc_of_act? (fun {u v} hrest h => ?_) u hrest
    rw [act?, hrest] at h
    cases h
    exact ih _ rfl
  | advance change next ih =>
    refine acc_of_act? (fun {u v} hrest h => ?_) u hrest
    rw [act?, hrest] at h
    cases h
    exact ih _ rfl

theorem exists_isOver (u : Underway α) : ∃ v, Steps u v ∧ v.IsOver := by
  induction acc_step u with
  | intro u _ ih =>
    by_cases hover : u.IsOver
    · exact ⟨u, .refl, hover⟩
    · obtain ⟨v, hstep⟩ : ∃ v, Step u v := by
        simpa [IsOver] using hover
      obtain ⟨w, hsteps, hw⟩ := ih v hstep
      exact ⟨w, .head hstep hsteps, hw⟩

theorem exists_act?_eq_none (u : Underway α) :
    ∃ v, v.run = u.run ∧ v.coming = u.coming ∧ Steps u v ∧ v.act? = none := by
  induction acc_step u with
  | intro u _ ih =>
    cases hnext : u.act? with
    | none => exact ⟨u, rfl, rfl, .refl, hnext⟩
    | some v =>
      obtain ⟨hrun, hcoming⟩ := run_of_act? hnext
      obtain ⟨w, hrun', hcoming', hsteps, hw⟩ := ih v (.act hnext)
      exact ⟨w, hrun'.trans hrun, hcoming'.trans hcoming, .head (.act hnext) hsteps, hw⟩

end Underway

/-! ## Whole runs -/

namespace MailRoom

open Underway

/-- A run over fuller mailboxes is the run over the others, and then goes on from where that one
stands. -/
theorem run_withLater (x : Exchange α) (progress : Progress) (room : MailRoom)
    (later : Nat → List (Option Bytes)) :
    ∃ v : Underway α, v.act? = none ∧ v.coming = later ∧
      run x progress room = ((v.standing, v.progress), v.room) ∧
      run x progress (room.withLater later) = v.outcome := by
  obtain ⟨v, hrun, hcoming, hsteps, hnext⟩ := exists_act?_eq_none ⟨x, progress, room, later⟩
  exact ⟨v, hnext, hcoming, hrun.symm.trans (run_of_act?_eq_none hnext), hsteps.outcome_eq.symm⟩

theorem run_withLater_of_ne_waiting {x : Exchange α} {progress : Progress} {room : MailRoom}
    (hends : (run x progress room).1.1 ≠ .waiting) (later : Nat → List (Option Bytes)) :
    run x progress (room.withLater later) =
      ((run x progress room).1, (run x progress room).2.withLater later) := by
  obtain ⟨⟨rest, between, left, coming⟩, -, rfl, hrun, hmore⟩ := run_withLater x progress room later
  rw [hrun] at hends ⊢
  rw [hmore]
  cases rest with
  | done a => rfl
  | fail fault => rfl
  | _ => exact absurd rfl hends

theorem sentMore_run_withLater (x : Exchange α) (progress : Progress) (room : MailRoom)
    (later : Nat → List (Option Bytes)) :
    SentMore (run x progress room).2 (run x progress (room.withLater later)).2 := by
  obtain ⟨v, -, -, hrun, hmore⟩ := run_withLater x progress room later
  rw [hrun, hmore]
  exact sentMore_outcome v

end MailRoom
end TreeParty
