import TreeParty.Proofs.Link.Underway
import TreeParty.Proofs.Session.Honest
/-!
# Sessions and late engines

How a session ends and what it sends depends on what each engine has to say, and not on when its
messages arrive.
-/

set_option autoImplicit false

namespace TreeParty
namespace Session

open Client Mailbox

/-- A session that does not have to wait does not see what arrives later. One that has to wait has
sent a beginning of what it sends in the end. However messages and actions follow each other, some
end is reached, and every end is the one with all messages in place. -/
theorem run_ignores_arrival_order (s : Session) (progress : Progress) (room : MailRoom)
    (later : Nat → List (Option Bytes)) :
    let early := MailRoom.run s.run progress room
    let whole := MailRoom.run s.run progress (room.withLater later)
    (early.1.1 ≠ .waiting → whole = (early.1, early.2.withLater later)) ∧
      (early.1.1 = .waiting → MailRoom.SentMore early.2 whole.2) ∧
      (∃ u, Underway.Steps ⟨s.run, progress, room, later⟩ u ∧ u.IsOver) ∧
      ∀ u, Underway.Steps ⟨s.run, progress, room, later⟩ u →
        MailRoom.SentMore u.room whole.2 ∧
          (u.IsOver → ((u.standing, u.progress), u.room) = whole) := by
  intro early whole
  refine ⟨fun hends => MailRoom.run_withLater_of_ne_waiting hends later,
    fun _ => MailRoom.sentMore_run_withLater s.run progress room later,
    Underway.exists_isOver _, fun u hsteps => ?_⟩
  have houtcome : u.outcome = whole := hsteps.outcome_eq
  rw [← houtcome]
  exact ⟨u.sentMore_outcome, fun hover => (Underway.outcome_of_isOver hover).symm⟩

/-- Two engines, of which the second is late with its last two triples. -/
theorem run_ignores_arrival_order_late_engine :
    let s : Session :=
      ⟨⟨.thirteen, 2, .places 0⟩, ⟨[1, 1], [.zero], rfl⟩, none, false, .whole 1, .ok .zero⟩
    let triple : List Int := [3, 4, 12]
    let noShares : List Int := [0, 0, 0]
    let room : MailRoom := ⟨holding .thirteen
      [[triple, triple, triple, triple, triple, [7]], [noShares, noShares, noShares]], []⟩
    let later : Nat → List (Option Bytes) := fun engine =>
      if engine = 1 then List.replicate 2 (some (numbersMessage .thirteen noShares)) else []
    let early := MailRoom.run s.run ⟨0, []⟩ room
    let whole := MailRoom.run s.run ⟨0, []⟩ (room.withLater later)
    let dropped : Nat → List (Option Bytes) := fun _ => [none]
    early.1.1 = .waiting ∧ MailRoom.SentMore early.2 whole.2 ∧ whole.1.1 = .returned (-6) ∧
      MailRoom.run s.run ⟨0, []⟩ ((room.withLater later).withLater dropped) =
        (whole.1, whole.2.withLater dropped) ∧
      ∃ u, Underway.Steps ⟨s.run, ⟨0, []⟩, room, later⟩ u ∧
        ((u.standing, u.progress), u.room) = whole := by
  intro s triple noShares room later early whole dropped
  have hearly : early.1.1 = .waiting := by decide +kernel
  have hwhole : whole.1.1 = .returned (-6) := by decide +kernel
  -- From here on the numbers do not matter.
  clear_value s room later dropped
  obtain ⟨-, hsent, ⟨u, hsteps, hover⟩, hends⟩ :=
    run_ignores_arrival_order s ⟨0, []⟩ room later
  obtain ⟨hsame, -⟩ := run_ignores_arrival_order s ⟨0, []⟩ (room.withLater later) dropped
  have hdone : whole.1.1 ≠ .waiting := by
    rw [hwhole]
    exact Ending.returned_ne_waiting _
  exact ⟨hearly, hsent hearly, hwhole, hsame hdone, u, hsteps, (hends u hsteps).2 hover⟩

end Session
end TreeParty
