import TreeParty.Proofs.Link.MailRoom
import Mathlib.Data.List.Forall2
import Mathlib.Logic.Function.Basic
/-!
# Messages that arrive later

What more items at the end of the inboxes change. A mailbox that has something to give does not look
at them, so that they matter only to an action that would have to wait. What was sent to an engine
grows in the course of a run.
-/

set_option autoImplicit false

namespace TreeParty

variable {α β : Type}

/-! ## One mailbox -/

namespace Mailbox

theorem push_nil (box : Mailbox) : box.push [] = box := by
  simp [push]

theorem push_push (items more : List (Option Bytes)) (box : Mailbox) :
    (box.push items).push more = box.push (items ++ more) := by
  simp [push]

theorem send_push (payload : Bytes) (items : List (Option Bytes)) (box : Mailbox) :
    send payload (box.push items) = ((send payload box).1, (send payload box).2.push items) := by
  cases hclosed : box.closed with
  | true => simp [send, push, hclosed]
  | false => simp [send, push, hclosed]

theorem receive_push {limit : Option Int} {box : Mailbox}
    (hready : (receive limit box).1 ≠ .waiting) (items : List (Option Bytes)) :
    receive limit (box.push items) =
      ((receive limit box).1, (receive limit box).2.push items) := by
  unfold receive at hready ⊢
  cases hclosed : box.closed with
  | true => simp [push, hclosed]
  | false =>
    cases hinbox : box.inbox with
    | nil => simp [hclosed, hinbox] at hready
    | cons item rest =>
      cases item with
      | none => simp [push, hclosed, hinbox]
      | some payload =>
        cases hlength : Frame.checkLength box.engine payload.length limit with
        | ok => simp [push, hclosed, hinbox, hlength]
        | error fault => simp [push, hclosed, hinbox, hlength]

theorem receive_of_waiting {limit : Option Int} {box : Mailbox}
    (hwaits : (receive limit box).1 = .waiting) : (receive limit box).2 = box := by
  unfold receive at hwaits ⊢
  split at hwaits
  · cases hwaits
  · rename_i hopen
    rw [if_neg hopen]
    split at hwaits
    · rfl
    · cases hwaits
    · split at hwaits
      · cases hwaits
      · cases hwaits

theorem outbox_send_prefix (payload : Bytes) (box : Mailbox) :
    box.outbox <+: (send payload box).2.outbox := by
  unfold send
  split
  · exact List.prefix_rfl
  · exact List.prefix_append _ _

end Mailbox

/-! ## A room -/

namespace MailRoom

open Mailbox

def withLater (later : Nat → List (Option Bytes)) (room : MailRoom) : MailRoom :=
  { room with boxes := room.boxes.mapIdx fun place box => box.push (later place) }

def put (engine : Nat) (item : Option Bytes) : MailRoom → MailRoom :=
  withLater (Function.update (fun _ => []) engine [item])

/-- Whether every engine has received in one room what it received in another, and perhaps more. -/
def SentMore (room room' : MailRoom) : Prop :=
  List.Forall₂ (· <+: ·) (room.boxes.map outbox) (room'.boxes.map outbox)

variable {room room' room'' : MailRoom} {later : Nat → List (Option Bytes)}

@[simp] theorem length_boxes_withLater (later : Nat → List (Option Bytes)) (room : MailRoom) :
    (room.withLater later).boxes.length = room.boxes.length := List.length_mapIdx

theorem getElem?_boxes_withLater (later : Nat → List (Option Bytes)) (room : MailRoom)
    (place : Nat) : (room.withLater later).boxes[place]? =
      room.boxes[place]?.map (push (later place)) := List.getElem?_mapIdx

theorem map_outbox_withLater (later : Nat → List (Option Bytes)) (room : MailRoom) :
    (room.withLater later).boxes.map outbox = room.boxes.map outbox := by
  refine List.ext_getElem? fun place => ?_
  rw [List.getElem?_map, List.getElem?_map, getElem?_boxes_withLater, Option.map_map]
  rfl

theorem withLater_congr {more : Nat → List (Option Bytes)}
    (h : ∀ place < room.boxes.length, later place = more place) :
    room.withLater later = room.withLater more := by
  have hboxes : (room.withLater later).boxes = (room.withLater more).boxes := by
    refine List.ext_getElem? fun place => ?_
    rw [getElem?_boxes_withLater, getElem?_boxes_withLater]
    by_cases hplace : place < room.boxes.length
    · rw [h place hplace]
    · rw [List.getElem?_eq_none (Nat.le_of_not_lt hplace)]
      rfl
  exact congrArg (MailRoom.mk · room.notices) hboxes

theorem withLater_withLater (later more : Nat → List (Option Bytes)) (room : MailRoom) :
    (room.withLater later).withLater more =
      room.withLater fun place => later place ++ more place := by
  have hboxes : ((room.withLater later).withLater more).boxes =
      (room.withLater fun place => later place ++ more place).boxes := by
    refine List.ext_getElem? fun place => ?_
    simp only [getElem?_boxes_withLater, Option.map_map, Function.comp_def, push_push]
  exact congrArg (MailRoom.mk · room.notices) hboxes

theorem withLater_nil (room : MailRoom) : (room.withLater fun _ => []) = room := by
  have hboxes : (room.withLater fun _ => []).boxes = room.boxes := by
    refine List.ext_getElem? fun place => ?_
    have hpush : push [] = id := funext push_nil
    rw [getElem?_boxes_withLater, hpush, Option.map_id, id]
  exact congrArg (MailRoom.mk · room.notices) hboxes

theorem SentMore.refl (room : MailRoom) : SentMore room room :=
  List.forall₂_same.mpr fun _ _ => List.prefix_rfl

theorem SentMore.trans (h : SentMore room room') (h' : SentMore room' room'') :
    SentMore room room'' := by
  have htrans : ∀ {l₁ l₂ l₃ : List (List Bytes)}, List.Forall₂ (· <+: ·) l₁ l₂ →
      List.Forall₂ (· <+: ·) l₂ l₃ → List.Forall₂ (· <+: ·) l₁ l₃ := by
    intro l₁ l₂ l₃ h₁
    induction h₁ generalizing l₃ with
    | nil => exact id
    | cons hfirst _ ih =>
      rintro (_ | ⟨hsecond, hrest⟩)
      exact .cons (hfirst.trans hsecond) (ih hrest)
  exact htrans h h'

/-! ## One action -/

theorem onBox_withLater {place : Nat} {missing : β} {act : StateM Mailbox β}
    (hact : ∀ box, room.boxes[place]? = some box →
      act (box.push (later place)) = ((act box).1, (act box).2.push (later place))) :
    onBox place missing act (room.withLater later) =
      ((onBox place missing act room).1, (onBox place missing act room).2.withLater later) := by
  cases hbox : room.boxes[place]? with
  | none =>
    have hnone : (room.withLater later).boxes[place]? = none := by
      rw [getElem?_boxes_withLater, hbox]
      rfl
    simp only [onBox, hbox, hnone]
  | some box =>
    have hsome : (room.withLater later).boxes[place]? = some (box.push (later place)) := by
      rw [getElem?_boxes_withLater, hbox]
      rfl
    rw [onBox_of_getElem? hbox, onBox_of_getElem? hsome, hact box hbox]
    simp [withLater, List.mapIdx_set]

variable (engines engine : Nat)

theorem carrier_send_withLater (payload : Bytes) (later : Nat → List (Option Bytes))
    (room : MailRoom) :
    (Link.carrier (links engines) note).send engine payload (room.withLater later) =
      (((Link.carrier (links engines) note).send engine payload room).1,
        ((Link.carrier (links engines) note).send engine payload room).2.withLater later) := by
  simp only [Link.carrier]
  cases hlink : (links engines)[engine]? with
  | none => rfl
  | some found =>
    obtain ⟨place, -, rfl⟩ := List.mem_map.mp (List.mem_of_getElem? hlink)
    exact onBox_withLater fun box _ => send_push payload (later place) box

theorem carrier_receive_withLater {limit : Option Int}
    (hready : ((Link.carrier (links engines) note).receive engine limit room).1 ≠ .waiting)
    (later : Nat → List (Option Bytes)) :
    (Link.carrier (links engines) note).receive engine limit (room.withLater later) =
      (((Link.carrier (links engines) note).receive engine limit room).1,
        ((Link.carrier (links engines) note).receive engine limit room).2.withLater later) := by
  simp only [Link.carrier] at hready ⊢
  cases hlink : (links engines)[engine]? with
  | none => rfl
  | some found =>
    obtain ⟨place, -, rfl⟩ := List.mem_map.mp (List.mem_of_getElem? hlink)
    rw [hlink] at hready
    refine onBox_withLater fun box hbox => receive_push ?_ (later place)
    simpa only [link, onBox_of_getElem? hbox] using hready

theorem carrier_receive_of_waiting {limit : Option Int}
    (hwaits : ((Link.carrier (links engines) note).receive engine limit room).1 = .waiting) :
    ((Link.carrier (links engines) note).receive engine limit room).2 = room := by
  simp only [Link.carrier] at hwaits ⊢
  cases hlink : (links engines)[engine]? with
  | none => rfl
  | some found =>
    obtain ⟨place, -, rfl⟩ := List.mem_map.mp (List.mem_of_getElem? hlink)
    rw [hlink] at hwaits
    simp only [link] at hwaits ⊢
    cases hbox : room.boxes[place]? with
    | none => simp only [onBox, hbox]
    | some box =>
      rw [onBox_of_getElem? hbox] at hwaits ⊢
      obtain ⟨hlt, hitem⟩ := List.getElem?_eq_some_iff.mp hbox
      have hsame := receive_of_waiting hwaits
      rw [hsame, ← hitem, List.set_getElem_self]

theorem sentMore_carrier_send (payload : Bytes) (room : MailRoom) :
    SentMore room ((Link.carrier (links engines) note).send engine payload room).2 := by
  simp only [Link.carrier]
  cases hlink : (links engines)[engine]? with
  | none => exact .refl room
  | some found =>
    obtain ⟨place, -, rfl⟩ := List.mem_map.mp (List.mem_of_getElem? hlink)
    simp only [link]
    cases hbox : room.boxes[place]? with
    | none =>
      simp only [onBox, hbox]
      exact .refl room
    | some box =>
      rw [onBox_of_getElem? hbox]
      refine List.forall₂_iff_get.mpr ⟨by simp, fun i hi hi' => ?_⟩
      obtain ⟨hlt, hitem⟩ := List.getElem?_eq_some_iff.mp hbox
      by_cases hplace : place = i
      · subst hplace
        simpa [hitem] using outbox_send_prefix payload box
      · simp [List.getElem_set_ne hplace]

/-- A run takes nothing back of what was sent. -/
theorem sentMore_exchange (x : Exchange α) (progress : Progress) (room : MailRoom) :
    SentMore room (x.run (Link.carrier (links engines) note) progress room).2 := by
  induction x generalizing progress room with
  | done a => exact .refl room
  | fail fault => exact .refl room
  | send engine payload next ih =>
    have hsent := sentMore_carrier_send engines engine payload room
    rw [Exchange.run_send]
    revert hsent
    rcases (Link.carrier (links engines) note).send engine payload room with ⟨_ | _, room'⟩
    · exact id
    · exact fun hsent => hsent.trans (ih progress room')
  | receive engine limit next ih =>
    have hsame := map_outbox_receive engines engine limit room
    have hsent : SentMore room
        ((Link.carrier (links engines) note).receive engine limit room).2 := by
      unfold SentMore
      rw [hsame]
      exact SentMore.refl room
    rw [Exchange.run_receive]
    revert hsent
    rcases (Link.carrier (links engines) note).receive engine limit room with
      ⟨bytes | _ | _, room'⟩
    · exact fun hsent => hsent.trans (ih bytes progress room')
    · exact id
    · exact id
  | note notice next ih => exact ih progress (note notice room).2
  | advance change next ih => exact ih (change progress) room

end MailRoom
end TreeParty
