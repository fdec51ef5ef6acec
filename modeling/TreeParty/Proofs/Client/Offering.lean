import TreeParty.Proofs.Client.Shares
import Mathlib.Data.List.Basic
/-!
# Messages in front of the inboxes

One more message for each engine, put in front of what waits in its inbox. What an exchange makes of
these messages can be said of the list of them; what it leaves is the room without them.
-/

set_option autoImplicit false

namespace TreeParty

def Mailbox.precede (payload : Bytes) (box : Mailbox) : Mailbox :=
  { box with inbox := some payload :: box.inbox }

namespace MailRoom

/-- The room in which one more message waits in front of each inbox. -/
def offering (room : MailRoom) (payloads : List Bytes) : MailRoom :=
  { room with boxes := (payloads.zip room.boxes).map fun pair => pair.2.precede pair.1 }

variable {room : MailRoom} {payloads : List Bytes}

theorem length_offering (hlength : payloads.length = room.boxes.length) :
    (room.offering payloads).boxes.length = room.boxes.length := by
  rw [offering, List.length_map, List.length_zip, hlength, Nat.min_self]

theorem isOpen_offering (hopen : room.IsOpen) (payloads : List Bytes) :
    (room.offering payloads).IsOpen := by
  intro place box hbox
  rw [offering, List.getElem?_map] at hbox
  obtain ⟨⟨payload, old⟩, hpair, rfl⟩ := Option.map_eq_some_iff.mp hbox
  exact hopen place old (List.getElem?_zip_eq_some.mp hpair).2

theorem map_message_offering (hlength : payloads.length = room.boxes.length) :
    (room.offering payloads).boxes.map (Mailbox.message 0) = payloads := by
  rw [offering, List.map_map]
  exact List.map_fst_zip hlength.le

theorem map_skip_offering (hlength : payloads.length = room.boxes.length) :
    (room.offering payloads).boxes.map (Mailbox.skip 1) = room.boxes := by
  rw [offering, List.map_map]
  exact List.map_snd_zip hlength.ge

theorem offers_precede_iff {F : FieldParams} {count : Nat} {payload : Bytes} {box : Mailbox} :
    (box.precede payload).Offers F count 0 ↔ HoldsElements F count payload := by
  constructor
  · rintro ⟨found, hitem, hholds⟩
    cases hitem
    exact hholds
  · exact fun hholds => ⟨payload, rfl, hholds⟩

theorem offers_offering_iff (hlength : payloads.length = room.boxes.length) {F : FieldParams}
    {count : Nat} :
    (∀ box ∈ (room.offering payloads).boxes, box.Offers F count 0) ↔
      ∀ payload ∈ payloads, HoldsElements F count payload := by
  rw [offering, List.forall_mem_map]
  simp only [offers_precede_iff]
  constructor
  · intro h payload hpayload
    rw [← List.map_fst_zip hlength.le] at hpayload
    obtain ⟨pair, hpair, rfl⟩ := List.mem_map.mp hpayload
    exact h pair hpair
  · exact fun h pair hpair => h pair.1 (List.of_mem_zip hpair).1

end MailRoom
end TreeParty
