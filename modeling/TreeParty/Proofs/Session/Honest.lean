import TreeParty.Proofs.Session.Fit
import Mathlib
/-!
# Sessions with honest engines

Honest engines send consistent triples for every number of a session and then a well-formed result.
With them nothing but the session's own numbers can keep it from returning.
-/

set_option autoImplicit false

namespace TreeParty

open Mailbox

/-! ## The result -/

namespace Client

variable {client : Client}

/-- Whether a well-formed result waits at a place of the inboxes: shares of a valid opening from all
engines, or one element from the first. -/
def GivesResult (F : FieldParams) (authenticated : Bool) (boxes : List Mailbox) (place : Nat) :
    Prop :=
  if authenticated then
    (∀ box ∈ boxes, box.Offers F 3 place) ∧ Triple.Agrees F (boxes.map (message place)) 0
  else ∃ box, boxes[0]? = some box ∧ box.Offers F 1 place

theorem GivesResult.serve {F : FieldParams} {authenticated : Bool} {boxes : List Mailbox}
    {taken place : Nat} (h : GivesResult F authenticated boxes (taken + place))
    (frames : List Bytes) :
    GivesResult F authenticated (boxes.map (serve taken frames)) place := by
  unfold GivesResult at h ⊢
  cases authenticated with
  | true =>
    obtain ⟨hoffers, hagrees⟩ := h
    rw [if_pos rfl, List.forall_mem_map, List.map_map, message_comp_serve]
    exact ⟨fun box hbox => offers_serve.mpr (hoffers box hbox), hagrees⟩
  | false =>
    obtain ⟨box, hbox, hoffers⟩ := h
    refine ⟨box.serve taken frames, ?_, offers_serve.mpr hoffers⟩
    rw [List.getElem?_map, hbox]
    rfl

theorem run_receiveOpening_of_agrees {room : MailRoom} (hopen : room.IsOpen)
    (hengines : client.engines = room.boxes.length)
    (hoffers : ∀ box ∈ room.boxes, box.Offers client.field 3 0)
    (hagrees : Triple.Agrees client.field (room.boxes.map (message 0)) 0) (progress : Progress) :
    ∃ opening room', MailRoom.run client.receiveOpening progress room =
      ((.returned opening, progress), room') := by
  rw [run_receiveOpening_of_offers hopen hengines hoffers,
    if_pos (Opening.isValid_summed.mpr hagrees)]
  exact ⟨_, _, rfl⟩

theorem run_receiveIndex_of_offers {room : MailRoom} (hopen : room.IsOpen) {box : Mailbox}
    (hbox : room.boxes[0]? = some box) (hoffers : box.Offers client.field 1 0)
    (progress : Progress) :
    ∃ index room', MailRoom.run client.receiveIndex progress room =
      ((.returned index, progress), room') := by
  obtain ⟨hnumber, hclosed⟩ := hopen 0 box hbox
  have hshares := @run_receiveShares client room 0 box hbox hnumber hclosed 1 progress
  rw [takeShares_of_offers hoffers] at hshares
  unfold receiveIndex
  rw [MailRoom.run_bind_of_returned hshares]
  exact ⟨_, _, rfl⟩

end Client

/-! ## The session -/

namespace Session

open Client

variable {s : Session} {vectors : List (List Binary64)}

def exchanges (s : Session) : Nat :=
  match s.featureSplits.result with
  | .ok vectors => (s.schedule vectors).length
  | .error _ => 0

/-- Whether the engines are honest towards a session: they serve all of its numbers and give a
well-formed result. -/
structure IsHonest (s : Session) (boxes : List Mailbox) : Prop where
  served : IsServed s.client.field boxes s.exchanges
  result : GivesResult s.client.field s.authenticated boxes s.exchanges

theorem exchanges_eq (hvectors : s.featureSplits.result = .ok vectors) :
    s.exchanges = (s.schedule vectors).length := by
  unfold exchanges
  rw [hvectors]

theorem receiveIndex_returns {room : MailRoom} (hopen : room.IsOpen)
    (hengines : s.client.engines = room.boxes.length)
    (hresult : GivesResult s.client.field s.authenticated room.boxes 0) (progress : Progress) :
    ∃ index room', MailRoom.run s.receiveIndex progress room =
      ((.returned index, progress), room') := by
  unfold GivesResult at hresult
  unfold receiveIndex
  split
  · next hauthenticated =>
    rw [if_pos hauthenticated] at hresult
    obtain ⟨hoffers, hagrees⟩ := hresult
    obtain ⟨opening, room', hrun⟩ :=
      run_receiveOpening_of_agrees hopen hengines hoffers hagrees progress
    rw [MailRoom.run_bind_of_returned hrun]
    exact ⟨opening.index, room', rfl⟩
  · next hplain =>
    rw [if_neg hplain] at hresult
    obtain ⟨box, hbox, hoffers⟩ := hresult
    exact run_receiveIndex_of_offers hopen hbox hoffers progress

/-- With honest engines a session does not wait, and it returns exactly if all of its numbers are
accepted. -/
theorem run_of_isHonest {room : MailRoom} (hopen : room.IsOpen)
    (hengines : s.client.engines = room.boxes.length) (hshape : s.samples.shape ≠ [])
    (hvectors : s.featureSplits.result = .ok vectors) (hhonest : s.IsHonest room.boxes)
    (progress : Progress) :
    (MailRoom.run s.run progress room).1.1 ≠ .waiting ∧
      ((∃ index, (MailRoom.run s.run progress room).1.1 = .returned index) ↔
        ∀ entry ∈ s.schedule vectors, (entry.accepted? s.client).isSome) := by
  obtain ⟨hserved, hresult⟩ := hhonest
  rw [exchanges_eq hvectors] at hserved hresult
  obtain ⟨numbers, hprefix, -, hdone, hreturns⟩ :=
    (performs_sendPhases hshape hvectors).sends progress room hopen hengines
  obtain ⟨hending, hall⟩ := hreturns hserved
  rw [run_eq_sendPhases, MailRoom.run_bind]
  rcases hrun : MailRoom.run s.sendPhases progress room with ⟨⟨a | fault | _, middle⟩, between⟩
  · rw [hrun] at hdone
    obtain ⟨-, hlength, hboxes⟩ := hdone a rfl
    have hboxes : between.boxes = room.boxes.map
      (serve numbers.length (maskedFrames s.client.field room.boxes numbers)) := hboxes
    obtain ⟨hopen', hcount⟩ := isOpen_of_served hopen hboxes
    have hresult' : GivesResult s.client.field s.authenticated between.boxes 0 := by
      rw [← hlength] at hresult
      rw [hboxes]
      exact hresult.serve _
    obtain ⟨index, room', hindex⟩ := receiveIndex_returns hopen' (hengines.trans hcount.symm)
      hresult' middle
    -- All numbers were sent, so that each was accepted.
    have haccepted : (accepted s.client (s.schedule vectors)).length =
        (s.schedule vectors).length :=
      Nat.le_antisymm (length_accepted_le _) (hlength ▸ hprefix.length_le)
    simp only [Exchange.goOn]
    rw [hindex]
    refine ⟨Ending.returned_ne_waiting index, ?_, ?_⟩
    · intro _
      exact isSome_of_length_accepted haccepted
    · intro _
      exact ⟨index, rfl⟩
  · rw [hrun] at hall
    refine ⟨Ending.failed_ne_waiting fault, ?_, ?_⟩
    · rintro ⟨index, hindex⟩
      cases hindex
    · intro haccepted
      obtain ⟨a, ha⟩ := hall haccepted
      cases ha
  · rw [hrun] at hending
    exact absurd rfl hending

/-! ## Zeros -/

/-- What an engine says that has only zeros to offer: triples for a number of exchanges, and one
element at the end. -/
def zeros (count : Nat) : List (List Int) := List.replicate count [0, 0, 0] ++ [[0]]

theorem encodedAt_zeros (F : FieldParams) {count k : Nat} (hk : k < count) :
    encodedAt F (numbersMessage F (List.replicate count 0)) k = 0 := by
  have hplace : ((List.replicate count (0 : Int)).map (Residue.ofInt F))[k]? =
      some (Residue.ofInt F 0) := by
    rw [List.getElem?_map, List.getElem?_replicate_of_lt hk]
    rfl
  rw [numbersMessage, encodedAt_packElements hplace, Residue.ofInt_zero]
  rfl

theorem holdsElements_zeros (F : FieldParams) (count : Nat) :
    HoldsElements F count (numbersMessage F (List.replicate count 0)) := by
  have hholds := holdsElements_packElements ((List.replicate count 0).map (Residue.ofInt F))
  rwa [List.length_map, List.length_replicate] at hholds

def zerosBox (F : FieldParams) (count : Nat) : Mailbox :=
  ⟨0, (zeros count).map fun numbers => some (numbersMessage F numbers), [], false⟩

theorem zerosBox_served (F : FieldParams) {count i : Nat} (hi : i < count) :
    (zerosBox F count).inbox[i]? = some (some (numbersMessage F (List.replicate 3 0))) := by
  have hlt : i < (List.replicate count [(0 : Int), 0, 0]).length := by simpa using hi
  unfold zerosBox zeros
  rw [List.getElem?_map, List.getElem?_append_left hlt, List.getElem?_replicate_of_lt hi]
  rfl

theorem zerosBox_result (F : FieldParams) (count : Nat) :
    (zerosBox F count).inbox[count]? = some (some (numbersMessage F (List.replicate 1 0))) := by
  have hlength : (List.replicate count [(0 : Int), 0, 0]).length = count := List.length_replicate
  unfold zerosBox zeros
  rw [List.getElem?_map, List.getElem?_append_right (Nat.le_of_eq hlength), hlength, Nat.sub_self]
  rfl

theorem isHonest_zeros (hplain : s.authenticated = false) :
    s.IsHonest [zerosBox s.client.field s.exchanges] := by
  constructor
  case served =>
    intro i hi
    have hserved := zerosBox_served s.client.field hi
    refine ⟨fun box hbox => ?_, ?_⟩
    · rw [List.mem_singleton.mp hbox]
      exact ⟨_, hserved, holdsElements_zeros s.client.field 3⟩
    · have hzero : ∀ k < 3, shareSum s.client.field
          [numbersMessage s.client.field (List.replicate 3 0)] k = 0 := fun k hk => by
        rw [shareSum_cons, encodedAt_zeros s.client.field hk, shareSum_nil]
      rw [List.map_singleton, message_of_getElem? hserved]
      unfold Triple.Agrees
      rw [hzero (3 * 0) (by decide), hzero (3 * 0 + 1) (by decide), hzero (3 * 0 + 2) (by decide)]
  case result =>
    have hresult := zerosBox_result s.client.field s.exchanges
    unfold GivesResult
    rw [hplain, if_neg Bool.false_ne_true]
    exact ⟨_, rfl, _, hresult, holdsElements_zeros s.client.field 1⟩

end Session
end TreeParty
