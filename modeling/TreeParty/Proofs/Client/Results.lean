import TreeParty.Proofs.Client.Offering
import TreeParty.Proofs.Field.Signed
import TreeParty.Proofs.FixedPoint.RoundTrip
/-!
# Results from all engines

The engines split every number of a result into shares that add up to it modulo the modulus. However
they split it, the client's sums have the signed views that were split, so a result is what its
shares stand for and nothing else about them shows.
-/

set_option autoImplicit false

namespace TreeParty

variable {F : FieldParams}

/-- Whether messages, one from each engine, are shares of whole numbers: as many reduced elements in
each message as there are numbers, which add up to the residues of these. -/
structure IsSharing (F : FieldParams) (secrets : List Int) (payloads : List Bytes) : Prop where
  holds : ∀ payload ∈ payloads, HoldsElements F secrets.length payload
  sums : ∀ k secret, secrets[k]? = some secret → shareSum F payloads k ≡ secret [ZMOD F.prime]

/-! ## Sums of shares -/

theorem shareSum_perm {payloads payloads' : List Bytes} (h : payloads.Perm payloads') (k : Nat) :
    shareSum F payloads k = shareSum F payloads' k :=
  (h.map fun payload => encodedAt F payload k).sum_eq

theorem IsSharing.perm {secrets : List Int} {payloads payloads' : List Bytes}
    (hsharing : IsSharing F secrets payloads) (hperm : payloads.Perm payloads') :
    IsSharing F secrets payloads' := by
  constructor
  · intro payload hpayload
    exact hsharing.holds payload (hperm.mem_iff.mpr hpayload)
  · intro k secret hsecret
    rw [← shareSum_perm hperm]
    exact hsharing.sums k secret hsecret

theorem IsSharing.map_summed {secrets : List Int} {payloads : List Bytes}
    (hsharing : IsSharing F secrets payloads) :
    (List.range secrets.length).map (summed F payloads) = secrets.map (Residue.ofInt F) := by
  apply List.ext_getElem?
  intro k
  by_cases hk : k < secrets.length
  · have hsecret := List.getElem?_eq_getElem hk
    rw [List.getElem?_map, List.getElem?_range hk, List.getElem?_map, hsecret]
    exact congrArg some (Residue.ofInt_eq_ofInt_iff.mpr (hsharing.sums k _ hsecret))
  · rw [List.getElem?_eq_none (by simpa using hk), List.getElem?_eq_none (by simpa using hk)]

/-! ## Openings -/

namespace Opening

def numbers (opening : Opening F) : List Int :=
  [opening.output.val, opening.blinding.val, opening.product.val]

theorem summed_of_isSharing {opening : Opening F} {payloads : List Bytes}
    (hsharing : IsSharing F opening.numbers payloads) : summed F payloads = opening := by
  have hsum : ∀ k (x : Residue F), opening.numbers[k]? = some (x.val : Int) →
      TreeParty.summed F payloads k = x := by
    intro k x hx
    have hresidue := Residue.ofInt_eq_ofInt_iff.mpr (hsharing.sums k x.val hx)
    rwa [Residue.ofInt_val] at hresidue
  rw [summed, hsum 0 _ rfl, hsum 1 _ rfl, hsum 2 _ rfl]

theorem isValid_iff {opening : Opening F} :
    opening.isValid = true ↔ opening.output * opening.blinding = opening.product := beq_iff_eq

end Opening

/-! ## The first message of the wrong kind -/

namespace Mailbox

def HasMessage (box : Mailbox) : Prop := ∃ payload, box.inbox.head? = some (some payload)

/-- A message of the wrong kind is not passed over. -/
theorem takeAll_of_malformed {count : Nat} {front : List Mailbox} {bad : Mailbox}
    {payload : Bytes} (hfront : ∀ box ∈ front, box.HasMessage)
    (hhead : bad.inbox.head? = some (some payload)) (hbad : ¬ HoldsElements F count payload)
    (rest : List Mailbox) :
    ∃ fault, (takeAll F count (front ++ bad :: rest)).1 = .failed (.wire fault) := by
  induction front with
  | nil =>
    obtain ⟨fault, hfault⟩ := takeShares_of_malformed hhead hbad
    refine ⟨fault, ?_⟩
    rw [List.nil_append, takeAll, hfault]
  | cons box front ih =>
    obtain ⟨first, hfirst⟩ := hfront box List.mem_cons_self
    -- An earlier message may be of the wrong kind too; then that one is named.
    by_cases hholds : HoldsElements F count first
    · have hoffers : box.Offers F count 0 := by
        rw [List.head?_eq_getElem?] at hfirst
        exact ⟨first, hfirst, hholds⟩
      obtain ⟨fault, hfault⟩ := ih fun other hother =>
        hfront other (List.mem_cons_of_mem box hother)
      refine ⟨fault, ?_⟩
      rw [List.cons_append, takeAll, takeShares_of_offers hoffers]
      revert hfault
      rcases takeAll F count (front ++ bad :: rest) with ⟨_ | _ | _, boxes⟩
      · intro hfault
        cases hfault
      · exact id
      · intro hfault
        cases hfault
    · obtain ⟨fault, hfault⟩ := takeShares_of_malformed hfirst hholds
      refine ⟨fault, ?_⟩
      rw [List.cons_append, takeAll, hfault]

end Mailbox

namespace Client

open Mailbox MailRoom

variable {client : Client} {room : MailRoom} {payloads : List Bytes}

/-! ## The pieces of a result -/

theorem decodeReals_ofInt (hodd : Odd client.field.prime) {reals : List Int}
    {values : List Binary64} (hrange : ∀ secret ∈ reals, |secret| ≤ client.field.prime / 2)
    (hvalues : List.Forall₂
      (fun secret value => FixedPoint.decode client.precision secret = .ok value) reals values) :
    client.decodeReals (reals.map (Residue.ofInt client.field)) = .ok values := by
  rw [decodeReals, mapM_eq_ok_iff, List.forall₂_map_left_iff]
  refine ((List.forall₂_and_left _ _).mpr ⟨hrange, hvalues⟩).imp fun secret value hboth => ?_
  rw [Residue.toSigned_ofInt_of_odd hodd hboth.1]
  exact hboth.2

theorem receiveResult_of_pos {size : Nat} (hsize : 1 ≤ size) :
    client.receiveResult size = (do
      let sums ← client.sumShares size
      let values ← client.decodeReals sums.dropLast
      match sums.getLast? with
      | some last => return (values, last.toSigned)
      | none => .fail (.misuse .position)) := by
  have hnot : ¬ (size : Int) < 1 := by omega
  exact if_neg hnot

/-! ## Messages from all engines -/

section

variable (hopen : room.IsOpen) (hengines : client.engines = room.boxes.length)

include hopen hengines

theorem run_sumShares_offering (hlength : payloads.length = room.boxes.length) {count : Nat}
    (hholds : ∀ payload ∈ payloads, HoldsElements client.field count payload)
    (progress : Progress) :
    MailRoom.run (client.sumShares count) progress (room.offering payloads) =
      ((.returned ((List.range count).map (summed client.field payloads)), progress), room) := by
  have hcount := (length_offering hlength).symm
  have hrun := run_sumShares_of_offers (isOpen_offering hopen payloads) (hengines.trans hcount)
    ((offers_offering_iff hlength).mpr hholds) progress
  rw [map_message_offering hlength, map_skip_offering hlength] at hrun
  exact hrun

theorem run_receiveOpening_offering (hlength : payloads.length = room.boxes.length)
    (hholds : ∀ payload ∈ payloads, HoldsElements client.field 3 payload) (progress : Progress) :
    MailRoom.run client.receiveOpening progress (room.offering payloads) =
      if (Opening.summed client.field payloads).isValid then
        ((.returned (Opening.summed client.field payloads), progress), room)
      else
        ((.failed (.violation .unauthenticated), progress),
          { room with notices := room.notices ++ [.unauthenticated] }) := by
  have hcount := (length_offering hlength).symm
  have hrun := run_receiveOpening_of_offers (isOpen_offering hopen payloads)
    (hengines.trans hcount) ((offers_offering_iff hlength).mpr hholds) progress
  rw [map_message_offering hlength, map_skip_offering hlength] at hrun
  exact hrun

theorem run_receiveResult_offering (hodd : Odd client.field.prime) {reals : List Int}
    {index : Int} {values : List Binary64} (hlength : payloads.length = room.boxes.length)
    (hsharing : IsSharing client.field (reals ++ [index]) payloads)
    (hrange : ∀ secret ∈ reals ++ [index], |secret| ≤ client.field.prime / 2)
    (hvalues : List.Forall₂
      (fun secret value => FixedPoint.decode client.precision secret = .ok value) reals values)
    (progress : Progress) :
    MailRoom.run (client.receiveResult (reals ++ [index]).length) progress
        (room.offering payloads) = ((.returned (values, index), progress), room) := by
  have hsize : 1 ≤ (reals ++ [index]).length := by simp
  have hindex : |index| ≤ client.field.prime / 2 := hrange index (by simp)
  have hreals : ∀ secret ∈ reals, |secret| ≤ client.field.prime / 2 :=
    fun secret hsecret => hrange secret (List.mem_append_left _ hsecret)
  have hsums := run_sumShares_offering hopen hengines hlength hsharing.holds progress
  rw [hsharing.map_summed, List.map_append, List.map_singleton] at hsums
  rw [receiveResult_of_pos hsize, MailRoom.run_bind_of_returned hsums, List.dropLast_concat,
    decodeReals_ofInt hodd hreals hvalues, List.getLast?_concat]
  simp only [Residue.toSigned_ofInt_of_odd hodd hindex]
  rfl

/-- Two sharings of the same numbers cannot be told apart. -/
theorem run_sumShares_bind_congr {α : Type} {secrets : List Int} {payloads' : List Bytes}
    (hlength : payloads.length = room.boxes.length)
    (hlength' : payloads'.length = room.boxes.length)
    (hsharing : IsSharing client.field secrets payloads)
    (hsharing' : IsSharing client.field secrets payloads')
    (f : List (Residue client.field) → Exchange α) (progress : Progress) :
    MailRoom.run (client.sumShares secrets.length >>= f) progress (room.offering payloads) =
      MailRoom.run (client.sumShares secrets.length >>= f) progress (room.offering payloads') := by
  have hsums := run_sumShares_offering hopen hengines hlength hsharing.holds progress
  have hsums' := run_sumShares_offering hopen hengines hlength' hsharing'.holds progress
  rw [hsharing.map_summed] at hsums
  rw [hsharing'.map_summed] at hsums'
  rw [MailRoom.run_bind_of_returned hsums, MailRoom.run_bind_of_returned hsums']

theorem run_sumShares_of_malformed {count : Nat} {front rest : List Mailbox} {bad : Mailbox}
    {payload : Bytes} (hboxes : room.boxes = front ++ bad :: rest)
    (hfront : ∀ box ∈ front, box.HasMessage) (hhead : bad.inbox.head? = some (some payload))
    (hbad : ¬ HoldsElements client.field count payload) (progress : Progress) :
    ∃ fault left,
      MailRoom.run (client.sumShares count) progress room =
        ((.failed (.wire fault), progress), left) := by
  obtain ⟨fault, hfault⟩ := takeAll_of_malformed hfront hhead hbad rest
  rw [← hboxes] at hfault
  rw [run_sumShares hopen hengines, hfault]
  exact ⟨fault, _, rfl⟩

end

/-! ## Reconstruction -/

/-- Whether an exchange that wants a message of `count` elements from every engine ends with a wire
fault at any that is not such a message, if no engine before has nothing to say. -/
def RefusesMalformed {α : Type} (F : FieldParams) (count : Nat) (room : MailRoom)
    (progress : Progress) (x : Exchange α) : Prop :=
  ∀ front bad rest payload, room.boxes = front ++ bad :: rest →
    (∀ box ∈ front, box.HasMessage) → bad.inbox.head? = some (some payload) →
    ¬ HoldsElements F count payload →
    ∃ fault left, MailRoom.run x progress room = ((.failed (.wire fault), progress), left)

theorem refusesMalformed_sumShares_bind {α : Type} (hopen : room.IsOpen)
    (hengines : client.engines = room.boxes.length) (count : Nat) (progress : Progress)
    (f : List (Residue client.field) → Exchange α) :
    RefusesMalformed client.field count room progress (client.sumShares count >>= f) := by
  intro front bad rest payload hboxes hfront hhead hbad
  obtain ⟨fault, left, hrun⟩ :=
    run_sumShares_of_malformed hopen hengines hboxes hfront hhead hbad progress
  refine ⟨fault, left, ?_⟩
  rw [MailRoom.run_bind, hrun]
  rfl

/-- What a client makes of shares of results that all engines of a room send. -/
structure Reconstructs (client : Client) (room : MailRoom) (progress : Progress) : Prop where
  result : ∀ (reals : List Int) (index : Int) (values : List Binary64) (payloads : List Bytes),
    payloads.length = room.boxes.length →
    IsSharing client.field (reals ++ [index]) payloads →
    (∀ secret ∈ reals ++ [index], |secret| ≤ client.field.prime / 2) →
    List.Forall₂ (fun secret value => FixedPoint.decode client.precision secret = .ok value)
      reals values →
    MailRoom.run (client.receiveResult (reals ++ [index]).length) progress
        (room.offering payloads) = ((.returned (values, index), progress), room)
  decoded_exactly : ∀ places : Nat, client.precision = .places places → places ≤ 1023 →
    ∀ secret : Int, |secret| ≤ 2 ^ 53 →
      ∃ value, FixedPoint.decode client.precision secret = .ok value ∧ value.isFinite = true ∧
        value.value = secret / 2 ^ places
  opening : ∀ (opening : Opening client.field) payloads, payloads.length = room.boxes.length →
    IsSharing client.field opening.numbers payloads →
    MailRoom.run client.receiveOpening progress (room.offering payloads) =
      if opening.output * opening.blinding = opening.product then
        ((.returned opening, progress), room)
      else
        ((.failed (.violation .unauthenticated), progress),
          { room with notices := room.notices ++ [.unauthenticated] })
  /-- Neither how the numbers are split nor who holds which share makes a difference. -/
  same_result : ∀ secrets payloads payloads', secrets ≠ [] →
    payloads.length = room.boxes.length → payloads'.length = room.boxes.length →
    IsSharing client.field secrets payloads →
    IsSharing client.field secrets payloads' ∨ payloads.Perm payloads' →
    MailRoom.run (client.receiveResult secrets.length) progress (room.offering payloads) =
      MailRoom.run (client.receiveResult secrets.length) progress (room.offering payloads')
  same_opening : ∀ (opening : Opening client.field) payloads payloads',
    payloads.length = room.boxes.length → payloads'.length = room.boxes.length →
    IsSharing client.field opening.numbers payloads →
    IsSharing client.field opening.numbers payloads' ∨ payloads.Perm payloads' →
    MailRoom.run client.receiveOpening progress (room.offering payloads) =
      MailRoom.run client.receiveOpening progress (room.offering payloads')
  malformed_result : ∀ size : Nat, 1 ≤ size →
    RefusesMalformed client.field size room progress (client.receiveResult size)
  malformed_opening : RefusesMalformed client.field 3 room progress client.receiveOpening

theorem receive_reconstructs (hodd : Odd client.field.prime) (hopen : room.IsOpen)
    (hengines : client.engines = room.boxes.length) (progress : Progress) :
    Reconstructs client room progress := by
  constructor
  case result =>
    intro reals index values payloads hlength hsharing hrange hvalues
    exact run_receiveResult_offering hopen hengines hodd hlength hsharing hrange hvalues progress
  case decoded_exactly =>
    intro places hprecision hplaces secret hsmall
    rw [hprecision]
    exact FixedPoint.decode_isExact (Nat.lt_succ_of_le hplaces) hsmall
  case opening =>
    intro opening payloads hlength hsharing
    rw [run_receiveOpening_offering hopen hengines hlength hsharing.holds,
      Opening.summed_of_isSharing hsharing]
    simp only [Opening.isValid_iff]
  case same_result =>
    intro secrets payloads payloads' hsecrets hlength hlength' hsharing hother
    have hsharing' : IsSharing client.field secrets payloads' := hother.elim id hsharing.perm
    rw [receiveResult_of_pos (List.length_pos_of_ne_nil hsecrets)]
    exact run_sumShares_bind_congr hopen hengines hlength hlength' hsharing hsharing' _ progress
  case same_opening =>
    intro opening payloads payloads' hlength hlength' hsharing hother
    have hsharing' : IsSharing client.field opening.numbers payloads' :=
      hother.elim id hsharing.perm
    exact run_sumShares_bind_congr hopen hengines hlength hlength' hsharing hsharing' _ progress
  case malformed_result =>
    intro size hsize
    rw [receiveResult_of_pos hsize]
    exact refusesMalformed_sumShares_bind hopen hengines size progress _
  case malformed_opening =>
    exact refusesMalformed_sumShares_bind hopen hengines 3 progress _

theorem isSharing_two_engines :
    IsSharing .thirteen [-3, -6]
      [numbersMessage .thirteen [12, 9], numbersMessage .thirteen [11, 11]] := by
  constructor
  · intro payload hpayload
    rcases List.mem_pair.mp hpayload with rfl | rfl
    · exact holdsElements_numbersMessage .thirteen [12, 9]
    · exact holdsElements_numbersMessage .thirteen [11, 11]
  · intro k secret hsecret
    rcases k with _ | _ | k
    · cases hsecret
      decide
    · cases hsecret
      decide
    · cases hsecret

/-- With one binary place the first number stands for `-3 / 2`; both wrap around the modulus. -/
theorem receive_reconstructs_two_engines :
    Reconstructs ⟨.thirteen, 2, .places 1⟩ ⟨holding .thirteen [[], []], []⟩ ⟨3, []⟩ ∧
      ∃ value : Binary64, value.value = -3 / 2 ∧
        MailRoom.run (receiveResult ⟨.thirteen, 2, .places 1⟩ 2) ⟨3, []⟩
            ⟨holding .thirteen [[[12, 9]], [[11, 11]]], []⟩ =
          ((.returned ([value], -6), ⟨3, []⟩), ⟨holding .thirteen [[], []], []⟩) := by
  have hodd : Odd FieldParams.thirteen.prime := ⟨6, rfl⟩
  have hopen := isOpen_holding .thirteen [[], []] []
  have hengines : 2 = (holding .thirteen [[], []]).length := rfl
  have hall := @receive_reconstructs ⟨.thirteen, 2, .places 1⟩ _ hodd hopen hengines ⟨3, []⟩
  obtain ⟨value, hdecode, -, hvalue⟩ := hall.decoded_exactly 1 rfl (by decide) (-3) (by decide)
  have hrun := hall.result [-3] (-6) [value] _ rfl isSharing_two_engines (by decide)
    (List.Forall₂.cons hdecode List.Forall₂.nil)
  refine ⟨hall, value, ?_, hrun⟩
  rw [hvalue]
  norm_num

end Client
end TreeParty
