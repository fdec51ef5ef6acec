import TreeParty.Proofs.Link.MailRoom
import TreeParty.Proofs.Link.Stream
/-!
# Mailboxes behind byte streams

A byte stream that works and brings framed messages acts like a mailbox in which they wait. An
exchange that comes to an end over mailboxes therefore comes to the same end over such streams.
-/

set_option autoImplicit false

namespace TreeParty

/-! ## Announcements -/

namespace Frame

theorem announcement_of_le {clientId : Int} (hge : -2147483648 ≤ clientId)
    (hle : clientId ≤ 2147483647) : ∃ bytes, announcement clientId = .ok bytes :=
  ⟨_, if_pos ⟨hge, hle⟩⟩

theorem announcement_of_lt {clientId : Int} (hlt : 2147483647 < clientId) :
    announcement clientId = .error (.misuse .announcementRange) :=
  if_neg fun h => by omega

end Frame

/-! ## Streams -/

namespace ByteStream

/-- Whether a stream works and brings the messages that wait in a mailbox, and then anything. -/
structure Carries (stream : ByteStream) (box : Mailbox) : Prop where
  reset : stream.reset = false
  failingFlush : stream.failingFlush = none
  incoming : ∃ (payloads : List Bytes) (rest : Bytes), box.inbox = payloads.map some ∧
    (∀ payload ∈ payloads, payload.length < Nat.pow 256 Frame.headerBytes) ∧
    stream.incoming = payloads.flatMap Frame.encode ++ rest

variable {stream : ByteStream} {box : Mailbox}

theorem Carries.transmitted (h : stream.Carries box) (bytes : Bytes) :
    (stream.transmitted bytes).Carries box :=
  ⟨h.reset, h.failingFlush, h.incoming⟩

theorem Carries.deliver (h : stream.Carries box) (payload : Bytes) :
    stream.Carries (box.deliver payload) :=
  ⟨h.reset, h.failingFlush, h.incoming⟩

theorem Carries.exists_message (h : stream.Carries box) (hinbox : box.inbox ≠ []) :
    ∃ (payload : Bytes) (items : List (Option Bytes)) (left : Bytes),
      box.inbox = some payload :: items ∧ payload.length < Nat.pow 256 Frame.headerBytes ∧
        stream.incoming = Frame.encode payload ++ left ∧
        Carries { stream with incoming := left } (box.skip 1) := by
  obtain ⟨payloads, rest, hwaiting, hshort, hincoming⟩ := h.incoming
  cases payloads with
  | nil => exact absurd hwaiting hinbox
  | cons payload more =>
    have hinbox' : (box.skip 1).inbox = more.map some := congrArg (List.drop 1) hwaiting
    rw [List.flatMap_cons, List.append_assoc] at hincoming
    refine ⟨payload, more.map some, _, hwaiting, hshort payload List.mem_cons_self, hincoming, ?_⟩
    exact ⟨h.reset, h.failingFlush, more, rest, hinbox',
      fun other hother => hshort other (List.mem_cons_of_mem payload hother), rfl⟩

end ByteStream

/-! ## The network -/

namespace Network

structure Matches (net : Network) (boxes : List Mailbox) : Prop where
  isOpen : Mailbox.OpenFrom 0 boxes
  carried : ∀ (place : Nat) (box : Mailbox), boxes[place]? = some box →
    ∃ (host : String) (port : Int) (stream : ByteStream),
      net.contacts[place]? = some ⟨host, port, .accepted stream⟩ ∧ stream.Carries box

def links (engines : Nat) : List (Link (StateM Network)) :=
  (List.range engines).map fun (place : Nat) => sockets.link place place

variable {net : Network} {boxes : List Mailbox}

theorem Matches.set (h : net.Matches boxes) {place : Nat} {box box' : Mailbox}
    (hbox : boxes[place]? = some box) (hengine : box'.engine = box.engine)
    (hclosed : box'.closed = box.closed) (host : String) (port : Int) {stream' : ByteStream}
    (hcarries : stream'.Carries box') :
    Matches { net with contacts := net.contacts.set place ⟨host, port, .accepted stream'⟩ }
      (boxes.set place box') := by
  obtain ⟨_, _, _, hcontact, -⟩ := h.carried place box hbox
  have hlt : place < net.contacts.length := (List.getElem?_eq_some_iff.mp hcontact).1
  have hltbox : place < boxes.length := (List.getElem?_eq_some_iff.mp hbox).1
  constructor
  case isOpen =>
    intro other found hfound
    by_cases hother : place = other
    · subst hother
      rw [List.getElem?_set_self hltbox] at hfound
      cases hfound
      rw [hengine, hclosed]
      exact h.isOpen place box hbox
    · rw [List.getElem?_set_ne hother] at hfound
      exact h.isOpen other found hfound
  case carried =>
    intro other found hfound
    by_cases hother : place = other
    · subst hother
      rw [List.getElem?_set_self hltbox] at hfound
      cases hfound
      exact ⟨host, port, stream', List.getElem?_set_self hlt, hcarries⟩
    · rw [List.getElem?_set_ne hother] at hfound
      obtain ⟨host', port', stream, hcontact', hcarries'⟩ := h.carried other found hfound
      exact ⟨host', port', stream, by rwa [List.getElem?_set_ne hother], hcarries'⟩

theorem Matches.of_contacts {net' : Network} (h : net.Matches boxes)
    (hcontacts : net'.contacts = net.contacts) : net'.Matches boxes :=
  ⟨h.isOpen, by rw [hcontacts]; exact h.carried⟩

/-! ## One action -/

theorem send_of_matches (h : net.Matches boxes) {place : Nat} {box : Mailbox}
    (hbox : boxes[place]? = some box) (payload : Bytes) :
    ∃ net', (sockets.link place place).send payload net = (.ok (), net') ∧
      net'.Matches (boxes.set place (box.deliver payload)) := by
  obtain ⟨host, port, stream, hcontact, hcarries⟩ := h.carried place box hbox
  have hhandle : place < net.contacts.length := (List.getElem?_eq_some_iff.mp hcontact).1
  have hlink := send_withStream hhandle hcarries.failingFlush host port place payload
  rw [withStream_of_contact hcontact] at hlink
  have hengine : (box.deliver payload).engine = box.engine := rfl
  exact ⟨_, hlink, h.set hbox hengine rfl host port ((hcarries.transmitted _).deliver payload)⟩

theorem receive_of_matches (h : net.Matches boxes) {place : Nat} {box : Mailbox}
    (hbox : boxes[place]? = some box) (hinbox : box.inbox ≠ []) (limit : Option Int) :
    ∃ net', (sockets.link place place).receive limit net =
        ((Mailbox.receive limit box).1, net') ∧
      ∀ payload, (Mailbox.receive limit box).1 = .returned payload →
        net'.Matches (boxes.set place (Mailbox.receive limit box).2) := by
  obtain ⟨hengine, hclosed⟩ := h.isOpen place box hbox
  obtain ⟨host, port, stream, hcontact, hcarries⟩ := h.carried place box hbox
  obtain ⟨payload, items, left, hwaiting, hshort, hincoming, hleft⟩ :=
    hcarries.exists_message hinbox
  have hhandle : place < net.contacts.length := (List.getElem?_eq_some_iff.mp hcontact).1
  have hlink := receive_withStream hhandle hcarries.reset host port place limit
  have hmailbox := Mailbox.receive_of_open hclosed limit
  rw [withStream_of_contact hcontact, hincoming, Frame.receipt_encode hshort] at hlink
  rw [hwaiting, hengine, Nat.zero_add] at hmailbox
  simp only at hmailbox
  rw [hlink, hmailbox]
  cases Frame.checkLength place payload.length limit with
  | error fault =>
    refine ⟨_, rfl, fun payload' hpayload' => ?_⟩
    cases hpayload'
  | ok =>
    refine ⟨_, rfl, fun _ _ => ?_⟩
    exact h.set hbox (box.skip_engine 1) (box.skip_closed 1) host port hleft

/-! ## One action of an exchange -/

variable {room : MailRoom} {engines engine : Nat}

theorem getElem?_links (hengine : engine < engines) :
    (links engines)[engine]? = some (sockets.link engine engine) ∧
      (MailRoom.links engines)[engine]? = some (MailRoom.link engine) := by
  constructor
  · rw [links, List.getElem?_map, List.getElem?_range hengine]
    rfl
  · rw [MailRoom.links, List.getElem?_map, List.getElem?_range hengine]
    rfl

theorem getElem?_links_none (hengine : engines ≤ engine) :
    (links engines)[engine]? = none ∧ (MailRoom.links engines)[engine]? = none := by
  constructor
  · apply List.getElem?_eq_none
    simpa [links] using hengine
  · apply List.getElem?_eq_none
    simpa [MailRoom.links] using hengine

theorem carrier_send_of_matches (h : net.Matches room.boxes)
    (hengines : engines = room.boxes.length) (engine : Nat) (payload : Bytes) :
    ∃ result net' room',
      (Link.carrier (links engines) note).send engine payload net = (result, net') ∧
        (Link.carrier (MailRoom.links engines) MailRoom.note).send engine payload room =
          (result, room') ∧
        (result = .ok () → net'.Matches room'.boxes ∧ engines = room'.boxes.length) := by
  by_cases hplace : engine < engines
  · obtain ⟨hlink, hmail⟩ := getElem?_links hplace
    have hbox := List.getElem?_eq_getElem (hengines ▸ hplace)
    obtain ⟨net', hsend, hmatches⟩ := send_of_matches h hbox payload
    have hact := MailRoom.onBox_of_getElem? hbox (.error (.misuse .position))
      (Mailbox.send payload)
    rw [Mailbox.send_of_open (h.isOpen engine _ hbox).2] at hact
    simp only [Link.carrier, hlink, hmail]
    refine ⟨_, _, _, hsend, hact, fun _ => ⟨hmatches, ?_⟩⟩
    rw [List.length_set, hengines]
  · obtain ⟨hlink, hmail⟩ := getElem?_links_none (Nat.le_of_not_lt hplace)
    simp only [Link.carrier, hlink, hmail]
    refine ⟨_, _, _, rfl, rfl, fun hsent => ?_⟩
    cases hsent

theorem carrier_receive_of_matches (h : net.Matches room.boxes)
    (hengines : engines = room.boxes.length) (engine : Nat) (limit : Option Int) :
    ((Link.carrier (MailRoom.links engines) MailRoom.note).receive engine limit room).1 = .waiting ∨
      ∃ result net' room',
        (Link.carrier (links engines) note).receive engine limit net = (result, net') ∧
          (Link.carrier (MailRoom.links engines) MailRoom.note).receive engine limit room =
            (result, room') ∧
          ∀ payload, result = .returned payload →
            net'.Matches room'.boxes ∧ engines = room'.boxes.length := by
  by_cases hplace : engine < engines
  · obtain ⟨hlink, hmail⟩ := getElem?_links hplace
    obtain ⟨box, hbox⟩ : ∃ box, room.boxes[engine]? = some box :=
      ⟨_, List.getElem?_eq_getElem (hengines ▸ hplace)⟩
    have hact := MailRoom.onBox_of_getElem? hbox (.failed (.misuse .position))
      (Mailbox.receive limit)
    simp only [Link.carrier, hlink, hmail]
    by_cases hinbox : box.inbox = []
    · left
      have hwaits := Mailbox.receive_of_open (h.isOpen engine box hbox).2 limit
      rw [hinbox] at hwaits
      rw [hwaits] at hact
      exact congrArg Prod.fst hact
    · right
      obtain ⟨net', hreceive, hmatches⟩ := receive_of_matches h hbox hinbox limit
      refine ⟨_, _, _, hreceive, hact, fun payload hpayload => ⟨hmatches payload hpayload, ?_⟩⟩
      rw [List.length_set, hengines]
  · obtain ⟨hlink, hmail⟩ := getElem?_links_none (Nat.le_of_not_lt hplace)
    simp only [Link.carrier, hlink, hmail]
    refine .inr ⟨_, _, _, rfl, rfl, fun payload hpayload => ?_⟩
    cases hpayload

/-! ## Runs -/

variable {α : Type}

/-- An exchange that does not wait over mailboxes ends in the same way over streams that carry
them. -/
theorem run_of_matches (h : net.Matches room.boxes) (hengines : engines = room.boxes.length)
    {x : Exchange α} {progress : Progress}
    (hending : (x.run (Link.carrier (MailRoom.links engines) MailRoom.note) progress room).1.1 ≠
      .waiting) :
    (x.run (Link.carrier (links engines) note) progress net).1 =
      (x.run (Link.carrier (MailRoom.links engines) MailRoom.note) progress room).1 := by
  induction x generalizing progress room net with
  | done a => rfl
  | fail fault => rfl
  | note notice next ih =>
    have hcontacts : (note notice net).2.Matches room.boxes := h.of_contacts rfl
    exact @ih _ ⟨room.boxes, room.notices ++ [notice]⟩ hcontacts hengines progress hending
  | advance change next ih => exact ih h hengines hending
  | send engine payload next ih =>
    obtain ⟨result, net', room', hnet, hroom, hnext⟩ :=
      carrier_send_of_matches h hengines engine payload
    rw [Exchange.run_send, hroom] at hending
    rw [Exchange.run_send, hnet, Exchange.run_send, hroom]
    cases result with
    | error fault => rfl
    | ok =>
      obtain ⟨hmatches, hengines'⟩ := hnext rfl
      exact ih hmatches hengines' hending
  | receive engine limit next ih =>
    rw [Exchange.run_receive] at hending
    rw [Exchange.run_receive, Exchange.run_receive]
    obtain hwaits | ⟨result, net', room', hnet, hroom, hnext⟩ :=
      carrier_receive_of_matches h hengines engine limit
    · rw [← Prod.eta ((Link.carrier (MailRoom.links engines) MailRoom.note).receive engine limit
        room), hwaits] at hending
      exact absurd rfl hending
    · rw [hroom] at hending
      rw [hnet, hroom]
      cases result with
      | returned payload =>
        obtain ⟨hmatches, hengines'⟩ := hnext payload rfl
        exact ih payload hmatches hengines' hending
      | failed fault => rfl
      | waiting => rfl

end Network
end TreeParty
