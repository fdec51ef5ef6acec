import TreeParty.Proofs.Exchange.Traffic
import TreeParty.Proofs.Link.Network
/-!
# Outlines of links

The outline of what links have done keeps how long each message was, but not what was in it. Neither
mailboxes nor byte streams act on the content of the messages that they are given.
-/

set_option autoImplicit false

namespace TreeParty

variable {α σ τ : Type}

def Bytes.outline (payload : Bytes) : Bytes := List.replicate payload.length 0

theorem Bytes.outline_append (payload more : Bytes) :
    (payload ++ more).outline = payload.outline ++ more.outline := by
  rw [outline, List.length_append, ← List.replicate_append_replicate]
  rfl

theorem Bytes.outline_of_length {payload payload' : Bytes}
    (h : payload'.length = payload.length) : payload'.outline = payload.outline := by
  rw [outline, h]
  rfl

/-! ## Links -/

/-- Whether what a link does shows the same outline, whatever the messages are that it is given. -/
structure Link.IsBlind (link : Link (StateM σ)) (outline : σ → τ) : Prop where
  send : ∀ {payload payload' : Bytes}, payload'.length = payload.length →
    Agree outline (link.send payload) (link.send payload')
  receive : ∀ limit : Option Int, Agree outline (link.receive limit) (link.receive limit)

theorem Link.carrier_isBlind {links : List (Link (StateM σ))} {note : Notice → StateM σ Unit}
    {outline : σ → τ} (hlinks : ∀ link ∈ links, link.IsBlind outline)
    (hnote : ∀ (notice : Notice) (state : σ), outline (note notice state).2 = outline state) :
    (Link.carrier links note).IsBlind outline := by
  constructor
  case send =>
    intro engine payload payload' hlength
    simp only [carrier]
    cases hlink : links[engine]? with
    | none => exact .pure outline _
    | some link => exact (hlinks link (List.mem_of_getElem? hlink)).send hlength
  case receive =>
    intro engine limit
    simp only [carrier]
    cases hlink : links[engine]? with
    | none => exact .pure outline _
    | some link => exact (hlinks link (List.mem_of_getElem? hlink)).receive limit
  case note => exact hnote

/-! ## Mailboxes -/

namespace Mailbox

def outline (box : Mailbox) : Mailbox := { box with outbox := box.outbox.map Bytes.outline }

theorem agree_send {payload payload' : Bytes} (hlength : payload'.length = payload.length) :
    Agree outline (send payload) (send payload') := by
  rintro ⟨engine, inbox, outbox, closed⟩ ⟨engine', inbox', outbox', closed'⟩ h
  obtain ⟨rfl, rfl, houtbox, rfl⟩ := Mailbox.mk.inj h
  cases closed' with
  | true => exact ⟨rfl, h⟩
  | false =>
    have hpayload : [payload'.outline] = [payload.outline] := by
      rw [Bytes.outline_of_length hlength]
    refine ⟨rfl, ?_⟩
    simp only [send, outline, Bool.false_eq_true, if_false, List.map_append, List.map_cons,
      List.map_nil]
    rw [houtbox, hpayload]

theorem agree_receive (limit : Option Int) : Agree outline (receive limit) (receive limit) := by
  rintro ⟨engine, inbox, outbox, closed⟩ ⟨engine', inbox', outbox', closed'⟩ h
  obtain ⟨rfl, rfl, houtbox, rfl⟩ := Mailbox.mk.inj h
  have hleft : ∀ left, outline ⟨engine', left, outbox', closed'⟩ =
      outline ⟨engine', left, outbox, closed'⟩ := fun left => by
    simp only [outline, houtbox]
  cases closed' with
  | true => exact ⟨rfl, h⟩
  | false =>
    rcases inbox' with _ | ⟨_ | payload, rest⟩
    · exact ⟨rfl, h⟩
    · exact ⟨rfl, hleft rest⟩
    · simp only [receive, Bool.false_eq_true, if_false]
      cases Frame.checkLength engine' payload.length limit with
      | ok => exact ⟨rfl, hleft rest⟩
      | error fault => exact ⟨rfl, hleft rest⟩

end Mailbox

namespace MailRoom

def outline (room : MailRoom) : MailRoom := ⟨room.boxes.map Mailbox.outline, []⟩

theorem agree_onBox {act act' : StateM Mailbox α} (h : Agree Mailbox.outline act act')
    (place : Nat) (missing : α) :
    Agree outline (onBox place missing act) (onBox place missing act') := by
  intro room room' hroom
  have hboxes : room'.boxes.map Mailbox.outline = room.boxes.map Mailbox.outline :=
    congrArg boxes hroom
  have hplace := congrArg (fun boxes => boxes[place]?) hboxes
  simp only [List.getElem?_map] at hplace
  cases hbox : room.boxes[place]? with
  | none =>
    have hbox' : room'.boxes[place]? = none := by simpa [hbox] using hplace
    simp only [onBox, hbox, hbox']
    exact ⟨trivial, hroom⟩
  | some box =>
    rw [hbox] at hplace
    obtain ⟨box', hbox', houtline⟩ := Option.map_eq_some_iff.mp hplace
    obtain ⟨hanswer, hleft⟩ := h box box' houtline
    rw [onBox_of_getElem? hbox, onBox_of_getElem? hbox']
    refine ⟨hanswer, ?_⟩
    simp only [outline, List.map_set, hboxes, hleft]

theorem links_isBlind (engines : Nat) : ∀ link ∈ links engines, link.IsBlind outline := by
  intro link hlink
  obtain ⟨place, -, rfl⟩ := List.mem_map.mp hlink
  exact ⟨fun hlength => agree_onBox (Mailbox.agree_send hlength) place _,
    fun limit => agree_onBox (Mailbox.agree_receive limit) place _⟩

theorem carrier_isBlind (engines : Nat) : (Link.carrier (links engines) note).IsBlind outline :=
  Link.carrier_isBlind (links_isBlind engines) fun _ _ => rfl

end MailRoom

/-! ## Byte streams -/

def ByteStream.outline (stream : ByteStream) : ByteStream :=
  { stream with written := stream.written.outline }

def Attempt.outline : Attempt → Attempt
  | accepted stream => accepted stream.outline
  | refused => refused
  | interrupted => interrupted

def Contact.outline (contact : Contact) : Contact :=
  { contact with attempt := contact.attempt.outline }

namespace ByteStream

theorem agree_transmit {bytes bytes' : Bytes} (hlength : bytes'.length = bytes.length) :
    Agree outline (transmit bytes) (transmit bytes') := by
  rintro ⟨_, _, _, _, _, written, _⟩ ⟨_, _, _, _, _, written', _⟩ h
  obtain ⟨rfl, rfl, rfl, rfl, rfl, hwritten, rfl⟩ := ByteStream.mk.inj h
  refine ⟨rfl, ?_⟩
  simp only [transmit, outline, Bytes.outline_append, Bytes.outline_of_length hlength]
  rw [hwritten]

theorem agree_take (count : Nat) : Agree outline (take count) (take count) := by
  rintro ⟨incoming, reset, _, _, _, written, _⟩ ⟨incoming', reset', _, _, _, written', _⟩ h
  obtain ⟨rfl, rfl, rfl, rfl, rfl, hwritten, rfl⟩ := ByteStream.mk.inj h
  have hwritten : written'.outline = written.outline := hwritten
  cases reset' with
  | true => exact ⟨rfl, h⟩
  | false =>
    by_cases hshort : incoming'.length < count
    · simp only [take, hshort, Bool.false_eq_true, if_true, if_false, outline, hwritten, and_self]
    · simp only [take, hshort, Bool.false_eq_true, if_false, outline, hwritten, and_self]

end ByteStream

namespace Network

def outline (net : Network) : Network :=
  { net with contacts := net.contacts.map Contact.outline, notices := [] }

theorem agree_onStream {act act' : StateM ByteStream α}
    (h : Agree ByteStream.outline act act') (handle : Nat) (missing : α) :
    Agree outline (onStream handle missing act) (onStream handle missing act') := by
  intro net net' hnet
  obtain ⟨hscript, hcontacts, -⟩ := Network.mk.inj hnet
  have hcontacts : net'.contacts.map Contact.outline = net.contacts.map Contact.outline := hcontacts
  have hhandle := congrArg (fun contacts => contacts[handle]?) hcontacts
  simp only [List.getElem?_map] at hhandle
  cases hcontact : net.contacts[handle]? with
  | none =>
    have hcontact' : net'.contacts[handle]? = none := by simpa [hcontact] using hhandle
    simp only [onStream, hcontact, hcontact']
    exact ⟨trivial, hnet⟩
  | some contact =>
    rw [hcontact] at hhandle
    obtain ⟨contact', hcontact', houtline⟩ := Option.map_eq_some_iff.mp hhandle
    obtain ⟨host, port, attempt⟩ := contact
    obtain ⟨host', port', attempt'⟩ := contact'
    obtain ⟨rfl, rfl, hattempt⟩ := Contact.mk.inj houtline
    match attempt, attempt', hattempt with
    | .accepted stream, .accepted stream', hattempt =>
      obtain ⟨hanswer, hleft⟩ := h stream stream' (Attempt.accepted.inj hattempt)
      rw [onStream_of_contact hcontact, onStream_of_contact hcontact']
      refine ⟨hanswer, ?_⟩
      simp only [outline, withStream, List.map_set, hcontacts, hscript, Contact.outline,
        Attempt.outline, hleft]
    | .refused, .refused, _ =>
      simp only [onStream, hcontact, hcontact']
      exact ⟨trivial, hnet⟩
    | .interrupted, .interrupted, _ =>
      simp only [onStream, hcontact, hcontact']
      exact ⟨trivial, hnet⟩

theorem agree_read (engine : Int) (handle : Nat) (reading : Reading α) :
    Agree outline (sockets.read engine handle reading) (sockets.read engine handle reading) := by
  induction reading with
  | done a => exact .pure outline _
  | fail fault => exact .pure outline _
  | take count next ih =>
    have hintake := agree_onStream (ByteStream.agree_take count) handle (.broken "not connected")
    rw [Sockets.read]
    refine hintake.bind fun intake => ?_
    cases intake with
    | bytes content => exact ih content
    | ended => exact .pure outline _
    | broken cause => exact .pure outline _

theorem length_encode_congr {payload payload' : Bytes} (h : payload'.length = payload.length) :
    (Frame.encode payload').length = (Frame.encode payload).length := by
  rw [Frame.length_encode, Frame.length_encode, h]

theorem links_isBlind (engines : Nat) : ∀ link ∈ links engines, link.IsBlind outline := by
  intro link hlink
  obtain ⟨place, -, rfl⟩ := List.mem_map.mp hlink
  constructor
  case send =>
    intro payload payload' hlength
    have hframe := length_encode_congr hlength
    refine (agree_onStream (ByteStream.agree_transmit hframe) place _).bind fun failure => ?_
    cases failure with
    | none => exact .pure outline _
    | some cause => exact .pure outline _
  case receive => exact fun limit => agree_read place place (Frame.reading place limit)

theorem carrier_isBlind (engines : Nat) : (Link.carrier (links engines) note).IsBlind outline :=
  Link.carrier_isBlind (links_isBlind engines) fun _ _ => rfl

end Network
end TreeParty
