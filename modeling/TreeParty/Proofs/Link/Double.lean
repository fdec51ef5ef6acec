import TreeParty.Proofs.Link.Connect
import TreeParty.Proofs.Link.Framing
import Mathlib
/-!
# A mailbox in place of a stream

An engine that delivers some messages and then drops the connection fills a mailbox with the
messages and an item without one, or a stream with their frames up to its end. Links over the two
answer every call alike up to the first that fails, and what one writes is the frames of what the
other keeps in its outbox, behind the announcement.
-/

set_option autoImplicit false

namespace TreeParty

namespace Ending

variable {α β : Type}

def map (f : α → β) : Ending α → Ending β
  | returned a => returned (f a)
  | failed fault => failed fault
  | waiting => waiting

/-- Answers to the same calls that agree up to the first fault, which is of one kind in both. -/
inductive AgreeUntilFault : List (Ending α) → List (Ending α) → Prop
  | nil : AgreeUntilFault [] []
  | returned (a : α) {left right : List (Ending α)} (rest : AgreeUntilFault left right) :
    AgreeUntilFault (returned a :: left) (returned a :: right)
  | failed {fault fault' : Fault} {kind : String} (hkind : fault.sessionName? = some kind)
    (hkind' : fault'.sessionName? = some kind) (left right : List (Ending α)) :
    AgreeUntilFault (failed fault :: left) (failed fault' :: right)

end Ending

namespace Link

inductive Call where
  | send (payload : Bytes)
  | receive (limit : Option Int)

def Call.payload? : Call → Option Bytes
  | send payload => some payload
  | receive _ => none

variable {m : Type → Type} [Monad m]

/-- Carries out a call. One that receives is answered by a message. -/
def call (link : Link m) : Call → m (Ending (Option Bytes))
  | .send payload => do return .ofResult ((← link.send payload).map fun _ => none)
  | .receive limit => do return (← link.receive limit).map some

def callAll (link : Link m) (calls : List Call) : m (List (Ending (Option Bytes))) :=
  calls.mapM link.call

theorem callAll_cons {σ : Type} (link : Link (StateM σ)) (call : Call) (rest : List Call)
    (state : σ) :
    link.callAll (call :: rest) state =
      ((link.call call state).1 :: (link.callAll rest (link.call call state).2).1,
        (link.callAll rest (link.call call state).2).2) := by
  rw [callAll, List.mapM_cons]
  rfl

end Link

/-! ## One call -/

namespace MailRoom

def withBox (room : MailRoom) (place : Nat) (box : Mailbox) : MailRoom :=
  { room with boxes := room.boxes.set place box }

variable {room : MailRoom} {place : Nat} {box : Mailbox}

theorem withBox_of_getElem? (hbox : room.boxes[place]? = some box) :
    room.withBox place box = room := by
  obtain ⟨hlt, hitem⟩ := List.getElem?_eq_some_iff.mp hbox
  rw [withBox, ← hitem, List.set_getElem_self]

theorem getElem?_withBox (hplace : place < room.boxes.length) (box : Mailbox) :
    (room.withBox place box).boxes[place]? = some box := List.getElem?_set_self hplace

theorem onBox_withBox {α : Type} (hplace : place < room.boxes.length) (box : Mailbox) (missing : α)
    (act : StateM Mailbox α) :
    onBox place missing act (room.withBox place box) =
      ((act box).1, room.withBox place (act box).2) := by
  rw [onBox_of_getElem? (getElem?_withBox hplace box)]
  simp only [withBox, List.set_set]

theorem call_send (hplace : place < room.boxes.length) (hopen : box.closed = false)
    (payload : Bytes) :
    (link place).call (.send payload) (room.withBox place box) =
      (.returned none, room.withBox place (box.deliver payload)) := by
  have hact := onBox_withBox hplace box (.error (.misuse .position)) (Mailbox.send payload)
  rw [Mailbox.send_of_open hopen] at hact
  simp only [Link.call, link, Bind.bind, StateT.bind, hact]
  rfl

theorem call_receive (hplace : place < room.boxes.length) (box : Mailbox) (limit : Option Int) :
    (link place).call (.receive limit) (room.withBox place box) =
      ((Mailbox.receive limit box).1.map some,
        room.withBox place (Mailbox.receive limit box).2) := by
  have hact := onBox_withBox hplace box (.failed (.misuse .position)) (Mailbox.receive limit)
  simp only [Link.call, link, Bind.bind, StateT.bind, hact]
  rfl

end MailRoom

namespace Network

variable {net : Network} {handle : Nat} {stream : ByteStream}

theorem call_send (hhandle : handle < net.contacts.length) (hflush : stream.failingFlush = none)
    (host : String) (port engine : Int) (payload : Bytes) :
    (sockets.link engine handle).call (.send payload) (net.withStream handle host port stream) =
      (.returned none,
        net.withStream handle host port (stream.transmitted (Frame.encode payload))) := by
  have hsend := send_withStream hhandle hflush host port engine payload
  simp only [Link.call, Bind.bind, StateT.bind, hsend]
  rfl

theorem call_receive (hhandle : handle < net.contacts.length) (hreset : stream.reset = false)
    (host : String) (port engine : Int) (limit : Option Int) :
    (sockets.link engine handle).call (.receive limit) (net.withStream handle host port stream) =
      ((Frame.receipt engine limit stream.incoming).1.map some, net.withStream handle host port
        { stream with incoming := (Frame.receipt engine limit stream.incoming).2 }) := by
  have hreceive := receive_withStream hhandle hreset host port engine limit
  simp only [Link.call, Bind.bind, StateT.bind, hreceive]
  rfl

end Network

/-! ## Both ends of one connection -/

/-- A mailbox and a stream that take what is sent: what was written is the frames of what is in the
outbox, behind some first bytes. -/
structure Mailbox.WritesLike (first : Bytes) (box : Mailbox) (stream : ByteStream) : Prop where
  isOpen : box.closed = false
  reset : stream.reset = false
  failingFlush : stream.failingFlush = none
  written : stream.written = first ++ Frame.encodeAll box.outbox

/-- A mailbox and a stream that bring the same messages, and then tell that the engine is gone. -/
structure Mailbox.BringsLike (payloads : List Bytes) (box : Mailbox) (stream : ByteStream) :
    Prop where
  short : ∀ payload ∈ payloads, payload.length < Nat.pow 256 Frame.headerBytes
  inbox : box.inbox = payloads.map some ++ [none]
  incoming : stream.incoming = Frame.encodeAll payloads

namespace Mailbox

variable {first : Bytes} {box : Mailbox} {stream : ByteStream} {payloads : List Bytes}

theorem WritesLike.send (h : WritesLike first box stream) (payload : Bytes) :
    WritesLike first (box.deliver payload) (stream.transmitted (Frame.encode payload)) := by
  have hsingle : Frame.encodeAll [payload] = Frame.encode payload := List.append_nil _
  refine ⟨h.isOpen, h.reset, h.failingFlush, ?_⟩
  simp only [ByteStream.transmitted, deliver]
  rw [h.written, Frame.encodeAll_append, hsingle, List.append_assoc]

theorem exists_skip_of_receive (hopen : box.closed = false) (limit : Option Int) :
    ∃ count, (receive limit box).2 = box.skip count := by
  rw [receive_of_open hopen]
  split
  · exact ⟨0, rfl⟩
  · exact ⟨1, rfl⟩
  · split <;> exact ⟨1, rfl⟩

theorem WritesLike.receive (h : WritesLike first box stream) (count : Nat) (bytes : Bytes) :
    WritesLike first (box.skip count) { stream with incoming := bytes } :=
  ⟨h.isOpen, h.reset, h.failingFlush, h.written⟩

theorem BringsLike.transmitted (h : BringsLike payloads box stream) (bytes : Bytes) :
    BringsLike payloads box (stream.transmitted bytes) :=
  ⟨h.short, h.inbox, h.incoming⟩

theorem BringsLike.deliver (h : BringsLike payloads box stream) (payload : Bytes) :
    BringsLike payloads (box.deliver payload) stream :=
  ⟨h.short, h.inbox, h.incoming⟩

theorem BringsLike.next {payload : Bytes} (h : BringsLike (payload :: payloads) box stream) :
    BringsLike payloads (box.skip 1) { stream with incoming := Frame.encodeAll payloads } := by
  refine ⟨fun other hother => h.short other (List.mem_cons_of_mem payload hother), ?_, rfl⟩
  rw [skip, h.inbox]
  rfl

end Mailbox

/-! ## Runs of calls -/

namespace Network

open Mailbox Link

variable {room : MailRoom} {place : Nat} {box : Mailbox} {net : Network} {handle : Nat}
  {stream : ByteStream} {first : Bytes} {payloads : List Bytes}

/-- After any calls, whatever became of them, the messages sent are in the outbox and their frames
were written. -/
theorem callAll_writesLike (hplace : place < room.boxes.length)
    (hhandle : handle < net.contacts.length) (host : String) (port engine : Int)
    (h : WritesLike first box stream) (calls : List Call) :
    ∃ box' stream',
      ((MailRoom.link place).callAll calls (room.withBox place box)).2 =
        room.withBox place box' ∧
      ((sockets.link engine handle).callAll calls (net.withStream handle host port stream)).2 =
        net.withStream handle host port stream' ∧
      WritesLike first box' stream' ∧
      box'.outbox = box.outbox ++ calls.filterMap Call.payload? := by
  induction calls generalizing box stream with
  | nil => exact ⟨box, stream, rfl, rfl, h, (List.append_nil _).symm⟩
  | cons call rest ih =>
    rw [callAll_cons, callAll_cons]
    cases call with
    | send payload =>
      rw [MailRoom.call_send hplace h.isOpen, call_send hhandle h.failingFlush]
      obtain ⟨box', stream', hbox', hstream', hwrites, houtbox⟩ := ih (h.send payload)
      refine ⟨box', stream', hbox', hstream', hwrites, ?_⟩
      rw [houtbox, deliver, List.append_assoc]
      rfl
    | receive limit =>
      obtain ⟨count, hskip⟩ := exists_skip_of_receive h.isOpen limit
      rw [MailRoom.call_receive hplace, call_receive hhandle h.reset, hskip]
      exact ih (h.receive count _)

/-- Links over a mailbox and a stream that bring the same messages answer alike. -/
theorem callAll_agreeUntilFault (hplace : place < room.boxes.length)
    (hhandle : handle < net.contacts.length) (host : String) (port engine : Int)
    (hwrites : WritesLike first box stream) (hbrings : BringsLike payloads box stream)
    (calls : List Call) :
    Ending.AgreeUntilFault
      ((MailRoom.link place).callAll calls (room.withBox place box)).1
      ((sockets.link engine handle).callAll calls (net.withStream handle host port stream)).1 := by
  induction calls generalizing box stream payloads with
  | nil => exact .nil
  | cons call rest ih =>
    rw [callAll_cons, callAll_cons]
    cases call with
    | send payload =>
      rw [MailRoom.call_send hplace hwrites.isOpen, call_send hhandle hwrites.failingFlush]
      exact .returned none (ih (hwrites.send payload) ((hbrings.deliver payload).transmitted _))
    | receive limit =>
      rw [MailRoom.call_receive hplace, call_receive hhandle hwrites.reset,
        receive_of_open hwrites.isOpen, hbrings.inbox, hbrings.incoming]
      cases payloads with
      | nil =>
        rw [Frame.receipt_of_lt (by decide)]
        exact .failed rfl rfl _ _
      | cons payload payloads =>
        have hframe : Frame.encodeAll (payload :: payloads) =
            Frame.encode payload ++ Frame.encodeAll payloads := rfl
        have hshort := hbrings.short payload List.mem_cons_self
        simp only [List.map_cons, List.cons_append]
        by_cases hadmits : Frame.Admits limit payload.length
        · rw [Frame.checkLength_of_admits hadmits, hframe, Frame.receipt_of_admits hshort hadmits]
          exact .returned (some payload) (ih (hwrites.receive 1 _) hbrings.next)
        · obtain ⟨bound, hcheck⟩ := Frame.checkLength_of_not_admits hadmits box.engine
          obtain ⟨bound', hcheck'⟩ := Frame.checkLength_of_not_admits hadmits engine
          rw [hcheck, hframe, Frame.receipt_encode hshort, hcheck']
          exact .failed rfl rfl _ _

/-- Whether a mailbox stands for the stream of the next connection under some calls: the connection
is opened, the answers agree up to the first fault, and in the end the stream was written the
announcement and the frames of the messages in the outbox, which are those sent, in order. -/
def IsDoubledBy (net : Network) (host : String) (port clientId engine : Int) (room : MailRoom)
    (place : Nat) (calls : List Call) : Prop :=
  ∃ announced link connected box stream,
    Frame.announcement clientId = .ok announced ∧
    sockets.openLink host port clientId engine net = (.ok link, connected) ∧
    Ending.AgreeUntilFault ((MailRoom.link place).callAll calls room).1
      (link.callAll calls connected).1 ∧
    ((MailRoom.link place).callAll calls room).2.boxes[place]? = some box ∧
    (link.callAll calls connected).2.contacts[net.contacts.length]? =
      some ⟨host, port, .accepted stream⟩ ∧
    box.outbox = calls.filterMap Call.payload? ∧
    stream.written = announced ++ Frame.encodeAll box.outbox

theorem stream_isDoubledBy_mailbox {clientId : Int} (hlow : -2147483648 ≤ clientId)
    (hhigh : clientId ≤ 2147483647) {rest : List Attempt}
    (hscript : net.script = .accepted stream :: rest) (hbox : room.boxes[place]? = some box)
    (hwrites : WritesLike [] box stream) (houtbox : box.outbox = [])
    (hbrings : BringsLike payloads box stream) (host : String) (port engine : Int)
    (calls : List Call) :
    net.IsDoubledBy host port clientId engine room place calls := by
  obtain ⟨announced, hannounce⟩ := Frame.announcement_of_le hlow hhigh
  have hlink := openLink_of_accepted hscript hwrites.failingFlush hannounce host port engine
  have hplace : place < room.boxes.length := (List.getElem?_eq_some_iff.mp hbox).1
  -- The opened connection and the room, each with the end of the connection in its place.
  let connected : Network := { net with
    script := rest,
    contacts := net.contacts ++ [⟨host, port, .accepted (stream.transmitted announced)⟩] }
  have hhandle : net.contacts.length < connected.contacts.length := by simp [connected]
  have hconnected : connected.withStream net.contacts.length host port
      (stream.transmitted announced) = connected :=
    withStream_of_contact List.getElem?_concat_length
  have hroom : room.withBox place box = room := MailRoom.withBox_of_getElem? hbox
  have hwritten : stream.written = [] := by
    rw [hwrites.written, houtbox]
    rfl
  have hannounced : WritesLike announced box (stream.transmitted announced) := by
    refine ⟨hwrites.isOpen, hwrites.reset, hwrites.failingFlush, ?_⟩
    simp [ByteStream.transmitted, hwritten, houtbox, Frame.encodeAll]
  have hagree := callAll_agreeUntilFault hplace hhandle host port engine hannounced
    (hbrings.transmitted announced) calls
  obtain ⟨box', stream', hleft, hleft', hend, hsent⟩ :=
    callAll_writesLike hplace hhandle host port engine hannounced calls
  rw [hroom, hconnected] at hagree
  rw [hroom] at hleft
  rw [hconnected] at hleft'
  refine ⟨announced, _, connected, box', stream', hannounce, hlink, hagree, ?_, ?_, ?_,
    hend.written⟩
  · rw [hleft]
    exact MailRoom.getElem?_withBox hplace box'
  · rw [hleft']
    exact contact_withStream hhandle host port stream'
  · rw [hsent, houtbox, List.nil_append]

/-- Two messages come in, with two going out between them. The call after them fails. -/
theorem stream_isDoubledBy_mailbox_two_messages :
    IsDoubledBy
        ⟨[.accepted ⟨Frame.encodeAll [[1, 2, 3], [4]], false, none, .quiet, 0, [], 0⟩], [], []⟩
        "localhost" 20000 (-2) 0 ⟨[⟨0, [some [1, 2, 3], some [4], none], [], false⟩], []⟩ 0
        [.send [9], .receive (some 3), .send [], .receive none, .receive none] ∧
      ((MailRoom.link 0).callAll
          [.send [9], .receive (some 3), .send [], .receive none, .receive none]
          ⟨[⟨0, [some [1, 2, 3], some [4], none], [], false⟩], []⟩).1 =
        [.returned none, .returned (some [1, 2, 3]), .returned none, .returned (some [4]),
          .failed (.transport (.dropped 0))] := by
  constructor
  · have hwrites : WritesLike [] ⟨0, [some [1, 2, 3], some [4], none], [], false⟩
        ⟨Frame.encodeAll [[1, 2, 3], [4]], false, none, .quiet, 0, [], 0⟩ := ⟨rfl, rfl, rfl, rfl⟩
    have hbrings : BringsLike [[1, 2, 3], [4]] ⟨0, [some [1, 2, 3], some [4], none], [], false⟩
        ⟨Frame.encodeAll [[1, 2, 3], [4]], false, none, .quiet, 0, [], 0⟩ := ⟨by decide, rfl, rfl⟩
    exact stream_isDoubledBy_mailbox (by decide) (by decide) rfl rfl hwrites rfl hbrings
      "localhost" 20000 0 _
  · cbv

end Network
end TreeParty
