import TreeParty.Link.Basic
import TreeParty.Frame
/-!
# Mailboxes

A mailbox stands for an engine without a network: messages wait in an inbox, and what is sent is
kept in an outbox. An inbox item without a message tells that the engine dropped the connection.
-/

namespace TreeParty

structure Mailbox where
  engine : Int
  inbox : List (Option Bytes)
  outbox : List Bytes
  closed : Bool

namespace Mailbox

def empty (engine : Int) : Mailbox := ⟨engine, [], [], false⟩

def push (items : List (Option Bytes)) (box : Mailbox) : Mailbox :=
  { box with inbox := box.inbox ++ items }

def send (payload : Bytes) : StateM Mailbox (Except Fault Unit) := fun box =>
  if box.closed then (.error (.transport (.closed box.engine)), box)
  else (.ok (), { box with outbox := box.outbox ++ [payload] })

/-- Takes the first item of the inbox. It is taken before its length is checked. -/
def receive (limit : Option Int) : StateM Mailbox (Ending Bytes) := fun box =>
  if box.closed then (.failed (.transport (.closed box.engine)), box)
  else
    match box.inbox with
    | [] => (.waiting, box)
    | none :: rest => (.failed (.transport (.dropped box.engine)), { box with inbox := rest })
    | some payload :: rest =>
      match Frame.checkLength box.engine payload.length limit with
      | .ok () => (.returned payload, { box with inbox := rest })
      | .error fault => (.failed fault, { box with inbox := rest })

def close : StateM Mailbox (Except Fault Unit) := fun box => (.ok (), { box with closed := true })

end Mailbox

structure MailRoom where
  boxes : List Mailbox
  notices : List Notice

namespace MailRoom

/-- A room with empty mailboxes for a number of engines, at least one. -/
def open? (engines : Int) : Except Fault MailRoom :=
  if engines < 1 then .error (.configuration .noLinks)
  else .ok ⟨(List.range engines.toNat).map fun (i : Nat) => Mailbox.empty i, []⟩

def onBox {α : Type} (place : Nat) (missing : α) (act : StateM Mailbox α) : StateM MailRoom α :=
  fun room =>
    match room.boxes[place]? with
    | none => (missing, room)
    | some box =>
      let (result, box') := act box
      (result, { room with boxes := room.boxes.set place box' })

def note (notice : Notice) : StateM MailRoom Unit := fun room =>
  ((), { room with notices := room.notices ++ [notice] })

def link (place : Nat) : Link (StateM MailRoom) where
  engine := place
  send payload := onBox place (.error (.misuse .position)) (Mailbox.send payload)
  receive limit := onBox place (.failed (.misuse .position)) (Mailbox.receive limit)
  close := onBox place (.error (.misuse .position)) Mailbox.close

def links (engines : Nat) : List (Link (StateM MailRoom)) := (List.range engines).map link

def run {α : Type} (x : Exchange α) (progress : Progress) (room : MailRoom) :
    (Ending α × Progress) × MailRoom :=
  x.run (Link.carrier (links room.boxes.length) note) progress room

end MailRoom
end TreeParty
