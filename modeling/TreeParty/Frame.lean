import TreeParty.Bytes
import TreeParty.Fault
/-!
# Frames

On a byte stream the client first announces its number in four bytes. Every later message is framed:
eight bytes of length, least significant first, then the message. `Reading` is how a frame is read
back, as the numbers of bytes to take one after the other.
-/

namespace TreeParty
namespace Frame

def headerBytes : Nat := 8

def encode (payload : Bytes) : Bytes := Bytes.ofNat headerBytes payload.length ++ payload

def announcement (clientId : Int) : Except Fault Bytes :=
  if -2147483648 ≤ clientId ∧ clientId ≤ 2147483647 then
    .ok (Bytes.ofNat 4 (clientId % 4294967296).toNat)
  else .error (.misuse .announcementRange)

def checkLength (engine : Int) (length : Nat) (limit : Option Int) : Except Fault Unit :=
  match limit with
  | none => .ok ()
  | some limit =>
    if limit < length then .error (.wire (.oversized engine length limit)) else .ok ()

end Frame

/-- A plan to read from a byte stream: how many bytes to take next, or the end. -/
inductive Reading (α : Type) where
  | done (a : α)
  | fail (fault : Fault)
  | take (count : Nat) (next : Bytes → Reading α)

namespace Frame

/-- How the next message is read: its length first, and the message only if it is not too long. -/
def reading (engine : Int) (limit : Option Int) : Reading Bytes :=
  .take headerBytes fun header =>
    let length := Bytes.toNat header
    match checkLength engine length limit with
    | .error fault => .fail fault
    | .ok () => .take length .done

end Frame
end TreeParty
