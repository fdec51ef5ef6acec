import TreeParty.Link.Stream
/-!
# A scripted network

A `Network` plays the part of the engines' side of byte streams: what each attempt to connect meets,
which bytes each stream brings and how it ends, and which operation fails. It keeps what was written
and how often a stream was hung up.
-/

namespace TreeParty

structure ByteStream where
  incoming : Bytes
  /-- Whether reading fails at once, whatever is left to read. -/
  reset : Bool
  /-- The number of the flush that fails, counted from one. -/
  failingFlush : Option Nat
  settling : Settled
  flushes : Nat := 0
  written : Bytes := []
  hangUps : Nat := 0

namespace ByteStream

/-- Keeps what is written, whether or not the flush fails. -/
def transmit (bytes : Bytes) : StateM ByteStream (Option String) := fun s =>
  let s := { s with written := s.written ++ bytes, flushes := s.flushes + 1 }
  (if s.failingFlush = some s.flushes then some "flush failed" else none, s)

/-- Takes a number of bytes. If there are fewer, they are used up all the same. -/
def take (count : Nat) : StateM ByteStream Intake := fun s =>
  if s.reset then (.broken "connection reset", s)
  else if s.incoming.length < count then (.ended, { s with incoming := [] })
  else
    (.bytes (s.incoming.take count), { s with incoming := s.incoming.drop count })

def hangUp : StateM ByteStream Unit := fun s => ((), { s with hangUps := s.hangUps + 1 })

end ByteStream

inductive Attempt where
  | accepted (stream : ByteStream)
  | refused
  | interrupted

structure Contact where
  host : String
  port : Int
  attempt : Attempt

structure Network where
  /-- What the coming attempts meet; when the script is at its end, they are refused. -/
  script : List Attempt
  contacts : List Contact := []
  notices : List Notice := []

namespace Network

def dial (host : String) (port : Int) : StateM Network Dialled := fun net =>
  let attempt := net.script.headD .refused
  let net' := { net with
    script := net.script.tail,
    contacts := net.contacts ++ [⟨host, port, attempt⟩] }
  match attempt with
  | .accepted _ => (.connected net.contacts.length, net')
  | .refused => (.refused "connection refused", net')
  | .interrupted => (.interrupted, net')

def onStream {α : Type} (handle : Nat) (missing : α) (act : StateM ByteStream α) :
    StateM Network α := fun net =>
  match net.contacts[handle]? with
  | some ⟨host, port, .accepted stream⟩ =>
    let (result, stream') := act stream
    (result, { net with contacts := net.contacts.set handle ⟨host, port, .accepted stream'⟩ })
  | _ => (missing, net)

def note (notice : Notice) : StateM Network Unit := fun net =>
  ((), { net with notices := net.notices ++ [notice] })

def sockets : Sockets (StateM Network) where
  dial := dial
  transmit handle bytes := onStream handle (some "not connected") (ByteStream.transmit bytes)
  take handle count := onStream handle (.broken "not connected") (ByteStream.take count)
  hangUp handle := onStream handle () ByteStream.hangUp
  settle handle := onStream handle .quiet fun s => (s.settling, s)
  note := note

end Network
end TreeParty
