import Std.Async.DNS
import Std.Async.TCP
import TreeParty.Run
/-!
# The program

Runs the client named by the command line over real files and connections. Log lines and usage go to
the error stream.
-/

namespace TreeParty

open Std.Async
open Std.Net

structure OpenSocket where
  client : TCP.Socket.Client
  pending : ByteArray

/-- The connections of the program by number; a closed one leaves its place empty. -/
abbrev SocketTable := IO.Ref (Array (Option OpenSocket))

namespace SocketTable

def chunkSize : Nat := 65536

/-- The machine that the lines of the program are written on. No notice has nested fields. -/
def logMachine : Machine := .ofRoom 1000 fun _ => 0

def writeLine (notice : Notice) : IO Unit := do
  let line := notice.line logMachine
  IO.eprintln (line.level.name ++ " " ++ line.text)

def socketAddress (address : IPAddr) (port : UInt16) : SocketAddress :=
  match address with
  | .v4 addr => .v4 ⟨addr, port⟩
  | .v6 addr => .v6 ⟨addr, port⟩

/-- Whether a host can be looked up: its parts between the dots have 1 to 63 characters; behind a
dot at the end there is none. -/
def isHostName (host : String) : Bool :=
  let parts := host.splitOn "."
  parts.all (·.length < 64) && parts.dropLast.all (0 < ·.length)

def dial (table : SocketTable) (host : String) (port : Int) : IO Dialled := do
  if !isHostName host then return .raised .hostName
  if port < 0 || 65535 < port then return .raised .portRange
  try
    let addresses ← (DNS.getAddrInfo host (toString port)).block
    match addresses[0]? with
    | none => return .refused "no address for the host"
    | some address =>
      let client ← TCP.Socket.Client.mk
      (client.connect (socketAddress address (UInt16.ofNat port.toNat))).block
      let handle := (← table.get).size
      table.modify (·.push (some ⟨client, ByteArray.empty⟩))
      return .connected handle
  catch e => return .refused (toString e)

def find (table : SocketTable) (handle : Nat) : IO OpenSocket := do
  match (← table.get)[handle]? with
  | some (some socket) => return socket
  | _ => throw (IO.userError "not connected")

def transmit (table : SocketTable) (handle : Nat) (bytes : Bytes) : IO (Option String) := do
  try
    let socket ← table.find handle
    (socket.client.send ⟨bytes.toArray⟩).block
    return none
  catch e => return some (toString e)

/-- Receives until a number of bytes is there, at most one chunk for each step of `fuel`. -/
def fill (client : TCP.Socket.Client) (count : Nat) : Nat → ByteArray → IO ByteArray
  | 0, held => return held
  | fuel + 1, held => do
    if count ≤ held.size then return held
    match ← (client.recv? (UInt64.ofNat (min chunkSize (count - held.size)))).block with
    | some more => fill client count fuel (held ++ more)
    | none => return held

def take (table : SocketTable) (handle count : Nat) : IO Intake := do
  try
    let socket ← table.find handle
    let held ← fill socket.client count count socket.pending
    let rest := if count ≤ held.size then held.extract count held.size else ByteArray.empty
    table.modify (·.set! handle (some { socket with pending := rest }))
    if count ≤ held.size then return .bytes (held.extract 0 count).toList else return .ended
  catch e => return .broken (toString e)

def hangUp (table : SocketTable) (handle : Nat) : IO Unit := do
  try
    let socket ← table.find handle
    socket.client.shutdown.block
  catch _ => return ()

def settle (table : SocketTable) (handle : Nat) : IO Settled := do
  table.modify (·.set! handle none)
  return .quiet

def sockets (table : SocketTable) : Sockets IO where
  dial := table.dial
  transmit := table.transmit
  take := table.take
  hangUp := table.hangUp
  settle := table.settle
  note := writeLine

end SocketTable

def lookUp (path : String) : IO FileEntry := do
  if path.contains '\x00' then return .unnameable
  try
    return .file (← IO.FS.readBinFile path).toList
  catch _ => return .missing

def usage : String :=
  "usage: <client_id> <engine_count> [dataset_name] [port_base]\n"
    ++ "  [--hosts NAMES] [--data-dir DIR] [--params-file FILE] [--prep-dir DIR]\n"
    ++ "  [--config FILE] [--authenticated-result]\n"

def run (arguments : List String) : IO UInt32 := do
  let table : SocketTable ← IO.mkRef #[]
  let outcome ← Run.execute lookUp table.sockets (.ofArguments arguments) .default
  match outcome with
  | .helped => IO.print usage
  | .misused => IO.eprint usage
  | _ => IO.print outcome.farewell
  match outcome with
  | .failed fault => if outcome.status.isNone then throw (IO.userError fault.message)
  | _ => pure ()
  return UInt32.ofNat (outcome.status.getD 1)

end TreeParty

def main (arguments : List String) : IO UInt32 := TreeParty.run arguments
