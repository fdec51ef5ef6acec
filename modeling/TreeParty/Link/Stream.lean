import TreeParty.Link.Basic
import TreeParty.Frame
/-!
# Byte streams

A byte stream is reached by host and port, carries framed messages, and is closed in two steps: hung
up, then waited for. `Sockets` is what a system offers for that; `Sockets.link` makes a link of it.
-/

namespace TreeParty

/-- What becomes of an attempt to connect. A connection is known by a number. -/
inductive Dialled where
  | connected (handle : Nat)
  | refused (cause : String)
  /-- The address is none that could be tried. -/
  | raised (cause : Misuse)
  | interrupted

inductive Intake where
  | bytes (content : Bytes)
  /-- The stream ended before. -/
  | ended
  | broken (cause : String)

/-- What becomes of waiting for a connection to be closed. -/
inductive Settled where
  | quiet
  /-- The system reports an error. -/
  | complained (cause : String)
  /-- Something else went wrong. -/
  | broke
  deriving DecidableEq

structure Sockets (m : Type → Type) where
  dial : String → Int → m Dialled
  /-- Writes and flushes; a cause tells that flushing failed. -/
  transmit : Nat → Bytes → m (Option String)
  take : Nat → Nat → m Intake
  hangUp : Nat → m Unit
  settle : Nat → m Settled
  note : Notice → m Unit

namespace Sockets

variable {α : Type} {m : Type → Type} [Monad m]

def read (net : Sockets m) (engine : Int) (handle : Nat) : Reading α → m (Ending α)
  | .done a => pure (.returned a)
  | .fail fault => pure (.failed fault)
  | .take count next => do
    match ← net.take handle count with
    | .bytes content => net.read engine handle (next content)
    | .ended => pure (.failed (.transport (.midMessage engine)))
    | .broken cause => pure (.failed (.transport (.receive engine cause)))

def link (net : Sockets m) (engine : Int) (handle : Nat) : Link m where
  engine := engine
  send payload := do
    match ← net.transmit handle (Frame.encode payload) with
    | none => pure (.ok ())
    | some cause => pure (.error (.transport (.send engine cause)))
  receive limit := net.read engine handle (Frame.reading engine limit)
  close := do
    net.hangUp handle
    match ← net.settle handle with
    | .quiet => pure (.ok ())
    | .complained cause => do
      net.note (.closing engine cause)
      pure (.ok ())
    | .broke => pure (.error (.misuse .brokenClose))

/-! ## Connecting -/

def reach (net : Sockets m) (host : String) (port clientId engine : Int) :
    m (Except Fault Nat) := do
  match ← net.dial host port with
  | .refused cause => pure (.error (.transport (.connect engine host (toString port) cause)))
  | .raised cause => pure (.error (.misuse cause))
  | .interrupted => pure (.error .interrupted)
  | .connected handle =>
    match Frame.announcement clientId with
    | .error fault => pure (.error fault)
    | .ok bytes =>
      match ← net.transmit handle bytes with
      | none => pure (.ok handle)
      | some cause => do
        net.hangUp handle
        pure (.error (.transport (.announce engine host (toString port) cause)))

def openLink (net : Sockets m) (host : String) (port clientId engine : Int) :
    m (Except Fault (Link m)) := do
  return (← net.reach host port clientId engine).map (net.link engine)

/-- Connects to the engines from a number on, at consecutive ports. When a connection fails, those
opened before are closed. -/
def openLinks (net : Sockets m) (basePort : Except Fault Int) (clientId : Int) :
    List String → Nat → List (Link m) → m (Except Fault (List (Link m)))
  | [], _, opened => pure (.ok opened)
  | host :: rest, engine, opened =>
    match basePort with
    | .error fault => pure (.error fault)
    | .ok base => do
      match ← net.openLink host (base + engine) clientId engine with
      | .ok link => net.openLinks basePort clientId rest (engine + 1) (opened ++ [link])
      | .error (.transport fault) => do
        match ← Link.closeEach opened with
        | .ok () => pure (.error (.transport fault))
        | .error other => pure (.error other)
      | .error fault => pure (.error fault)

/-- One link for each engine, engine `i` at port `basePort + i` of host `i`. -/
def connect (net : Sockets m) (hosts : List String) (basePort : Except Fault Int)
    (clientId : Int) (engineCount : Option Int) : m (Except Fault (List (Link m))) :=
  let wanted := engineCount.getD hosts.length
  if wanted < 1 then pure (.error (.configuration .engineCount))
  else if (hosts.length : Int) < wanted then
    pure (.error (.configuration (.fewHosts wanted hosts.length)))
  else net.openLinks basePort clientId (hosts.take wanted.toNat) 0 []

end Sockets
end TreeParty
