import TreeParty.Exchange
/-!
# Links

A link joins the client to one engine: it sends a message, receives the next one and can be closed.
A kind of link says how. Links are kept in the order of their engines; together they carry an
exchange.
-/

namespace TreeParty

structure Link (m : Type → Type) where
  engine : Int
  send : Bytes → m (Except Fault Unit)
  /-- The next message; one longer than the limit is refused. -/
  receive : Option Int → m (Ending Bytes)
  close : m (Except Fault Unit)

namespace Link

variable {m : Type → Type} [Monad m]

/-- A link of no particular kind, which can do nothing. -/
def bare (engine : Int) : Link m where
  engine := engine
  send _ := pure (.error (.misuse .unsupported))
  receive _ := pure (.failed (.misuse .unsupported))
  close := pure (.error (.misuse .unsupported))

def carrier (links : List (Link m)) (note : Notice → m Unit) : Carrier m where
  send engine payload :=
    match links[engine]? with
    | some link => link.send payload
    | none => pure (.error (.misuse .position))
  receive engine limit :=
    match links[engine]? with
    | some link => link.receive limit
    | none => pure (.failed (.misuse .position))
  note := note

/-- Closes links in order up to the first that fails to. -/
def closeEach : List (Link m) → m (Except Fault Unit)
  | [] => pure (.ok ())
  | link :: rest => do
    match ← link.close with
    | .ok () => closeEach rest
    | .error fault => pure (.error fault)

/-- Closes all links; one that fails to is noticed and does not keep the others open. -/
def closeAll (note : Notice → m Unit) : List (Link m) → m Unit
  | [] => pure ()
  | link :: rest => do
    match ← link.close with
    | .ok () => closeAll note rest
    | .error fault => do
      note (.linkClosing link.engine fault.message)
      closeAll note rest

end Link
end TreeParty
