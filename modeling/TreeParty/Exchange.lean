import TreeParty.Bytes
import TreeParty.Notice
/-!
# Exchanges with the engines

An `Exchange` is what the client does next, given what the engines sent so far: send a message,
wait for one, give a notice, record progress, or end. It says nothing of how messages travel.
`Exchange.run` carries it out over a `Carrier`, in whatever monad the carrier lives.
-/

namespace TreeParty

structure Progress where
  inputsSent : Nat
  featureSplits : List (List Binary64)

/-- How an exchange ends: with a value, with a fault, or waiting for a message that is not there. -/
inductive Ending (α : Type) where
  | returned (a : α)
  | failed (fault : Fault)
  | waiting
  deriving DecidableEq

namespace Ending

variable {α : Type}

def ofResult : Except Fault α → Ending α
  | .ok a => returned a
  | .error f => failed f

end Ending

inductive Exchange (α : Type) where
  | done (a : α)
  | fail (fault : Fault)
  | send (engine : Nat) (payload : Bytes) (next : Exchange α)
  /-- Waits for the next message of an engine, of at most `limit` bytes. -/
  | receive (engine : Nat) (limit : Option Int) (next : Bytes → Exchange α)
  | note (notice : Notice) (next : Exchange α)
  | advance (change : Progress → Progress) (next : Exchange α)

namespace Exchange

variable {α β γ : Type}

def bind : Exchange α → (α → Exchange β) → Exchange β
  | done a, f => f a
  | fail fault, _ => fail fault
  | send engine payload next, f => send engine payload (next.bind f)
  | receive engine limit next, f => receive engine limit fun bytes => (next bytes).bind f
  | note notice next, f => note notice (next.bind f)
  | advance change next, f => advance change (next.bind f)

instance : Monad Exchange where
  pure := done
  bind := bind

theorem bind_done (x : Exchange α) : x.bind done = x := by
  induction x with
  | done a => rfl
  | fail fault => rfl
  | send engine payload next ih => simp only [bind, ih]
  | receive engine limit next ih => simp only [bind, ih]
  | note notice next ih => simp only [bind, ih]
  | advance change next ih => simp only [bind, ih]

theorem bind_assoc (x : Exchange α) (f : α → Exchange β) (g : β → Exchange γ) :
    (x.bind f).bind g = x.bind fun a => (f a).bind g := by
  induction x with
  | done a => rfl
  | fail fault => rfl
  | send engine payload next ih => simp only [bind, ih]
  | receive engine limit next ih => simp only [bind, ih]
  | note notice next ih => simp only [bind, ih]
  | advance change next ih => simp only [bind, ih]

instance : LawfulMonad Exchange := LawfulMonad.mk'
  Exchange bind_done (fun _ _ => rfl) bind_assoc

/-! ## Building blocks -/

def ofResult : Except Fault α → Exchange α
  | .ok a => done a
  | .error f => fail f

instance : MonadLift (Except Fault) Exchange := ⟨ofResult⟩

def ofReport (r : Report α) : Exchange α := r.notices.foldr note (ofResult r.result)

instance : MonadLift Report Exchange := ⟨ofReport⟩

def sendAll (engines : Nat) (payload : Bytes) : Exchange Unit :=
  (List.range engines).foldr (fun engine next => send engine payload next) (done ())

def await (engine : Nat) (limit : Option Int) : Exchange Bytes := receive engine limit done

end Exchange

/-! ## Running -/

structure Carrier (m : Type → Type) where
  send : Nat → Bytes → m (Except Fault Unit)
  receive : Nat → Option Int → m (Ending Bytes)
  note : Notice → m Unit

namespace Exchange

variable {α : Type} {m : Type → Type} [Monad m]

/-- Carries out an exchange. The progress made before a fault is kept. -/
def run (carrier : Carrier m) : Exchange α → Progress → m (Ending α × Progress)
  | done a, progress => pure (.returned a, progress)
  | fail fault, progress => pure (.failed fault, progress)
  | send engine payload next, progress => do
    match ← carrier.send engine payload with
    | .ok () => next.run carrier progress
    | .error fault => pure (.failed fault, progress)
  | receive engine limit next, progress => do
    match ← carrier.receive engine limit with
    | .returned bytes => (next bytes).run carrier progress
    | .failed fault => pure (.failed fault, progress)
    | .waiting => pure (.waiting, progress)
  | note notice next, progress => do
    carrier.note notice
    next.run carrier progress
  | advance change next, progress => next.run carrier (change progress)

end Exchange
end TreeParty
