import TreeParty.Link.Stream
import TreeParty.Proofs.Exchange.Run
/-!
# Calls to a system

A system that offers byte streams may do anything: which attempt meets what, what a stream brings
and which operation fails is up to it. `Sockets.recorded` keeps account of whom the client dialled
and which connections it hung up; `Logs` says of a computation what it added to such a record.
-/

set_option autoImplicit false

namespace TreeParty

variable {α β σ : Type}

/-! ## Calls -/

inductive SystemCall where
  | dialled (host : String) (port : Int) (outcome : Dialled)
  | hungUp (handle : Nat)
  | settled (handle : Nat) (outcome : Settled)

namespace SystemCall

def address? : SystemCall → Option (String × Int)
  | dialled host port _ => some (host, port)
  | _ => none

def connected? : SystemCall → Option Nat
  | dialled _ _ (.connected handle) => some handle
  | _ => none

def hungUp? : SystemCall → Option Nat
  | hungUp handle => some handle
  | _ => none

/-- Whether a call met nothing worse than an error that the system reports. -/
def isOrderly : SystemCall → Bool
  | dialled _ _ (.raised _) => false
  | dialled _ _ .interrupted => false
  | settled _ .broke => false
  | _ => true

def addresses (calls : List SystemCall) : List (String × Int) := calls.filterMap address?

def connections (calls : List SystemCall) : List Nat := calls.filterMap connected?

def hangUps (calls : List SystemCall) : List Nat := calls.filterMap hungUp?

def AreOrderly (calls : List SystemCall) : Prop := ∀ call ∈ calls, call.isOrderly = true

theorem addresses_append (calls more : List SystemCall) :
    addresses (calls ++ more) = addresses calls ++ addresses more := List.filterMap_append

theorem connections_append (calls more : List SystemCall) :
    connections (calls ++ more) = connections calls ++ connections more := List.filterMap_append

theorem hangUps_append (calls more : List SystemCall) :
    hangUps (calls ++ more) = hangUps calls ++ hangUps more := List.filterMap_append

theorem areOrderly_append {calls more : List SystemCall} :
    AreOrderly (calls ++ more) ↔ AreOrderly calls ∧ AreOrderly more := List.forall_mem_append

/-- What calls come to: whom they dialled, and which connections they made and hung up. -/
structure Tally (calls : List SystemCall) (dialled : List (String × Int)) (made gone : List Nat) :
    Prop where
  addresses : addresses calls = dialled
  connections : connections calls = made
  hangUps : hangUps calls = gone

theorem Tally.nil : Tally [] [] [] [] := ⟨rfl, rfl, rfl⟩

theorem Tally.append {calls more : List SystemCall} {dialled dialled' : List (String × Int)}
    {made made' gone gone' : List Nat} (h : Tally calls dialled made gone)
    (hmore : Tally more dialled' made' gone') :
    Tally (calls ++ more) (dialled ++ dialled') (made ++ made') (gone ++ gone') :=
  ⟨by rw [SystemCall.addresses_append, h.addresses, hmore.addresses],
    by rw [SystemCall.connections_append, h.connections, hmore.connections],
    by rw [SystemCall.hangUps_append, h.hangUps, hmore.hangUps]⟩

end SystemCall

/-! ## Records -/

def Sockets.recorded (net : Sockets (StateM σ)) : Sockets (StateM (σ × List SystemCall)) where
  dial host port := fun seen =>
    ((net.dial host port seen.1).1, (net.dial host port seen.1).2,
      seen.2 ++ [.dialled host port (net.dial host port seen.1).1])
  transmit handle bytes := fun seen =>
    ((net.transmit handle bytes seen.1).1, (net.transmit handle bytes seen.1).2, seen.2)
  take handle count := fun seen =>
    ((net.take handle count seen.1).1, (net.take handle count seen.1).2, seen.2)
  hangUp handle := fun seen => ((), (net.hangUp handle seen.1).2, seen.2 ++ [.hungUp handle])
  settle handle := fun seen =>
    ((net.settle handle seen.1).1, (net.settle handle seen.1).2,
      seen.2 ++ [.settled handle (net.settle handle seen.1).1])
  note notice := fun seen => ((), (net.note notice seen.1).2, seen.2)

/-- Whether a computation adds calls to the record that fit its result. -/
def Logs (x : StateM (σ × List SystemCall) α) (post : α → List SystemCall → Prop) : Prop :=
  ∀ seen, ∃ calls, (x seen).2.2 = seen.2 ++ calls ∧ post (x seen).1 calls

namespace Logs

theorem pure {a : α} {post : α → List SystemCall → Prop} (h : post a []) :
    Logs (pure a : StateM (σ × List SystemCall) α) post :=
  fun _ => ⟨[], (List.append_nil _).symm, h⟩

theorem mono {x : StateM (σ × List SystemCall) α} {post post' : α → List SystemCall → Prop}
    (hx : Logs x post) (himp : ∀ a calls, post a calls → post' a calls) : Logs x post' := by
  intro seen
  obtain ⟨calls, hcalls, hpost⟩ := hx seen
  exact ⟨calls, hcalls, himp _ _ hpost⟩

theorem bind {x : StateM (σ × List SystemCall) α} {f : α → StateM (σ × List SystemCall) β}
    {post : α → List SystemCall → Prop} {post' : β → List SystemCall → Prop} (hx : Logs x post)
    (hf : ∀ a calls, post a calls → Logs (f a) fun b more => post' b (calls ++ more)) :
    Logs (x >>= f) post' := by
  intro seen
  obtain ⟨calls, hcalls, hpost⟩ := hx seen
  obtain ⟨more, hmore, hpost'⟩ := hf (x seen).1 calls hpost (x seen).2
  refine ⟨calls ++ more, ?_, hpost'⟩
  rw [← List.append_assoc, ← hcalls]
  exact hmore

end Logs

namespace Sockets

open SystemCall

variable (net : Sockets (StateM σ))

/-! ## One call -/

theorem logs_dial (host : String) (port : Int) :
    Logs (net.recorded.dial host port) fun outcome calls =>
      calls = [.dialled host port outcome] := fun _ => ⟨_, rfl, rfl⟩

theorem logs_transmit (handle : Nat) (bytes : Bytes) :
    Logs (net.recorded.transmit handle bytes) fun _ calls => calls = [] :=
  fun _ => ⟨[], (List.append_nil _).symm, rfl⟩

theorem logs_take (handle count : Nat) :
    Logs (net.recorded.take handle count) fun _ calls => calls = [] :=
  fun _ => ⟨[], (List.append_nil _).symm, rfl⟩

theorem logs_hangUp (handle : Nat) :
    Logs (net.recorded.hangUp handle) fun _ calls => calls = [.hungUp handle] :=
  fun _ => ⟨_, rfl, rfl⟩

theorem logs_settle (handle : Nat) :
    Logs (net.recorded.settle handle) fun outcome calls => calls = [.settled handle outcome] :=
  fun _ => ⟨_, rfl, rfl⟩

theorem logs_note (notice : Notice) :
    Logs (net.recorded.note notice) fun _ calls => calls = [] :=
  fun _ => ⟨[], (List.append_nil _).symm, rfl⟩

/-! ## One link -/

theorem logs_send (engine : Int) (handle : Nat) (payload : Bytes) :
    Logs ((net.recorded.link engine handle).send payload) fun _ calls => Tally calls [] [] [] := by
  refine (logs_transmit net handle _).bind fun failure calls hcalls => ?_
  cases hcalls
  cases failure with
  | none => exact .pure Tally.nil
  | some cause => exact .pure Tally.nil

theorem logs_read (engine : Int) (handle : Nat) (reading : Reading α) :
    Logs (net.recorded.read engine handle reading) fun _ calls => Tally calls [] [] [] := by
  induction reading with
  | done a => exact .pure Tally.nil
  | fail fault => exact .pure Tally.nil
  | take count next ih =>
    rw [read]
    refine (logs_take net handle count).bind fun intake calls hcalls => ?_
    cases hcalls
    cases intake with
    | bytes content => exact ih content
    | ended => exact .pure Tally.nil
    | broken cause => exact .pure Tally.nil

/-- Closing a link hangs it up, and fails only if waiting for that goes wrong altogether. -/
theorem logs_close (engine : Int) (handle : Nat) :
    Logs ((net.recorded.link engine handle).close) fun result calls =>
      Tally calls [] [] [handle] ∧ (AreOrderly calls → result = .ok ()) := by
  refine (logs_hangUp net handle).bind fun _ first hfirst => ?_
  refine (logs_settle net handle).bind fun outcome second hsecond => ?_
  cases hfirst
  cases hsecond
  cases outcome with
  | quiet => exact .pure ⟨⟨rfl, rfl, rfl⟩, fun _ => rfl⟩
  | complained cause =>
    refine (logs_note net _).bind fun _ third hthird => ?_
    cases hthird
    exact .pure ⟨⟨rfl, rfl, rfl⟩, fun _ => rfl⟩
  | broke =>
    refine .pure ⟨⟨rfl, rfl, rfl⟩, fun horderly => ?_⟩
    simp [AreOrderly, isOrderly] at horderly

/-! ## All links -/

def linkTo {m : Type → Type} [Monad m] (net : Sockets m) (entry : Nat × Nat) : Link m :=
  net.link entry.2 entry.1

def linksTo {m : Type → Type} [Monad m] (net : Sockets m) (handles : List Nat) : List (Link m) :=
  handles.zipIdx.map net.linkTo

theorem linksTo_concat {m : Type → Type} [Monad m] (net : Sockets m) (handles : List Nat)
    (handle : Nat) :
    net.linksTo (handles ++ [handle]) =
      net.linksTo handles ++ [net.link handles.length handle] := by
  simp [linksTo, linkTo, List.zipIdx_append]

theorem length_linksTo {m : Type → Type} [Monad m] (net : Sockets m) (handles : List Nat) :
    (net.linksTo handles).length = handles.length := by
  rw [linksTo, List.length_map, List.length_zipIdx]

/-- Closing links up to the first that fails to closes them all, unless waiting for one goes wrong
altogether. -/
theorem logs_closeEach (entries : List (Nat × Nat)) :
    Logs (Link.closeEach (entries.map net.recorded.linkTo)) fun result calls =>
      AreOrderly calls → result = .ok () ∧ Tally calls [] [] (entries.map Prod.fst) := by
  induction entries with
  | nil => exact .pure fun _ => ⟨rfl, .nil⟩
  | cons entry rest ih =>
    refine (logs_close net entry.2 entry.1).bind fun result first hfirst => ?_
    obtain ⟨htally, hok⟩ := hfirst
    cases result with
    | error fault =>
      refine .pure fun horderly => ?_
      cases hok (areOrderly_append.mp horderly).1
    | ok =>
      refine ih.mono fun result' second hsecond horderly => ?_
      obtain ⟨hresult, htally'⟩ := hsecond (areOrderly_append.mp horderly).2
      exact ⟨hresult, htally.append htally'⟩

/-- Closing all links hangs up every one of them, whatever becomes of the others. -/
theorem logs_closeAll (entries : List (Nat × Nat)) :
    Logs (Link.closeAll net.recorded.note (entries.map net.recorded.linkTo)) fun _ calls =>
      Tally calls [] [] (entries.map Prod.fst) := by
  induction entries with
  | nil => exact .pure .nil
  | cons entry rest ih =>
    refine (logs_close net entry.2 entry.1).bind fun result first hfirst => ?_
    have hrest := ih.mono fun _ second hsecond => hfirst.1.append hsecond
    cases result with
    | ok => exact hrest
    | error fault =>
      refine (logs_note net _).bind fun _ noted hnoted => ?_
      cases hnoted
      exact hrest

/-! ## Exchanges -/

theorem logs_carrier_send (handles : List Nat) (engine : Nat) (payload : Bytes) :
    Logs ((Link.carrier (net.recorded.linksTo handles) net.recorded.note).send engine payload)
      fun _ calls => Tally calls [] [] [] := by
  simp only [Link.carrier]
  cases hlink : (net.recorded.linksTo handles)[engine]? with
  | none => exact .pure .nil
  | some link =>
    obtain ⟨entry, -, rfl⟩ := List.mem_map.mp (List.mem_of_getElem? hlink)
    exact logs_send net entry.2 entry.1 payload

theorem logs_carrier_receive (handles : List Nat) (engine : Nat) (limit : Option Int) :
    Logs ((Link.carrier (net.recorded.linksTo handles) net.recorded.note).receive engine limit)
      fun _ calls => Tally calls [] [] [] := by
  simp only [Link.carrier]
  cases hlink : (net.recorded.linksTo handles)[engine]? with
  | none => exact .pure .nil
  | some link =>
    obtain ⟨entry, -, rfl⟩ := List.mem_map.mp (List.mem_of_getElem? hlink)
    exact logs_read net entry.2 entry.1 (Frame.reading entry.2 limit)

/-- An exchange over links makes no connection and hangs none up. -/
theorem logs_run (handles : List Nat) (x : Exchange α) (progress : Progress) :
    Logs (x.run (Link.carrier (net.recorded.linksTo handles) net.recorded.note) progress)
      fun _ calls => Tally calls [] [] [] := by
  induction x generalizing progress with
  | done a => exact .pure .nil
  | fail fault => exact .pure .nil
  | send engine payload next ih =>
    refine (logs_carrier_send net handles engine payload).bind fun result first hfirst => ?_
    cases result with
    | ok => exact (ih progress).mono fun _ second hsecond => hfirst.append hsecond
    | error fault => exact .pure (hfirst.append .nil)
  | receive engine limit next ih =>
    rw [Exchange.run]
    refine (logs_carrier_receive net handles engine limit).bind fun answer first hfirst => ?_
    cases answer with
    | returned bytes =>
      exact (ih bytes progress).mono fun _ second hsecond => hfirst.append hsecond
    | failed fault => exact .pure (hfirst.append .nil)
    | waiting => exact .pure (hfirst.append .nil)
  | note notice next ih =>
    refine (logs_note net notice).bind fun _ first hfirst => ?_
    cases hfirst
    exact ih progress
  | advance change next ih => exact ih (change progress)

end Sockets
end TreeParty
