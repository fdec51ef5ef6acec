import TreeParty.Link.Network
/-!
# Contacts are kept

A network remembers every attempt to connect. `Grows` says that a step forgets none; all that a
client does with its links is made of such steps.
-/

set_option autoImplicit false

namespace TreeParty
namespace Network

variable {α β : Type}

/-- A step that forgets no contact. -/
def Grows (x : StateM Network α) : Prop :=
  ∀ net, net.contacts.length ≤ (x net).2.contacts.length

theorem Grows.pure (a : α) : Grows (pure a : StateM Network α) := fun _ => Nat.le_refl _

theorem Grows.bind {x : StateM Network α} {f : α → StateM Network β} (hx : Grows x)
    (hf : ∀ a, Grows (f a)) : Grows (x >>= f) :=
  fun net => Nat.le_trans (hx net) (hf (x net).1 (x net).2)

/-! ## Sockets -/

theorem grows_onStream (handle : Nat) (missing : α) (act : StateM ByteStream α) :
    Grows (onStream handle missing act) := by
  intro net
  unfold onStream
  split
  · exact Nat.le_of_eq List.length_set.symm
  · exact Nat.le_refl _

theorem grows_transmit (handle : Nat) (bytes : Bytes) : Grows (sockets.transmit handle bytes) :=
  grows_onStream handle _ _

theorem grows_take (handle count : Nat) : Grows (sockets.take handle count) :=
  grows_onStream handle _ _

theorem grows_hangUp (handle : Nat) : Grows (sockets.hangUp handle) := grows_onStream handle _ _

theorem grows_settle (handle : Nat) : Grows (sockets.settle handle) := grows_onStream handle _ _

theorem grows_note (notice : Notice) : Grows (note notice) := fun _ => Nat.le_refl _

theorem grows_read (engine : Int) (handle : Nat) (reading : Reading α) :
    Grows (sockets.read engine handle reading) := by
  induction reading with
  | done a => exact Grows.pure _
  | fail fault => exact Grows.pure _
  | take count next ih =>
    unfold Sockets.read
    refine (grows_take handle count).bind fun intake => ?_
    cases intake with
    | bytes content => exact ih content
    | ended => exact Grows.pure _
    | broken cause => exact Grows.pure _

/-! ## Links -/

/-- A link all of whose operations forget no contact. -/
structure Keeps (link : Link (StateM Network)) : Prop where
  send : ∀ payload, Grows (link.send payload)
  receive : ∀ limit, Grows (link.receive limit)
  close : Grows link.close

theorem keeps_link (engine : Int) (handle : Nat) : Keeps (sockets.link engine handle) := by
  constructor
  case send =>
    intro payload
    unfold Sockets.link
    refine (grows_transmit handle _).bind fun cause => ?_
    cases cause <;> exact Grows.pure _
  case receive => exact fun limit => grows_read engine handle _
  case close =>
    unfold Sockets.link
    refine (grows_hangUp handle).bind fun _ => (grows_settle handle).bind fun left => ?_
    cases left with
    | quiet => exact Grows.pure _
    | complained cause => exact (grows_note _).bind fun _ => Grows.pure _
    | broke => exact Grows.pure _

theorem grows_run {links : List (Link (StateM Network))} (h : ∀ link ∈ links, Keeps link)
    (x : Exchange α) (progress : Progress) : Grows (x.run (Link.carrier links note) progress) := by
  induction x generalizing progress with
  | done a => exact Grows.pure _
  | fail fault => exact Grows.pure _
  | note notice next ih => exact (grows_note notice).bind fun _ => ih progress
  | advance change next ih => exact ih (change progress)
  | send engine payload next ih =>
    have hsend : Grows ((Link.carrier links note).send engine payload) := by
      simp only [Link.carrier]
      cases hlink : links[engine]? with
      | none => exact Grows.pure _
      | some link => exact (h link (List.mem_of_getElem? hlink)).send payload
    unfold Exchange.run
    refine hsend.bind fun result => ?_
    cases result with
    | ok _ => exact ih progress
    | error fault => exact Grows.pure _
  | receive engine limit next ih =>
    have hreceive : Grows ((Link.carrier links note).receive engine limit) := by
      simp only [Link.carrier]
      cases hlink : links[engine]? with
      | none => exact Grows.pure _
      | some link => exact (h link (List.mem_of_getElem? hlink)).receive limit
    unfold Exchange.run
    refine hreceive.bind fun ending => ?_
    cases ending with
    | returned bytes => exact ih bytes progress
    | failed fault => exact Grows.pure _
    | waiting => exact Grows.pure _

theorem grows_closeAll {links : List (Link (StateM Network))} (h : ∀ link ∈ links, Keeps link) :
    Grows (Link.closeAll note links) := by
  induction links with
  | nil => exact Grows.pure _
  | cons link rest ih =>
    have hrest := ih fun other hother => h other (List.mem_cons_of_mem link hother)
    refine (h link List.mem_cons_self).close.bind fun result => ?_
    cases result with
    | ok _ => exact hrest
    | error fault => exact (grows_note _).bind fun _ => hrest

end Network
end TreeParty
