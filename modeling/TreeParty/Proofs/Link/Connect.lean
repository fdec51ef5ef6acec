import TreeParty.Proofs.Link.Network
import Mathlib.Data.List.Forall2
/-!
# Connecting to working streams

When every attempt meets a stream that works, connecting gives one link for each engine, unless the
announcement does not fit. The announcement leaves what the streams carry as it is.
-/

set_option autoImplicit false

namespace TreeParty
namespace Network

variable {net : Network} {stream : ByteStream} {box : Mailbox} {clientId : Int}

theorem dial_of_accepted {rest : List Attempt} (hscript : net.script = .accepted stream :: rest)
    (host : String) (port : Int) :
    sockets.dial host port net = (.connected net.contacts.length, { net with
      script := rest, contacts := net.contacts ++ [⟨host, port, .accepted stream⟩] }) := by
  change dial host port net = _
  unfold dial
  rw [hscript]
  rfl

theorem openLink_of_transmit {net' net'' : Network} {handle : Nat} {bytes : Bytes} {host : String}
    {port : Int} (engine : Int) (hdial : sockets.dial host port net = (.connected handle, net'))
    (hannounce : Frame.announcement clientId = .ok bytes)
    (htransmit : sockets.transmit handle bytes net' = (none, net'')) :
    sockets.openLink host port clientId engine net = (.ok (sockets.link engine handle), net'') := by
  simp only [Sockets.openLink, Sockets.reach, Bind.bind, StateT.bind, hdial, hannounce, htransmit]
  rfl

theorem openLink_of_announcement_error {net' : Network} {handle : Nat} {fault : Fault}
    {host : String} {port : Int} (engine : Int)
    (hdial : sockets.dial host port net = (.connected handle, net'))
    (hannounce : Frame.announcement clientId = .error fault) :
    sockets.openLink host port clientId engine net = (.error fault, net') := by
  simp only [Sockets.openLink, Sockets.reach, Bind.bind, StateT.bind, hdial, hannounce]
  rfl

/-- Opening a link over a stream that flushes writes the announcement and nothing else. -/
theorem openLink_of_accepted {rest : List Attempt} {bytes : Bytes}
    (hscript : net.script = .accepted stream :: rest) (hflush : stream.failingFlush = none)
    (hannounce : Frame.announcement clientId = .ok bytes) (host : String) (port engine : Int) :
    sockets.openLink host port clientId engine net =
      (.ok (sockets.link engine net.contacts.length), { net with
        script := rest,
        contacts := net.contacts ++ [⟨host, port, .accepted (stream.transmitted bytes)⟩] }) := by
  have hdial := dial_of_accepted hscript host port
  have htransmit := @transmit_withStream { net with
      script := rest, contacts := net.contacts ++ [⟨host, port, .accepted stream⟩] }
    net.contacts.length stream (by simp) hflush host port bytes
  rw [withStream_of_contact List.getElem?_concat_length] at htransmit
  rw [openLink_of_transmit engine hdial hannounce htransmit]
  simp [withStream]

/-! ## All engines -/

theorem openLinks_cons_of_ok {net' : Network} {link : Link (StateM Network)} {host : String}
    {base : Int} {engine : Nat}
    (hopen : sockets.openLink host (base + engine) clientId engine net = (.ok link, net'))
    (rest : List String) (opened : List (Link (StateM Network))) :
    sockets.openLinks (.ok base) clientId (host :: rest) engine opened net =
      sockets.openLinks (.ok base) clientId rest (engine + 1) (opened ++ [link]) net' := by
  simp only [Sockets.openLinks, Bind.bind, StateT.bind, hopen]

theorem Matches.concat {boxes : List Mailbox} (h : net.Matches boxes) {box : Mailbox}
    (hcount : net.contacts.length = boxes.length) (hengine : box.engine = boxes.length)
    (hclosed : box.closed = false) (host : String) (port : Int) {stream : ByteStream}
    (hcarries : stream.Carries box) (script : List Attempt) :
    Matches { net with
      script := script, contacts := net.contacts ++ [⟨host, port, .accepted stream⟩] }
      (boxes ++ [box]) := by
  constructor
  case isOpen =>
    intro place found hfound
    rcases Nat.lt_or_ge place boxes.length with hlt | hge
    · rw [List.getElem?_append_left hlt] at hfound
      exact h.isOpen place found hfound
    · obtain ⟨hplace, hlast⟩ : place = boxes.length ∧ box = found := by
        rw [List.getElem?_append_right hge, List.getElem?_singleton] at hfound
        split at hfound
        · exact ⟨by omega, Option.some.inj hfound⟩
        · cases hfound
      rw [← hlast, hplace, Nat.zero_add]
      exact ⟨hengine, hclosed⟩
  case carried =>
    intro place found hfound
    rcases Nat.lt_or_ge place boxes.length with hlt | hge
    · rw [List.getElem?_append_left hlt] at hfound
      obtain ⟨host', port', stream', hcontact, hcarries'⟩ := h.carried place found hfound
      refine ⟨host', port', stream', ?_, hcarries'⟩
      rw [List.getElem?_append_left (by omega)]
      exact hcontact
    · rw [List.getElem?_append_right hge, List.getElem?_singleton] at hfound
      split at hfound
      · cases hfound
        refine ⟨host, port, stream, ?_, hcarries⟩
        rw [List.getElem?_append_right (by omega), hcount]
        simp_all
      · cases hfound

/-- Connecting to streams that work gives one link for each, and they carry what they did. -/
theorem openLinks_of_carries {streams : List ByteStream} {boxes done : List Mailbox}
    {hosts : List String} {more : List Attempt} {bytes : Bytes}
    (hall : List.Forall₂ ByteStream.Carries streams boxes)
    (hannounce : Frame.announcement clientId = .ok bytes) (hhosts : hosts.length = streams.length)
    (hscript : net.script = streams.map .accepted ++ more)
    (hcount : net.contacts.length = done.length) (hmatches : net.Matches done)
    (hopen : Mailbox.OpenFrom done.length boxes) (base : Int)
    (opened : List (Link (StateM Network))) :
    ∃ net', sockets.openLinks (.ok base) clientId hosts done.length opened net =
        (.ok (opened ++ (List.range' done.length streams.length).map fun (place : Nat) =>
          sockets.link place place), net') ∧
      net'.Matches (done ++ boxes) := by
  induction hall generalizing net hosts done opened with
  | nil =>
    cases hosts with
    | nil =>
      refine ⟨net, ?_, ?_⟩
      · simp [Sockets.openLinks]
        rfl
      · rwa [List.append_nil]
    | cons host rest => cases hhosts
  | @cons stream box streams boxes hcarries hrest ih =>
    cases hosts with
    | nil => cases hhosts
    | cons host rest =>
      obtain ⟨⟨hengine, hclosed⟩, hopen'⟩ := Mailbox.openFrom_cons.mp hopen
      have hlink := openLink_of_accepted hscript hcarries.failingFlush hannounce host
        (base + done.length) done.length
      have hcarries' := hcarries.transmitted bytes
      rw [openLinks_cons_of_ok hlink, hcount]
      have hnext := hmatches.concat hcount hengine hclosed host (base + done.length) hcarries'
        (streams.map .accepted ++ more)
      have hlength : (done ++ [box]).length = done.length + 1 := by simp
      obtain ⟨net', hlinks, hmatched⟩ := @ih _ (done ++ [box]) rest (Nat.succ.inj hhosts) rfl
        (by simp [hcount]) hnext (by rwa [hlength])
        (opened ++ [sockets.link done.length done.length])
      rw [hlength] at hlinks
      refine ⟨net', ?_, by rwa [List.append_assoc] at hmatched⟩
      rw [List.append_assoc] at hlinks
      exact hlinks

theorem openLinks_of_announcement_range {rest : List Attempt} {hosts : List String}
    (hscript : net.script = .accepted stream :: rest) (hhosts : hosts ≠ [])
    (hlarge : 2147483647 < clientId) (base : Int) (engine : Nat)
    (opened : List (Link (StateM Network))) :
    (sockets.openLinks (.ok base) clientId hosts engine opened net).1 =
      .error (.misuse .announcementRange) := by
  cases hosts with
  | nil => exact absurd rfl hhosts
  | cons host others =>
    have hopen := openLink_of_announcement_error engine
      (dial_of_accepted hscript host (base + engine)) (Frame.announcement_of_lt hlarge)
    simp only [Sockets.openLinks, Bind.bind, StateT.bind, hopen]
    rfl

end Network
end TreeParty
