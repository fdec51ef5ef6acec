import TreeParty.Link.Mailbox
import TreeParty.Proofs.Exchange.Run
/-!
# Exchanges over mailboxes

What a room of mailboxes does for each action of an exchange. A room keeps its number of mailboxes,
so that a run can be cut wherever the exchange is a bind. Over open mailboxes a broadcast never
fails and reaches every outbox.
-/

set_option autoImplicit false

namespace TreeParty

variable {α β : Type}

namespace Mailbox

def deliver (payload : Bytes) (box : Mailbox) : Mailbox :=
  { box with outbox := box.outbox ++ [payload] }

def skip (count : Nat) (box : Mailbox) : Mailbox := { box with inbox := box.inbox.drop count }

@[simp] theorem skip_engine (count : Nat) (box : Mailbox) : (box.skip count).engine = box.engine :=
  rfl

@[simp] theorem skip_closed (count : Nat) (box : Mailbox) : (box.skip count).closed = box.closed :=
  rfl

@[simp] theorem skip_outbox (count : Nat) (box : Mailbox) : (box.skip count).outbox = box.outbox :=
  rfl

@[simp] theorem skip_zero (box : Mailbox) : box.skip 0 = box := rfl

def OpenFrom (start : Nat) (boxes : List Mailbox) : Prop :=
  ∀ (place : Nat) (box : Mailbox), boxes[place]? = some box →
    box.engine = (start + place : Nat) ∧ box.closed = false

@[simp] theorem openFrom_nil (start : Nat) : OpenFrom start [] := nofun

theorem openFrom_cons {start : Nat} {box : Mailbox} {rest : List Mailbox} :
    OpenFrom start (box :: rest) ↔
      (box.engine = start ∧ box.closed = false) ∧ OpenFrom (start + 1) rest := by
  constructor
  · intro h
    refine ⟨h 0 box rfl, fun place other hother => ?_⟩
    have hnext := h (place + 1) other hother
    rwa [Nat.add_right_comm, Nat.add_assoc]
  · rintro ⟨hbox, hrest⟩ place other hother
    cases place with
    | zero =>
      cases hother
      exact hbox
    | succ place =>
      have hnext := hrest place other hother
      rwa [Nat.add_right_comm, Nat.add_assoc] at hnext

theorem OpenFrom.map {start : Nat} {boxes : List Mailbox} {f : Mailbox → Mailbox}
    (h : OpenFrom start boxes) (hengine : ∀ box, (f box).engine = box.engine)
    (hclosed : ∀ box, (f box).closed = box.closed) : OpenFrom start (boxes.map f) := by
  intro place box hbox
  rw [List.getElem?_map] at hbox
  obtain ⟨old, hold, rfl⟩ := Option.map_eq_some_iff.mp hbox
  rw [hengine, hclosed]
  exact h place old hold

theorem send_of_open {box : Mailbox} (hopen : box.closed = false) (payload : Bytes) :
    send payload box = (.ok (), box.deliver payload) := by
  simp [send, hopen, deliver]

theorem receive_of_open {box : Mailbox} (hopen : box.closed = false) (limit : Option Int) :
    receive limit box =
      match box.inbox with
      | [] => (.waiting, box)
      | none :: _ => (.failed (.transport (.dropped box.engine)), box.skip 1)
      | some payload :: _ =>
        match Frame.checkLength box.engine payload.length limit with
        | .ok () => (.returned payload, box.skip 1)
        | .error fault => (.failed fault, box.skip 1) := by
  have hskip : ∀ {item rest}, box.inbox = item :: rest → { box with inbox := rest } = box.skip 1 :=
    fun hinbox => by simp [skip, hinbox]
  unfold receive
  rw [if_neg (by simp [hopen])]
  cases hinbox : box.inbox with
  | nil => rfl
  | cons item rest =>
    cases item with
    | none => simp only [hskip hinbox]
    | some payload =>
      cases hlength : Frame.checkLength box.engine payload.length limit with
      | ok => simp only [hskip hinbox, hlength]
      | error fault => simp only [hskip hinbox, hlength]

theorem outbox_receive (limit : Option Int) (box : Mailbox) :
    (receive limit box).2.outbox = box.outbox := by
  unfold receive
  split
  · rfl
  · split
    · rfl
    · rfl
    · split <;> rfl

end Mailbox

namespace Link

variable {m : Type → Type} [Monad m]

theorem carrier_send (links : List (Link m)) (note : Notice → m Unit) (engine : Nat)
    (payload : Bytes) : (carrier links note).send engine payload =
      links[engine]?.elim (pure (.error (.misuse .position))) fun link => link.send payload := by
  simp only [carrier]
  cases links[engine]? <;> rfl

theorem carrier_receive (links : List (Link m)) (note : Notice → m Unit) (engine : Nat)
    (limit : Option Int) : (carrier links note).receive engine limit =
      links[engine]?.elim (pure (.failed (.misuse .position))) fun link => link.receive limit := by
  simp only [carrier]
  cases links[engine]? <;> rfl

end Link

namespace MailRoom

def IsOpen (room : MailRoom) : Prop := Mailbox.OpenFrom 0 room.boxes

/-! ## One action -/

theorem onBox_of_getElem? {room : MailRoom} {place : Nat} {box : Mailbox}
    (hbox : room.boxes[place]? = some box) (missing : α) (act : StateM Mailbox α) :
    onBox place missing act room =
      ((act box).1, { room with boxes := room.boxes.set place (act box).2 }) := by
  unfold onBox
  rw [hbox]
  rfl

theorem length_boxes_onBox (place : Nat) (missing : α) (act : StateM Mailbox α)
    (room : MailRoom) : (onBox place missing act room).2.boxes.length = room.boxes.length := by
  cases hbox : room.boxes[place]? with
  | none =>
    unfold onBox
    rw [hbox]
  | some box =>
    rw [onBox_of_getElem? hbox]
    exact List.length_set

/-- An act of one of the links leaves as many mailboxes as there were. -/
theorem length_boxes_onLink (engines engine : Nat)
    {act : Link (StateM MailRoom) → StateM MailRoom α}
    (hact : ∀ place room, (act (link place) room).2.boxes.length = room.boxes.length) (missing : α)
    (room : MailRoom) :
    ((links engines)[engine]?.elim (pure missing) act room).2.boxes.length = room.boxes.length := by
  cases hlink : (links engines)[engine]? with
  | none => rfl
  | some found =>
    obtain ⟨place, -, rfl⟩ := List.mem_map.mp (List.mem_of_getElem? hlink)
    exact hact place room

theorem length_boxes_send (engines engine : Nat) (payload : Bytes) (room : MailRoom) :
    ((Link.carrier (links engines) note).send engine payload room).2.boxes.length =
      room.boxes.length := by
  rw [Link.carrier_send]
  exact length_boxes_onLink engines engine (fun _ _ => length_boxes_onBox _ _ _ _) _ room

theorem length_boxes_receive (engines engine : Nat) (limit : Option Int) (room : MailRoom) :
    ((Link.carrier (links engines) note).receive engine limit room).2.boxes.length =
      room.boxes.length := by
  rw [Link.carrier_receive]
  exact length_boxes_onLink engines engine (fun _ _ => length_boxes_onBox _ _ _ _) _ room

theorem map_outbox_receive (engines engine : Nat) (limit : Option Int) (room : MailRoom) :
    ((Link.carrier (links engines) note).receive engine limit room).2.boxes.map Mailbox.outbox =
      room.boxes.map Mailbox.outbox := by
  simp only [Link.carrier]
  cases hlink : (links engines)[engine]? with
  | none => rfl
  | some found =>
    obtain ⟨place, -, rfl⟩ := List.mem_map.mp (List.mem_of_getElem? hlink)
    simp only [link]
    cases hbox : room.boxes[place]? with
    | none =>
      unfold onBox
      rw [hbox]
    | some box =>
      obtain ⟨_, hitem⟩ := List.getElem?_eq_some_iff.mp hbox
      rw [onBox_of_getElem? hbox, List.map_set, Mailbox.outbox_receive, ← hitem, ← List.map_set,
        List.set_getElem_self]

/-! ## Runs -/

theorem length_boxes_exchange (engines : Nat) (x : Exchange α) (progress : Progress)
    (room : MailRoom) :
    (x.run (Link.carrier (links engines) note) progress room).2.boxes.length =
      room.boxes.length := by
  induction x generalizing progress room with
  | done a => rfl
  | fail fault => rfl
  | send engine payload next ih =>
    rw [Exchange.run_send]
    have hlength := length_boxes_send engines engine payload room
    revert hlength
    rcases (Link.carrier (links engines) note).send engine payload room with ⟨_ | _, room'⟩
    · exact id
    · exact (ih progress room').trans
  | receive engine limit next ih =>
    rw [Exchange.run_receive]
    have hlength := length_boxes_receive engines engine limit room
    revert hlength
    rcases (Link.carrier (links engines) note).receive engine limit room with
      ⟨bytes | _ | _, room'⟩
    · exact (ih bytes progress room').trans
    · exact id
    · exact id
  | note notice next ih => exact ih progress (note notice room).2
  | advance change next ih => exact ih (change progress) room

theorem length_boxes_run (x : Exchange α) (progress : Progress) (room : MailRoom) :
    (run x progress room).2.boxes.length = room.boxes.length :=
  length_boxes_exchange room.boxes.length x progress room

theorem run_bind (x : Exchange α) (f : α → Exchange β) (progress : Progress) (room : MailRoom) :
    run (x >>= f) progress room =
      Exchange.goOn (run x progress room) fun a progress' room' => run (f a) progress' room' := by
  have hlength := length_boxes_run x progress room
  unfold run at hlength ⊢
  rw [Exchange.run_bind]
  revert hlength
  rcases x.run (Link.carrier (links room.boxes.length) note) progress room with
    ⟨⟨a | _ | _, progress'⟩, room'⟩
  · intro hlength
    simp only [Exchange.goOn]
    rw [hlength]
  · intro _
    rfl
  · intro _
    rfl

theorem run_bind_of_returned {x : Exchange α} {progress progress' : Progress}
    {room room' : MailRoom} {a : α}
    (hrun : run x progress room = ((.returned a, progress'), room')) (f : α → Exchange β) :
    run (x >>= f) progress room = run (f a) progress' room' := by
  rw [run_bind, hrun]
  rfl

theorem run_bind_eq_returned {x : Exchange α} {f : α → Exchange β} {progress progress' : Progress}
    {room room' : MailRoom} {b : β}
    (hrun : run (x >>= f) progress room = ((.returned b, progress'), room')) :
    ∃ a middle between, run x progress room = ((.returned a, middle), between) ∧
      run (f a) middle between = ((.returned b, progress'), room') := by
  rw [run_bind] at hrun
  exact Exchange.goOn_eq_returned hrun

@[simp] theorem run_pure (a : α) (progress : Progress) (room : MailRoom) :
    run (pure a) progress room = ((.returned a, progress), room) := rfl

theorem run_ofResult (result : Except Fault α) (progress : Progress) (room : MailRoom) :
    run (Exchange.ofResult result) progress room = ((.ofResult result, progress), room) := by
  cases result <;> rfl

theorem run_ofResult_eq_returned {result : Except Fault α} {progress progress' : Progress}
    {room room' : MailRoom} {a : α}
    (hrun : run (Exchange.ofResult result) progress room = ((.returned a, progress'), room')) :
    result = .ok a ∧ progress' = progress ∧ room' = room := by
  cases result <;> cases hrun
  exact ⟨rfl, rfl, rfl⟩

theorem run_send_of_open {boxes rest : List Mailbox} {box : Mailbox} {notices : List Notice}
    (hopen : box.closed = false) (payload : Bytes) (next : Exchange α) (progress : Progress) :
    run (.send boxes.length payload next) progress ⟨boxes ++ box :: rest, notices⟩ =
      run next progress ⟨boxes ++ box.deliver payload :: rest, notices⟩ := by
  have hplace : (boxes ++ box :: rest)[boxes.length]? = some box := by simp
  have hlt : boxes.length < (boxes ++ box :: rest).length := by simp
  unfold run
  rw [Exchange.run_send]
  simp only [Link.carrier, links, List.getElem?_map, List.getElem?_range hlt, Option.map_some,
    link]
  rw [onBox_of_getElem? hplace, Mailbox.send_of_open hopen]
  simp

theorem run_await_of_getElem? {room : MailRoom} {engine : Nat} {box : Mailbox}
    (hbox : room.boxes[engine]? = some box) (limit : Option Int) (progress : Progress) :
    run (Exchange.await engine limit) progress room =
      (((Mailbox.receive limit box).1, progress),
        { room with boxes := room.boxes.set engine (Mailbox.receive limit box).2 }) := by
  have hlt : engine < room.boxes.length := (List.getElem?_eq_some_iff.mp hbox).1
  unfold run Exchange.await
  rw [Exchange.run_receive]
  simp only [Link.carrier, links, List.getElem?_map, List.getElem?_range hlt, Option.map_some,
    link]
  rw [onBox_of_getElem? hbox]
  rcases Mailbox.receive limit box with ⟨_ | _ | _, box'⟩ <;> rfl

theorem run_await_of_missing {room : MailRoom} {engine : Nat}
    (hmissing : room.boxes[engine]? = none) (limit : Option Int) (progress : Progress) :
    run (Exchange.await engine limit) progress room =
      ((.failed (.misuse .position), progress), room) := by
  have hle : room.boxes.length ≤ engine := List.getElem?_eq_none_iff.mp hmissing
  have hlink : (links room.boxes.length)[engine]? = none :=
    List.getElem?_eq_none (by rwa [links, List.length_map, List.length_range])
  unfold run Exchange.await
  rw [Exchange.run_receive]
  simp only [Link.carrier, hlink]
  rfl

/-! ## Broadcasts -/

theorem run_sendAll_from {start : List Mailbox} {rest : List Mailbox} {notices : List Notice}
    (hopen : Mailbox.OpenFrom start.length rest) (payload : Bytes) (progress : Progress) :
    run ((List.range' start.length rest.length).foldr
        (fun engine next => Exchange.send engine payload next) (.done ()))
        progress ⟨start ++ rest, notices⟩ =
      ((.returned (), progress), ⟨start ++ rest.map (Mailbox.deliver payload), notices⟩) := by
  induction rest generalizing start with
  | nil => rfl
  | cons box rest ih =>
    obtain ⟨⟨-, hclosed⟩, hrest⟩ := Mailbox.openFrom_cons.mp hopen
    have hnext := @ih (start ++ [box.deliver payload]) (by simpa using hrest)
    simp only [List.length_cons, List.range'_succ, List.foldr_cons]
    rw [run_send_of_open hclosed]
    simpa using hnext

/-- A broadcast over open mailboxes reaches every outbox. -/
theorem run_sendAll {room : MailRoom} (hopen : room.IsOpen) (payload : Bytes)
    (progress : Progress) :
    run (Exchange.sendAll room.boxes.length payload) progress room =
      ((.returned (), progress),
        { room with boxes := room.boxes.map (Mailbox.deliver payload) }) := by
  have hloop := @run_sendAll_from [] room.boxes room.notices hopen payload progress
  simpa [Exchange.sendAll, List.range_eq_range'] using hloop

end MailRoom
end TreeParty
