import TreeParty.Proofs.Client.Inputs
import Mathlib
/-!
# Sequences of operations

Every successful operation of a client takes a fixed number of items from the front of each inbox,
whatever they hold. So the items of a whole sequence are taken in order, none twice, and a frame of
masked values can be unmasked with the items of its own operation.
-/

set_option autoImplicit false

namespace TreeParty

namespace Mailbox

def serve (taken : Nat) (frames : List Bytes) (box : Mailbox) : Mailbox :=
  { box with inbox := box.inbox.drop taken, outbox := box.outbox ++ frames }

@[simp] theorem serve_zero_nil (box : Mailbox) : box.serve 0 [] = box := by simp [serve]

theorem serve_serve (taken taken' : Nat) (frames frames' : List Bytes) (box : Mailbox) :
    (box.serve taken frames).serve taken' frames' =
      box.serve (taken + taken') (frames ++ frames') := by
  simp [serve, List.drop_drop]

theorem skip_eq_serve (count : Nat) (box : Mailbox) : box.skip count = box.serve count [] := by
  simp [serve, skip]

theorem message_serve (taken place : Nat) (frames : List Bytes) (box : Mailbox) :
    (box.serve taken frames).message place = box.message (taken + place) := by
  simp [serve, message]

theorem length_pos_of_offers {F : FieldParams} {count : Nat} {box : Mailbox}
    (h : box.Offers F count 0) : 1 ≤ box.inbox.length := by
  obtain ⟨payload, hpayload, -⟩ := h
  exact (List.getElem?_eq_some_iff.mp hpayload).1

end Mailbox

namespace Client

open Mailbox

/-- One use of a client. -/
inductive Operation (client : Client) where
  | inputs (values : List (Residue client.field))
  | reals (values : List Binary64)
  | ints (values : List Int)
  | publicNumbers (treeType splitCount classCount : Int)
  | result (size : Int)
  | opening
  | index

namespace Operation

variable {client : Client}

def exchange : Operation client → Exchange Unit
  | inputs values => client.sendElements (elements values)
  | reals values => client.sendReals values
  | ints values => client.sendInts values
  | publicNumbers treeType splitCount classCount =>
    client.sendPublic treeType splitCount classCount
  | result size => do let _ ← client.receiveResult size
  | opening => do let _ ← client.receiveOpening
  | index => do let _ ← client.receiveIndex

def inputs? : Operation client → Option (Except Fault (List (Residue client.field)))
  | inputs values => some (.ok values)
  | reals values => some (values.mapM client.encodeReal)
  | ints values => some (client.residues values)
  | _ => none

def size : Operation client → Nat
  | inputs values => values.length
  | reals values => values.length
  | ints values => values.length
  | _ => 0

/-- How many items an operation takes from an engine. -/
def demand (engine : Nat) : Operation client → Nat
  | result _ | opening => 1
  | index => if engine = 0 then 1 else 0
  | op => if op.size = 0 then 0 else 1

end Operation

variable {client : Client}

/-- Whether the frames of an operation are one frame of its values, masked by the triples in some
messages, or none at all for no values. -/
def Masks (F : FieldParams) (payloads : List Bytes) (values : List (Residue F))
    (frames : List Bytes) : Prop :=
  (values = [] → frames = []) ∧
    (values ≠ [] → ∃ frame, frames = [frame] ∧ frame.length = values.length * F.elementBytes ∧
      ∀ i value, values[i]? = some value →
        Residue.ofInt F (encodedAt F frame i - shareSum F payloads (3 * i)) = value)

theorem masks_maskedFrame {F : FieldParams} {payloads : List Bytes} {values : List (Residue F)}
    (hvalues : values ≠ []) : Masks F payloads values [maskedFrame F payloads values] := by
  refine ⟨fun hnil => absurd hnil hvalues, fun _ => ⟨_, rfl, ?_, ?_⟩⟩
  · rw [maskedFrame, length_packElements, length_masked]
  · intro i value hvalue
    rw [maskedFrame, encodedAt_packElements (getElem?_masked hvalue)]
    exact Residue.ofInt_val_add_sub value (shareSum F payloads (3 * i))

/-! ## What one operation leaves -/

/-- What a successful operation does to progress and mailboxes, with the frames that it sends. -/
structure Settles (op : Operation client) (before after : Progress × MailRoom)
    (frames : List Bytes) : Prop where
  inputsSent : after.1.inputsSent = before.1.inputsSent + op.size
  boxes : ∀ engine box, before.2.boxes[engine]? = some box →
    op.demand engine ≤ box.inbox.length ∧
      after.2.boxes[engine]? = some (box.serve (op.demand engine) frames)
  masks : ∀ encoded, op.inputs? = some encoded → ∃ values, encoded = .ok values ∧
    values.length = op.size ∧ Masks client.field (before.2.boxes.map (message 0)) values frames

theorem serve_all {boxes boxes' : List Mailbox} {taken : Nat} {frames : List Bytes}
    (hboxes : boxes' = boxes.map (serve taken frames))
    (henough : ∀ box ∈ boxes, taken ≤ box.inbox.length) (engine : Nat) (box : Mailbox)
    (hbox : boxes[engine]? = some box) :
    taken ≤ box.inbox.length ∧ boxes'[engine]? = some (box.serve taken frames) := by
  refine ⟨henough box (List.mem_of_getElem? hbox), ?_⟩
  rw [hboxes, List.getElem?_map, hbox]
  rfl

theorem sendElements_eq_returned {room room' : MailRoom} {progress progress' : Progress}
    (hopen : room.IsOpen) (hengines : client.engines = room.boxes.length)
    {values : List (Residue client.field)} (hvalues : values ≠ [])
    (hrun : MailRoom.run (client.sendElements (elements values)) progress room =
      ((.returned (), progress'), room')) :
    (∀ box ∈ room.boxes, 1 ≤ box.inbox.length) ∧
      progress'.inputsSent = progress.inputsSent + values.length ∧
      room'.boxes = room.boxes.map
        (serve 1 [maskedFrame client.field (room.boxes.map (message 0)) values]) := by
  by_cases haccepted : (∀ box ∈ room.boxes, box.Offers client.field (3 * values.length) 0) ∧
      ∀ i < values.length, Triple.Agrees client.field (room.boxes.map (message 0)) i
  · obtain ⟨hoffers, hagrees⟩ := haccepted
    rw [run_sendElements_of_agrees hopen hengines hvalues hoffers hagrees] at hrun
    cases hrun
    exact ⟨fun box hbox => length_pos_of_offers (hoffers box hbox), rfl, rfl⟩
  · obtain ⟨ending, boxes, notices, hrefused, hending, -⟩ :=
      run_sendElements_of_refused hopen hengines hvalues haccepted progress
    rw [hrefused] at hrun
    cases hrun
    exact absurd rfl hending

theorem sumShares_eq_returned {room room' : MailRoom} {progress progress' : Progress}
    (hopen : room.IsOpen) (hengines : client.engines = room.boxes.length) {count : Nat}
    {sums : List (Residue client.field)}
    (hrun : MailRoom.run (client.sumShares count) progress room =
      ((.returned sums, progress'), room')) :
    (∀ box ∈ room.boxes, 1 ≤ box.inbox.length) ∧ progress' = progress ∧
      room'.boxes = room.boxes.map (serve 1 []) := by
  rw [run_sumShares hopen hengines] at hrun
  cases htaken : takeAll client.field count room.boxes with
  | mk ending boxes =>
    rw [htaken] at hrun
    cases ending with
    | returned all =>
      have hoffers := offers_of_takeAll (congrArg Prod.fst htaken)
      rw [takeAll_of_offers hoffers] at htaken
      cases htaken
      cases hrun
      exact ⟨fun box hbox => length_pos_of_offers (hoffers box hbox), rfl,
        List.map_congr_left fun box _ => skip_eq_serve 1 box⟩
    | failed fault => cases hrun
    | waiting => cases hrun

/-! Private values, however they are given. -/

theorem settles_inputs {op : Operation client} {room room' : MailRoom}
    {progress progress' : Progress} (hopen : room.IsOpen)
    (hengines : client.engines = room.boxes.length) {values : List (Residue client.field)}
    (hinputs : op.inputs? = some (.ok values)) (hsize : op.size = values.length)
    (hdemand : ∀ engine, op.demand engine = if op.size = 0 then 0 else 1)
    (hrun : MailRoom.run (client.sendElements (elements values)) progress room =
      ((.returned (), progress'), room')) :
    ∃ frames, Settles op (progress, room) (progress', room') frames := by
  by_cases hvalues : values = []
  · subst hvalues
    rw [elements, List.map_nil, run_sendElements_nil] at hrun
    cases hrun
    have hnone : op.size = 0 := hsize
    refine ⟨[], by simp [hnone], ?_, ?_⟩
    · intro engine box hbox
      rw [hdemand, if_pos hnone, serve_zero_nil]
      exact ⟨Nat.zero_le _, hbox⟩
    · intro encoded hencoded
      cases hinputs.symm.trans hencoded
      exact ⟨[], rfl, hsize.symm, fun _ => rfl, fun h => absurd rfl h⟩
  · obtain ⟨henough, hsent, hboxes⟩ := sendElements_eq_returned hopen hengines hvalues hrun
    have hsome : op.size ≠ 0 := by
      rw [hsize]
      exact fun h => hvalues (List.length_eq_zero_iff.mp h)
    refine ⟨[maskedFrame client.field (room.boxes.map (message 0)) values],
      by rw [hsize]; exact hsent, ?_, ?_⟩
    · intro engine box hbox
      rw [hdemand, if_neg hsome]
      exact serve_all hboxes henough engine box hbox
    · intro encoded hencoded
      cases hinputs.symm.trans hencoded
      exact ⟨values, rfl, hsize.symm, masks_maskedFrame hvalues⟩

theorem settles_encoded {op : Operation client} {room room' : MailRoom}
    {progress progress' : Progress} (hopen : room.IsOpen)
    (hengines : client.engines = room.boxes.length)
    {encoded : Except Fault (List (Residue client.field))} (hinputs : op.inputs? = some encoded)
    (hsize : ∀ values, encoded = .ok values → op.size = values.length)
    (hdemand : ∀ engine, op.demand engine = if op.size = 0 then 0 else 1)
    (hrun : MailRoom.run (Exchange.ofResult encoded >>= fun values =>
        client.sendElements (elements values)) progress room =
      ((.returned (), progress'), room')) :
    ∃ frames, Settles op (progress, room) (progress', room') frames := by
  obtain ⟨values, middle, between, hencode, hsend⟩ := MailRoom.run_bind_eq_returned hrun
  obtain ⟨hvalues, rfl, rfl⟩ := MailRoom.run_ofResult_eq_returned hencode
  subst hvalues
  exact settles_inputs hopen hengines hinputs (hsize values rfl) hdemand hsend

/-! Public numbers and results. -/

theorem settles_public {treeType splitCount classCount : Int} {room room' : MailRoom}
    {progress progress' : Progress} (hopen : room.IsOpen)
    (hengines : client.engines = room.boxes.length)
    (hrun : MailRoom.run (client.sendPublic treeType splitCount classCount) progress room =
      ((.returned (), progress'), room')) :
    ∃ frames, Settles (.publicNumbers treeType splitCount classCount : Operation client)
      (progress, room) (progress', room') frames := by
  obtain ⟨numbers, middle, between, hencode, hsend⟩ := MailRoom.run_bind_eq_returned hrun
  obtain ⟨-, hmiddle, hbetween⟩ := MailRoom.run_ofResult_eq_returned hencode
  rw [hmiddle, hbetween, hengines, MailRoom.run_sendAll hopen] at hsend
  cases hsend
  refine ⟨[packElements numbers], rfl, ?_, fun _ h => absurd h (Option.some_ne_none _).symm⟩
  intro engine box hbox
  have hserve : room.boxes.map (deliver (packElements numbers)) =
      room.boxes.map (serve 0 [packElements numbers]) := rfl
  exact serve_all hserve (fun _ _ => Nat.zero_le _) engine box hbox

theorem settles_sums {op : Operation client} {room room' : MailRoom}
    {progress progress' : Progress} (hopen : room.IsOpen)
    (hengines : client.engines = room.boxes.length) {count : Nat}
    {sums : List (Residue client.field)} (hinputs : op.inputs? = none) (hsize : op.size = 0)
    (hdemand : ∀ engine, op.demand engine = 1)
    (hrun : MailRoom.run (client.sumShares count) progress room =
      ((.returned sums, progress'), room')) :
    ∃ frames, Settles op (progress, room) (progress', room') frames := by
  obtain ⟨henough, rfl, hboxes⟩ := sumShares_eq_returned hopen hengines hrun
  refine ⟨[], by rw [hsize]; rfl, ?_, ?_⟩
  · intro engine box hbox
    rw [hdemand]
    exact serve_all hboxes henough engine box hbox
  · intro encoded hencoded
    rw [hinputs] at hencoded
    cases hencoded

theorem receiveResult_eq_returned {size : Int} {room room' : MailRoom}
    {progress progress' : Progress} {result : List Binary64 × Int}
    (hrun : MailRoom.run (client.receiveResult size) progress room =
      ((.returned result, progress'), room')) :
    ∃ sums, MailRoom.run (client.sumShares size.toNat) progress room =
      ((.returned sums, progress'), room') := by
  unfold receiveResult at hrun
  split at hrun
  · cases hrun
  · obtain ⟨sums, middle, between, hsums, hrest⟩ := MailRoom.run_bind_eq_returned hrun
    obtain ⟨values, middle', between', hdecode, hlast⟩ := MailRoom.run_bind_eq_returned hrest
    obtain ⟨-, rfl, rfl⟩ := MailRoom.run_ofResult_eq_returned hdecode
    cases hgetLast : sums.getLast? with
    | none =>
      rw [hgetLast] at hlast
      cases hlast
    | some last =>
      rw [hgetLast] at hlast
      cases hlast
      exact ⟨sums, hsums⟩

theorem receiveOpening_eq_returned {room room' : MailRoom} {progress progress' : Progress}
    {opening : Opening client.field}
    (hrun : MailRoom.run client.receiveOpening progress room =
      ((.returned opening, progress'), room')) :
    ∃ sums, MailRoom.run (client.sumShares 3) progress room =
      ((.returned sums, progress'), room') := by
  obtain ⟨sums, middle, between, hsums, hrest⟩ := MailRoom.run_bind_eq_returned hrun
  split at hrest
  · dsimp only at hrest
    split at hrest
    · cases hrest
      exact ⟨_, hsums⟩
    · cases hrest
  · cases hrest

theorem settles_index {room room' : MailRoom} {progress progress' : Progress} {number : Int}
    (hopen : room.IsOpen)
    (hrun : MailRoom.run client.receiveIndex progress room =
      ((.returned number, progress'), room')) :
    ∃ frames, Settles (.index : Operation client) (progress, room) (progress', room') frames := by
  obtain ⟨shares, middle, between, hshares, hrest⟩ := MailRoom.run_bind_eq_returned hrun
  have hquiet : progress' = middle ∧ room' = between := by
    split at hrest
    · cases hrest
      exact ⟨rfl, rfl⟩
    · cases hrest
  obtain ⟨rfl, rfl⟩ := hquiet
  cases hfirst : room.boxes[0]? with
  | none =>
    unfold receiveShares at hshares
    rw [MailRoom.run_bind, MailRoom.run_await_of_missing hfirst] at hshares
    cases hshares
  | some first =>
    obtain ⟨hnumber, hclosed⟩ := hopen 0 first hfirst
    rw [Nat.zero_add] at hnumber
    rw [run_receiveShares hfirst hnumber hclosed] at hshares
    simp only [Prod.mk.injEq] at hshares
    obtain ⟨⟨hending, rfl⟩, rfl⟩ := hshares
    have henough : 1 ≤ first.inbox.length := by
      cases hinbox : first.inbox with
      | nil =>
        rw [takeShares_of_empty hinbox] at hending
        cases hending
      | cons item rest => exact Nat.succ_le_succ (Nat.zero_le _)
    refine ⟨[], rfl, ?_, fun _ h => absurd h (Option.some_ne_none _).symm⟩
    intro engine box hbox
    rw [takeShares_snd, skip_eq_serve]
    cases engine with
    | zero =>
      cases hfirst.symm.trans hbox
      exact ⟨henough, List.getElem?_set_self (List.getElem?_eq_some_iff.mp hbox).1⟩
    | succ engine =>
      refine ⟨Nat.zero_le _, ?_⟩
      have hother : 0 ≠ engine + 1 := by omega
      rw [List.getElem?_set_ne hother, hbox]
      exact congrArg some (serve_zero_nil box).symm

theorem settles_of_returned {op : Operation client} {room room' : MailRoom}
    {progress progress' : Progress} (hopen : room.IsOpen)
    (hengines : client.engines = room.boxes.length)
    (hrun : MailRoom.run op.exchange progress room = ((.returned (), progress'), room')) :
    ∃ frames, Settles op (progress, room) (progress', room') frames := by
  cases op with
  | inputs values => exact settles_inputs hopen hengines rfl rfl (fun _ => rfl) hrun
  | reals values =>
    exact settles_encoded hopen hengines rfl (fun _ h => (length_of_mapM_eq_ok h).symm)
      (fun _ => rfl) hrun
  | ints values =>
    exact settles_encoded hopen hengines rfl (fun _ h => (length_of_mapM_eq_ok h).symm)
      (fun _ => rfl) hrun
  | publicNumbers treeType splitCount classCount => exact settles_public hopen hengines hrun
  | result size =>
    obtain ⟨result, middle, between, hresult, hrest⟩ := MailRoom.run_bind_eq_returned hrun
    cases hrest
    obtain ⟨sums, hsums⟩ := receiveResult_eq_returned hresult
    exact settles_sums hopen hengines rfl rfl (fun _ => rfl) hsums
  | opening =>
    obtain ⟨opening, middle, between, hopening, hrest⟩ := MailRoom.run_bind_eq_returned hrun
    cases hrest
    obtain ⟨sums, hsums⟩ := receiveOpening_eq_returned hopening
    exact settles_sums hopen hengines rfl rfl (fun _ => rfl) hsums
  | index =>
    obtain ⟨number, middle, between, hnumber, hrest⟩ := MailRoom.run_bind_eq_returned hrun
    cases hrest
    exact settles_index hopen hnumber

/-! ## Sequences -/

/-- States that a sequence of operations passes through, every operation returning. -/
def Succeed (ops : List (Operation client)) (trace : Nat → Progress × MailRoom) : Prop :=
  ∀ t op, ops[t]? = some op →
    MailRoom.run op.exchange (trace t).1 (trace t).2 =
      ((.returned (), (trace (t + 1)).1), (trace (t + 1)).2)

def demandBefore (ops : List (Operation client)) (t engine : Nat) : Nat :=
  ((ops.take t).map (Operation.demand engine)).sum

def sizeBefore (ops : List (Operation client)) (t : Nat) : Nat :=
  ((ops.take t).map Operation.size).sum

theorem demandBefore_succ {ops : List (Operation client)} {t : Nat} {op : Operation client}
    (hop : ops[t]? = some op) (engine : Nat) :
    demandBefore ops (t + 1) engine = demandBefore ops t engine + op.demand engine := by
  simp [demandBefore, List.take_add_one, hop]

theorem sizeBefore_succ {ops : List (Operation client)} {t : Nat} {op : Operation client}
    (hop : ops[t]? = some op) : sizeBefore ops (t + 1) = sizeBefore ops t + op.size := by
  simp [sizeBefore, List.take_add_one, hop]

variable {ops : List (Operation client)} {trace : Nat → Progress × MailRoom}

theorem Settles.isOpen {op : Operation client} {before after : Progress × MailRoom}
    {frames : List Bytes} (h : Settles op before after frames) (hopen : before.2.IsOpen)
    (hlength : after.2.boxes.length = before.2.boxes.length) : after.2.IsOpen := by
  intro place box hbox
  have hlt : place < before.2.boxes.length := by
    rw [← hlength]
    exact (List.getElem?_eq_some_iff.mp hbox).1
  have hold : before.2.boxes[place]? = some before.2.boxes[place] := List.getElem?_eq_getElem hlt
  have hkept := hopen place _ hold
  cases (h.boxes place _ hold).2.symm.trans hbox
  exact hkept

theorem Succeed.length_boxes (h : Succeed ops trace) {t : Nat} (ht : t < ops.length) :
    (trace (t + 1)).2.boxes.length = (trace t).2.boxes.length := by
  have hlength := MailRoom.length_boxes_run ops[t].exchange (trace t).1 (trace t).2
  rwa [h t _ (List.getElem?_eq_getElem ht)] at hlength

theorem Succeed.isOpen (h : Succeed ops trace) (hopen : (trace 0).2.IsOpen)
    (hengines : client.engines = (trace 0).2.boxes.length) :
    ∀ t ≤ ops.length, (trace t).2.IsOpen ∧ client.engines = (trace t).2.boxes.length := by
  intro t ht
  induction t with
  | zero => exact ⟨hopen, hengines⟩
  | succ t ih =>
    obtain ⟨hopen, hengines⟩ := ih (Nat.le_of_succ_le ht)
    have hlength := h.length_boxes ht
    obtain ⟨frames, hsettles⟩ :=
      settles_of_returned hopen hengines (h t _ (List.getElem?_eq_getElem ht))
    exact ⟨hsettles.isOpen hopen hlength, hengines.trans hlength.symm⟩

theorem Succeed.settles (h : Succeed ops trace) (hopen : (trace 0).2.IsOpen)
    (hengines : client.engines = (trace 0).2.boxes.length) :
    ∃ frames : Nat → List Bytes, ∀ t op, ops[t]? = some op →
      Settles op (trace t) (trace (t + 1)) (frames t) := by
  have hall : ∀ t, ∃ frames, ∀ op, ops[t]? = some op →
      Settles op (trace t) (trace (t + 1)) frames := by
    intro t
    cases hop : ops[t]? with
    | none => exact ⟨[], fun op h => absurd h (Option.some_ne_none op).symm⟩
    | some op =>
      obtain ⟨hlt, -⟩ := List.getElem?_eq_some_iff.mp hop
      obtain ⟨hopen, hengines⟩ := h.isOpen hopen hengines t (Nat.le_of_lt hlt)
      obtain ⟨frames, hsettles⟩ := settles_of_returned hopen hengines (h t op hop)
      refine ⟨frames, fun other hother => ?_⟩
      cases hother
      exact hsettles
  choose frames hframes using hall
  exact ⟨frames, hframes⟩

theorem Succeed.getElem?_boxes {frames : Nat → List Bytes}
    (hframes : ∀ t op, ops[t]? = some op → Settles op (trace t) (trace (t + 1)) (frames t))
    {engine : Nat} {box : Mailbox} (hbox : (trace 0).2.boxes[engine]? = some box) :
    ∀ t ≤ ops.length, demandBefore ops t engine ≤ box.inbox.length ∧
      (trace t).2.boxes[engine]? = some (box.serve (demandBefore ops t engine)
        ((List.range t).flatMap frames)) := by
  intro t ht
  induction t with
  | zero => exact ⟨Nat.zero_le _, by simpa [demandBefore] using hbox⟩
  | succ t ih =>
    obtain ⟨henough, hplace⟩ := ih (Nat.le_of_succ_le ht)
    have hop : ops[t]? = some ops[t] := List.getElem?_eq_getElem ht
    obtain ⟨hmore, hnext⟩ := (hframes t _ hop).boxes engine _ hplace
    have hleft : (box.serve (demandBefore ops t engine)
        ((List.range t).flatMap frames)).inbox.length =
        box.inbox.length - demandBefore ops t engine := List.length_drop
    rw [hleft] at hmore
    rw [demandBefore_succ hop, List.range_succ, List.flatMap_append, List.flatMap_singleton]
    refine ⟨by omega, ?_⟩
    rw [hnext, serve_serve]

theorem Succeed.inputsSent {frames : Nat → List Bytes}
    (hframes : ∀ t op, ops[t]? = some op → Settles op (trace t) (trace (t + 1)) (frames t)) :
    ∀ t ≤ ops.length,
      (trace t).1.inputsSent = (trace 0).1.inputsSent + sizeBefore ops t := by
  intro t ht
  induction t with
  | zero => rfl
  | succ t ih =>
    have hop : ops[t]? = some ops[t] := List.getElem?_eq_getElem ht
    rw [(hframes t _ hop).inputsSent, ih (Nat.le_of_succ_le ht), sizeBefore_succ hop,
      Nat.add_assoc]

/-- The messages at the front of all inboxes before the `t`-th operation. -/
theorem Succeed.map_message (h : Succeed ops trace) (hopen : (trace 0).2.IsOpen)
    (hengines : client.engines = (trace 0).2.boxes.length) {frames : Nat → List Bytes}
    (hframes : ∀ t op, ops[t]? = some op → Settles op (trace t) (trace (t + 1)) (frames t))
    {t : Nat} (ht : t ≤ ops.length) :
    (trace t).2.boxes.map (message 0) =
      (trace 0).2.boxes.mapIdx fun engine box => box.message (demandBefore ops t engine) := by
  apply List.ext_getElem?
  intro engine
  rw [List.getElem?_map, List.getElem?_mapIdx]
  cases hbox : (trace 0).2.boxes[engine]? with
  | none =>
    have hlength := (h.isOpen hopen hengines t ht).2
    have hmissing : (trace t).2.boxes[engine]? = none := by
      rw [List.getElem?_eq_none_iff, ← hlength, hengines]
      exact List.getElem?_eq_none_iff.mp hbox
    rw [hmissing]
    rfl
  | some box =>
    rw [(Succeed.getElem?_boxes hframes hbox t ht).2]
    exact congrArg some (message_serve _ _ _ _)

/-- Successful operations take the items of every engine in order: the `t`-th one takes those that
come right after the items of the operations before it. A frame of private values is masked by the
triples in the items of its own operation. -/
theorem operations_take_fresh_items (h : Succeed ops trace) (hopen : (trace 0).2.IsOpen)
    (hengines : client.engines = (trace 0).2.boxes.length) :
    ∃ frames : Nat → List Bytes,
      (∀ t ≤ ops.length,
        (trace t).1.inputsSent = (trace 0).1.inputsSent + sizeBefore ops t ∧
        (trace t).2.boxes.length = (trace 0).2.boxes.length ∧
        ∀ engine box, (trace 0).2.boxes[engine]? = some box →
          demandBefore ops t engine ≤ box.inbox.length ∧
          (trace t).2.boxes[engine]? = some { box with
            inbox := box.inbox.drop (demandBefore ops t engine)
            outbox := box.outbox ++ (List.range t).flatMap frames }) ∧
      ∀ t op encoded, ops[t]? = some op → op.inputs? = some encoded →
        ∃ values, encoded = .ok values ∧ values.length = op.size ∧
          Masks client.field
            ((trace 0).2.boxes.mapIdx fun engine box => box.message (demandBefore ops t engine))
            values (frames t) := by
  obtain ⟨frames, hframes⟩ := h.settles hopen hengines
  refine ⟨frames, fun t ht => ⟨?_, ?_, ?_⟩, ?_⟩
  · exact Succeed.inputsSent hframes t ht
  · rw [← hengines, (h.isOpen hopen hengines t ht).2]
  · exact fun engine box hbox => Succeed.getElem?_boxes hframes hbox t ht
  · intro t op encoded hop hinputs
    obtain ⟨hlt, -⟩ := List.getElem?_eq_some_iff.mp hop
    rw [← h.map_message hopen hengines hframes (Nat.le_of_lt hlt)]
    exact (hframes t op hop).masks encoded hinputs

/-- The index comes from the first engine only, so that the second number is masked by the third
message of the one engine and the second of the other. -/
theorem operations_take_fresh_items_two_engines :
    ∃ trace : Nat → Progress × MailRoom,
      trace 0 = (⟨0, []⟩, ⟨holding .thirteen [[[1, 2, 3], [6], [2, 3, 5]],
        [[4, 4, 1], [1, 1, 7]]], []⟩) ∧
      @Succeed ⟨.thirteen, 2, .places 8⟩ [.inputs [Residue.ofInt .thirteen 7], .index, .ints [-2]]
        trace ∧
      (trace 3).1.inputsSent = 2 ∧
      ∃ frame, Residue.ofInt .thirteen (encodedAt .thirteen frame 0 - (2 + 1)) =
        Residue.ofInt .thirteen (-2) := by
  let states : Nat → Progress × MailRoom := fun
    | 0 => (⟨0, []⟩, ⟨holding .thirteen [[[1, 2, 3], [6], [2, 3, 5]], [[4, 4, 1], [1, 1, 7]]], []⟩)
    | 1 => (⟨1, []⟩, ⟨(holding .thirteen [[[6], [2, 3, 5]], [[1, 1, 7]]]).map
      (deliver (numbersMessage .thirteen [12])), []⟩)
    | 2 => (⟨1, []⟩, ⟨(holding .thirteen [[[2, 3, 5]], [[1, 1, 7]]]).map
      (deliver (numbersMessage .thirteen [12])), []⟩)
    | _ => (⟨2, []⟩, ⟨((holding .thirteen [[], []]).map
      (deliver (numbersMessage .thirteen [12]))).map (deliver (numbersMessage .thirteen [1])), []⟩)
  have hsucceed : @Succeed ⟨.thirteen, 2, .places 8⟩
      [.inputs [Residue.ofInt .thirteen 7], .index, .ints [-2]] states := by
    intro t op hop
    match t, hop with
    | 0, rfl => cbv
    | 1, rfl => cbv
    | 2, rfl => cbv
  obtain ⟨frames, hstates, hmasks⟩ :=
    operations_take_fresh_items hsucceed (isOpen_holding _ _ _) rfl
  obtain ⟨values, hvalues, -, -, hframe⟩ := hmasks 2 _ _ rfl rfl
  cases hvalues
  obtain ⟨frame, -, -, hback⟩ := hframe (List.cons_ne_nil _ _)
  exact ⟨states, rfl, hsucceed, (hstates 3 (Nat.le_refl 3)).1, frame, hback 0 _ rfl⟩

end Client
end TreeParty
