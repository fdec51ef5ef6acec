import TreeParty.Client
import TreeParty.Proofs.Link.MailRoom
import TreeParty.Proofs.Sharing.Sums
/-!
# Shares from all mailboxes

`takeAll` is what a client gets when it asks every mailbox in order for a number of shares: it stops
at the first mailbox whose next item is not a message of that many elements. Over open mailboxes the
client's loops over the engines are `takeAll` followed by the sums of `Proofs.Sharing.Sums`.
-/

set_option autoImplicit false

namespace TreeParty

variable {F : FieldParams}

namespace Mailbox

def message (place : Nat) (box : Mailbox) : Bytes := box.inbox[place]?.join.getD []

/-- Whether the item at a place of the inbox is a message of exactly `count` elements. -/
def Offers (F : FieldParams) (count place : Nat) (box : Mailbox) : Prop :=
  ∃ payload, box.inbox[place]? = some (some payload) ∧ HoldsElements F count payload

theorem message_of_getElem? {box : Mailbox} {place : Nat} {payload : Bytes}
    (h : box.inbox[place]? = some (some payload)) : box.message place = payload := by
  simp [message, h]

/-! ## One mailbox -/

def readShares (F : FieldParams) (engine : Int) (count : Nat) (payload : Bytes) :
    Except Fault (List (Residue F)) :=
  let expected := count * F.elementBytes
  if expected < payload.length then
    .error (.wire (.oversized engine payload.length expected))
  else if payload.length = expected then unpackElements F payload count 0
  else .error (.wire (.wrongLength engine payload.length expected))

def takeShares (F : FieldParams) (count : Nat) (box : Mailbox) :
    Ending (List (Residue F)) × Mailbox :=
  match box.inbox with
  | [] => (.waiting, box)
  | none :: _ => (.failed (.transport (.dropped box.engine)), box.skip 1)
  | some payload :: _ => (.ofResult (readShares F box.engine count payload), box.skip 1)

theorem readShares_of_holds (engine : Int) {count : Nat} {payload : Bytes}
    (h : HoldsElements F count payload) :
    readShares F engine count payload = .ok (elementsIn F count payload) := by
  unfold readShares
  rw [if_neg (by rw [h.1]; exact Nat.lt_irrefl _), if_pos h.1, unpackElements_of_holds h]

theorem readShares_of_not_holds (engine : Int) {count : Nat} {payload : Bytes}
    (h : ¬ HoldsElements F count payload) :
    ∃ fault, readShares F engine count payload = .error (.wire fault) := by
  unfold readShares
  by_cases hlong : count * F.elementBytes < payload.length
  · exact ⟨_, if_pos hlong⟩
  · by_cases hlength : payload.length = count * F.elementBytes
    · refine ⟨.notReduced, ?_⟩
      rw [if_neg hlong, if_pos hlength]
      exact unpackElements_of_not_reduced hlength fun hreduced => h ⟨hlength, hreduced⟩
    · exact ⟨_, by rw [if_neg hlong, if_neg hlength]⟩

theorem takeShares_of_offers {count : Nat} {box : Mailbox} (h : box.Offers F count 0) :
    takeShares F count box = (.returned (elementsIn F count (box.message 0)), box.skip 1) := by
  obtain ⟨payload, hitem, hholds⟩ := h
  have hmessage := message_of_getElem? hitem
  cases hinbox : box.inbox with
  | nil => simp [hinbox] at hitem
  | cons item rest =>
    have hpayload : item = some payload := by simpa [hinbox] using hitem
    have hread := readShares_of_holds box.engine hholds
    simp only [takeShares, hinbox, hpayload, hread, hmessage, Ending.ofResult]

theorem takeShares_of_empty {count : Nat} {box : Mailbox} (h : box.inbox = []) :
    takeShares F count box = (.waiting, box) := by
  rw [takeShares, h]

theorem takeShares_of_dropped {count : Nat} {box : Mailbox} (h : box.inbox.head? = some none) :
    takeShares F count box = (.failed (.transport (.dropped box.engine)), box.skip 1) := by
  cases hinbox : box.inbox with
  | nil => simp [hinbox] at h
  | cons item rest =>
    have hitem : item = none := by simpa [hinbox] using h
    rw [takeShares, hinbox, hitem]

theorem takeShares_of_malformed {count : Nat} {box : Mailbox} {payload : Bytes}
    (h : box.inbox.head? = some (some payload)) (hbad : ¬ HoldsElements F count payload) :
    ∃ fault, takeShares F count box = (.failed (.wire fault), box.skip 1) := by
  cases hinbox : box.inbox with
  | nil => simp [hinbox] at h
  | cons item rest =>
    have hitem : item = some payload := by simpa [hinbox] using h
    obtain ⟨fault, hfault⟩ := readShares_of_not_holds box.engine hbad
    refine ⟨fault, ?_⟩
    simp only [takeShares, hinbox, hitem, hfault, Ending.ofResult]

theorem takeShares_snd (F : FieldParams) (count : Nat) (box : Mailbox) :
    (takeShares F count box).2 = box.skip 1 := by
  unfold takeShares
  split
  · next hinbox =>
    cases box
    simp_all [skip]
  · rfl
  · rfl

/-! ## All mailboxes -/

/-- Mailboxes in which messages of given numbers wait, one list of messages for each engine. -/
def holding (F : FieldParams) (engines : List (List (List Int))) : List Mailbox :=
  (List.range engines.length).map fun (place : Nat) =>
    ⟨place, (engines.getD place []).map fun numbers => some (numbersMessage F numbers), [], false⟩

theorem isOpen_holding (F : FieldParams) (engines : List (List (List Int)))
    (notices : List Notice) : MailRoom.IsOpen ⟨holding F engines, notices⟩ := by
  intro place box hbox
  rw [holding, List.getElem?_map] at hbox
  obtain ⟨number, hnumber, rfl⟩ := Option.map_eq_some_iff.mp hbox
  have hplace : number = place := by
    obtain ⟨hlt, hvalue⟩ := List.getElem?_eq_some_iff.mp hnumber
    rw [← hvalue, List.getElem_range]
  exact ⟨by simp [hplace], rfl⟩

def takeAll (F : FieldParams) (count : Nat) :
    List Mailbox → Ending (List (List (Residue F))) × List Mailbox
  | [] => (.returned [], [])
  | box :: rest =>
    match takeShares F count box with
    | (.returned shares, box') =>
      match takeAll F count rest with
      | (.returned all, rest') => (.returned (shares :: all), box' :: rest')
      | (.failed fault, rest') => (.failed fault, box' :: rest')
      | (.waiting, rest') => (.waiting, box' :: rest')
    | (.failed fault, box') => (.failed fault, box' :: rest)
    | (.waiting, box') => (.waiting, box' :: rest)

theorem takeAll_of_offers {count : Nat} {boxes : List Mailbox}
    (h : ∀ box ∈ boxes, box.Offers F count 0) :
    takeAll F count boxes =
      (.returned ((boxes.map (message 0)).map (elementsIn F count)), boxes.map (skip 1)) := by
  induction boxes with
  | nil => rfl
  | cons box rest ih =>
    have hbox := takeShares_of_offers (h box List.mem_cons_self)
    have hrest := ih fun other hother => h other (List.mem_cons_of_mem box hother)
    simp only [takeAll, hbox, hrest, List.map_cons]

theorem takeAll_of_failed {count : Nat} {good : List Mailbox} {bad : Mailbox} {fault : Fault}
    (hgood : ∀ box ∈ good, box.Offers F count 0)
    (hbad : (takeShares F count bad).1 = .failed fault) (rest : List Mailbox) :
    takeAll F count (good ++ bad :: rest) =
      (.failed fault, (good ++ [bad]).map (skip 1) ++ rest) := by
  induction good with
  | nil =>
    have hpair : takeShares F count bad = (.failed fault, bad.skip 1) :=
      Prod.ext hbad (takeShares_snd F count bad)
    simp [takeAll, hpair]
  | cons box good ih =>
    have hbox := takeShares_of_offers (hgood box List.mem_cons_self)
    have hrest := ih fun other hother => hgood other (List.mem_cons_of_mem box hother)
    simp only [List.cons_append, takeAll, hbox, hrest, List.map_cons]

theorem takeAll_of_waiting {count : Nat} {good : List Mailbox} {bad : Mailbox}
    (hgood : ∀ box ∈ good, box.Offers F count 0) (hbad : bad.inbox = []) (rest : List Mailbox) :
    takeAll F count (good ++ bad :: rest) = (.waiting, good.map (skip 1) ++ bad :: rest) := by
  induction good with
  | nil => simp [takeAll, takeShares_of_empty hbad]
  | cons box good ih =>
    have hbox := takeShares_of_offers (hgood box List.mem_cons_self)
    have hrest := ih fun other hother => hgood other (List.mem_cons_of_mem box hother)
    simp only [List.cons_append, takeAll, hbox, hrest, List.map_cons]

/-- What `takeAll` leaves: some first mailboxes have lost one item, the others none. -/
theorem takeAll_snd (F : FieldParams) (count : Nat) (boxes : List Mailbox) :
    ∃ asked ≤ boxes.length,
      (takeAll F count boxes).2 = (boxes.take asked).map (skip 1) ++ boxes.drop asked := by
  induction boxes with
  | nil => exact ⟨0, Nat.le_refl 0, rfl⟩
  | cons box rest ih =>
    have hbox := takeShares_snd F count box
    obtain ⟨asked, hasked, hrest⟩ := ih
    revert hbox hrest
    rw [takeAll]
    rcases takeShares F count box with ⟨_ | _ | _, box'⟩
    · rcases takeAll F count rest with ⟨_ | _ | _, rest'⟩ <;> rintro rfl rfl <;>
        exact ⟨asked + 1, Nat.succ_le_succ hasked, rfl⟩
    · rintro rfl -
      exact ⟨1, by simp, by simp⟩
    · rintro rfl -
      exact ⟨1, by simp, by simp⟩

theorem map_outbox_takeAll (F : FieldParams) (count : Nat) (boxes : List Mailbox) :
    (takeAll F count boxes).2.map outbox = boxes.map outbox := by
  obtain ⟨asked, -, hleft⟩ := takeAll_snd F count boxes
  have hskip : outbox ∘ skip 1 = outbox := rfl
  rw [hleft, List.map_append, List.map_map, hskip, ← List.map_append, List.take_append_drop]

theorem offers_of_takeAll {count : Nat} {boxes : List Mailbox} {all : List (List (Residue F))}
    (h : (takeAll F count boxes).1 = .returned all) : ∀ box ∈ boxes, box.Offers F count 0 := by
  induction boxes generalizing all with
  | nil => simp
  | cons box rest ih =>
    rw [takeAll] at h
    intro other hother
    cases hinbox : box.inbox with
    | nil =>
      rw [takeShares_of_empty hinbox] at h
      cases h
    | cons item tail =>
      cases item with
      | none =>
        rw [takeShares_of_dropped (by simp [hinbox])] at h
        cases h
      | some payload =>
        by_cases hholds : HoldsElements F count payload
        · have hbox : box.Offers F count 0 := ⟨payload, by simp [hinbox], hholds⟩
          rw [takeShares_of_offers hbox] at h
          rcases List.mem_cons.mp hother with rfl | hmem
          · exact hbox
          · revert h
            cases hrest : takeAll F count rest with
            | mk ending rest' =>
              cases ending with
              | returned more =>
                intro _
                exact ih (congrArg Prod.fst hrest) other hmem
              | failed fault => intro h; cases h
              | waiting => intro h; cases h
        · have hhead : box.inbox.head? = some (some payload) := by simp [hinbox]
          obtain ⟨fault, hfault⟩ := takeShares_of_malformed hhead hholds
          rw [hfault] at h
          cases h

end Mailbox

namespace Client

open Mailbox MailRoom

variable {client : Client}

theorem run_receiveShares {room : MailRoom} {engine : Nat} {box : Mailbox}
    (hbox : room.boxes[engine]? = some box) (hnumber : box.engine = engine)
    (hopen : box.closed = false) (count : Nat) (progress : Progress) :
    MailRoom.run (client.receiveShares engine count) progress room =
      (((takeShares client.field count box).1, progress),
        { room with boxes := room.boxes.set engine (takeShares client.field count box).2 }) := by
  unfold receiveShares
  rw [MailRoom.run_bind, run_await_of_getElem? hbox, receive_of_open hopen]
  unfold takeShares readShares Frame.checkLength
  cases hinbox : box.inbox with
  | nil => rfl
  | cons item rest =>
    cases item with
    | none => rfl
    | some payload =>
      simp only [Int.ofNat_lt]
      by_cases hlong : count * client.field.elementBytes < payload.length
      · simp only [if_pos hlong]
        rfl
      · simp only [if_neg hlong, Exchange.goOn]
        by_cases hlength : payload.length = count * client.field.elementBytes
        · simp only [if_pos hlength]
          exact run_ofResult _ _ _
        · simp only [if_neg hlength, hnumber]
          rfl

theorem run_mapM_receiveShares {start rest : List Mailbox} {notices : List Notice}
    (hopen : OpenFrom start.length rest) (count : Nat) (progress : Progress) :
    MailRoom.run ((List.range' start.length rest.length).mapM fun engine =>
        client.receiveShares engine count) progress ⟨start ++ rest, notices⟩ =
      (((takeAll client.field count rest).1, progress),
        ⟨start ++ (takeAll client.field count rest).2, notices⟩) := by
  induction rest generalizing start with
  | nil => rfl
  | cons box rest ih =>
    obtain ⟨⟨hnumber, hclosed⟩, hrest⟩ := openFrom_cons.mp hopen
    have hplace : (start ++ box :: rest)[start.length]? = some box := by simp
    have hloop := @ih (start ++ [(takeShares client.field count box).2]) (by simpa using hrest)
    simp only [List.length_cons, List.range'_succ, List.mapM_cons]
    rw [MailRoom.run_bind, run_receiveShares hplace hnumber hclosed, takeAll]
    simp only [List.length_append, List.length_singleton, List.append_assoc,
      List.singleton_append] at hloop
    revert hloop
    rcases takeShares client.field count box with ⟨shares | fault | _, box'⟩
    · intro hloop
      simp only [Exchange.goOn, List.set_append_right _ _ (Nat.le_refl _), Nat.sub_self,
        List.set_cons_zero] at hloop ⊢
      rw [MailRoom.run_bind, hloop]
      rcases takeAll client.field count rest with ⟨all | _ | _, rest'⟩ <;> rfl
    · intro _
      simp [Exchange.goOn]
    · intro _
      simp [Exchange.goOn]

theorem run_foldlM_receiveShares {γ : Type} {room : MailRoom} (hopen : room.IsOpen)
    (hengines : client.engines = room.boxes.length) (count : Nat)
    (step : γ → List (Residue client.field) → γ) (init : γ) (progress : Progress) :
    MailRoom.run ((List.range client.engines).foldlM
        (fun sums engine => do return step sums (← client.receiveShares engine count)) init)
        progress room =
      Exchange.goOn (((takeAll client.field count room.boxes).1, progress),
          { room with boxes := (takeAll client.field count room.boxes).2 })
        fun all progress' room' => ((.returned (all.foldl step init), progress'), room') := by
  have hloop := @run_mapM_receiveShares client [] room.boxes room.notices hopen count progress
  rw [foldlM_eq_mapM_bind, MailRoom.run_bind, hengines, List.range_eq_range']
  simp only [List.length_nil, List.nil_append] at hloop
  rw [hloop]
  rfl

theorem run_sumShares {room : MailRoom} (hopen : room.IsOpen)
    (hengines : client.engines = room.boxes.length) (count : Nat) (progress : Progress) :
    MailRoom.run (client.sumShares count) progress room =
      Exchange.goOn (((takeAll client.field count room.boxes).1, progress),
          { room with boxes := (takeAll client.field count room.boxes).2 })
        fun all progress' room' =>
          ((.returned (all.foldl (fun sums shares => sums.zipWith (· + ·) shares)
            (List.replicate count (Residue.zero client.field))), progress'), room') :=
  run_foldlM_receiveShares hopen hengines count _ _ progress

theorem run_sumShares_of_offers {room : MailRoom} (hopen : room.IsOpen)
    (hengines : client.engines = room.boxes.length) {count : Nat}
    (hoffers : ∀ box ∈ room.boxes, box.Offers client.field count 0) (progress : Progress) :
    MailRoom.run (client.sumShares count) progress room =
      ((.returned ((List.range count).map (summed client.field (room.boxes.map (message 0)))),
        progress), { room with boxes := room.boxes.map (skip 1) }) := by
  rw [run_sumShares hopen hengines, takeAll_of_offers hoffers]
  simp only [Exchange.goOn, foldl_shares]

theorem run_receiveOpening_of_offers {room : MailRoom} (hopen : room.IsOpen)
    (hengines : client.engines = room.boxes.length)
    (hoffers : ∀ box ∈ room.boxes, box.Offers client.field 3 0) (progress : Progress) :
    MailRoom.run client.receiveOpening progress room =
      if (Opening.summed client.field (room.boxes.map (message 0))).isValid then
        ((.returned (Opening.summed client.field (room.boxes.map (message 0))), progress),
          { room with boxes := room.boxes.map (skip 1) })
      else
        ((.failed (.violation .unauthenticated), progress),
          ⟨room.boxes.map (skip 1), room.notices ++ [.unauthenticated]⟩) := by
  have hsums := run_sumShares_of_offers hopen hengines hoffers progress
  generalize room.boxes.map (message 0) = payloads at hsums ⊢
  have hthree : (List.range 3).map (summed client.field payloads) =
      [(Opening.summed client.field payloads).output,
        (Opening.summed client.field payloads).blinding,
        (Opening.summed client.field payloads).product] := rfl
  unfold receiveOpening
  rw [MailRoom.run_bind_of_returned hsums, hthree]
  dsimp only
  split
  · rfl
  · rfl

end Client
end TreeParty
