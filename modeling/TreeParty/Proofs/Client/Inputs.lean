import TreeParty.Proofs.Client.Shares
import Mathlib
/-!
# Sending private values

What `sendElements` does to open mailboxes. The triples of all engines are gathered and checked
before anything is sent, so that a call sends the same frame to every engine or nothing to any.
-/

set_option autoImplicit false

namespace TreeParty
namespace Client

open Mailbox

variable {client : Client} {F : FieldParams}

/-! ## Masks -/

/-- Values masked by the first components of the triples in the messages of all engines. -/
def masked (F : FieldParams) (payloads : List Bytes) (values : List (Residue F)) :
    List (Residue F) :=
  values.zipWith (fun value i => value + summed F payloads (3 * i)) (List.range values.length)

@[simp] theorem length_masked (payloads : List Bytes) (values : List (Residue F)) :
    (masked F payloads values).length = values.length := by
  simp [masked]

theorem getElem?_masked {payloads : List Bytes} {values : List (Residue F)} {i : Nat}
    {value : Residue F} (hvalue : values[i]? = some value) :
    (masked F payloads values)[i]? = some (value + summed F payloads (3 * i)) := by
  have hlt : i < values.length := (List.getElem?_eq_some_iff.mp hvalue).1
  have hitem : values[i] = value := (List.getElem?_eq_some_iff.mp hvalue).2
  simp [masked, hlt, hitem]

theorem mask_elements (values : List (Residue F)) (triples : List (Triple F)) :
    mask (elements values) triples = .ok (values.zipWith (fun v t => v + t.a) triples) := by
  induction values generalizing triples with
  | nil => rfl
  | cons value rest ih =>
    cases triples with
    | nil => rfl
    | cons triple triples =>
      have hrest := ih triples
      simp only [mask, elements] at hrest
      simp only [mask, elements, List.map_cons, List.zip_cons_cons, List.mapM_cons, hrest,
        Residue.into?_self]
      rfl

theorem mask_summed (payloads : List Bytes) (values : List (Residue F)) :
    mask (elements values) ((List.range values.length).map (Triple.summed F payloads)) =
      .ok (masked F payloads values) := by
  rw [mask_elements, List.zipWith_map_right]
  rfl

/-! ## The triples -/

theorem run_gatherTriples {room : MailRoom} (hopen : room.IsOpen)
    (hengines : client.engines = room.boxes.length) (count : Nat) (progress : Progress) :
    MailRoom.run (client.gatherTriples count) progress room =
      Exchange.goOn (((takeAll client.field (3 * count) room.boxes).1, progress),
          { room with boxes := (takeAll client.field (3 * count) room.boxes).2 })
        fun all progress' room' =>
          ((.returned (all.foldl (fun sums shares => sums.zipWith Triple.accumulate
            (Triple.ofShares shares)) (List.replicate count Triple.zero)), progress'), room') :=
  run_foldlM_receiveShares hopen hengines (3 * count) _ _ progress

theorem run_gatherTriples_of_offers {room : MailRoom} (hopen : room.IsOpen)
    (hengines : client.engines = room.boxes.length) {count : Nat}
    (hoffers : ∀ box ∈ room.boxes, box.Offers client.field (3 * count) 0) (progress : Progress) :
    MailRoom.run (client.gatherTriples count) progress room =
      ((.returned ((List.range count).map
          (Triple.summed client.field (room.boxes.map (message 0)))), progress),
        { room with boxes := room.boxes.map (skip 1) }) := by
  rw [run_gatherTriples hopen hengines, takeAll_of_offers hoffers]
  simp only [Exchange.goOn, Triple.foldl_triples]

/-! ## One call -/

def maskedFrame (F : FieldParams) (payloads : List Bytes) (values : List (Residue F)) : Bytes :=
  packElements (masked F payloads values)

theorem run_sendElements_nil (progress : Progress) (room : MailRoom) :
    MailRoom.run (client.sendElements []) progress room = ((.returned (), progress), room) := rfl

theorem length_elements (values : List (Residue F)) : (elements values).length = values.length :=
  List.length_map _

/-- A call with values of any fields: the triples are checked before the values are looked at. -/
theorem sendElements_of_pos {values : List Element} (hvalues : 0 < values.length) :
    client.sendElements values = (do
      let triples ← client.gatherTriples values.length
      match Triple.firstInconsistent? triples with
      | some position =>
        .note (.inconsistentTriple position) (.fail (.violation (.inconsistentTriple position)))
      | none =>
        let masked ← mask values triples
        Exchange.sendAll client.engines (packElements masked)
        .advance (fun p => { p with inputsSent := p.inputsSent + values.length }) (.done ())) := by
  have hempty : ¬ values.isEmpty = true := by
    rw [List.isEmpty_iff]
    exact List.ne_nil_of_length_pos hvalues
  exact if_neg hempty

theorem sendElements_of_ne_nil {values : List (Residue client.field)} (hvalues : values ≠ []) :
    client.sendElements (elements values) = (do
      let triples ← client.gatherTriples values.length
      match Triple.firstInconsistent? triples with
      | some position =>
        .note (.inconsistentTriple position) (.fail (.violation (.inconsistentTriple position)))
      | none =>
        let masked ← mask (elements values) triples
        Exchange.sendAll client.engines (packElements masked)
        .advance (fun p => { p with inputsSent := p.inputsSent + values.length }) (.done ())) := by
  have hpos : 0 < (elements values).length := by
    rw [length_elements]
    exact List.length_pos_of_ne_nil hvalues
  rw [sendElements_of_pos hpos]
  simp only [length_elements]

theorem run_sendElements_of_agrees {room : MailRoom} (hopen : room.IsOpen)
    (hengines : client.engines = room.boxes.length) {values : List (Residue client.field)}
    (hvalues : values ≠ [])
    (hoffers : ∀ box ∈ room.boxes, box.Offers client.field (3 * values.length) 0)
    (hagrees : ∀ i < values.length,
      Triple.Agrees client.field (room.boxes.map (message 0)) i) (progress : Progress) :
    MailRoom.run (client.sendElements (elements values)) progress room =
      ((.returned (), { progress with inputsSent := progress.inputsSent + values.length }),
        { room with
          boxes := room.boxes.map fun box =>
            (box.skip 1).deliver (maskedFrame client.field (room.boxes.map (message 0)) values) })
      := by
  have hskipped : MailRoom.IsOpen { room with boxes := room.boxes.map (skip 1) } :=
    OpenFrom.map hopen (fun _ => rfl) fun _ => rfl
  have hsend := MailRoom.run_sendAll hskipped
    (maskedFrame client.field (room.boxes.map (message 0)) values) progress
  simp only [List.length_map, ← hengines, maskedFrame] at hsend
  rw [sendElements_of_ne_nil hvalues,
    MailRoom.run_bind_of_returned (run_gatherTriples_of_offers hopen hengines hoffers progress)]
  simp only [Triple.firstInconsistent?_eq_none_iff.mpr hagrees, mask_summed]
  rw [MailRoom.run_bind_of_returned (MailRoom.run_ofResult _ _ _),
    MailRoom.run_bind_of_returned hsend, List.map_map]
  rfl

theorem run_sendElements_of_inconsistent {room : MailRoom} (hopen : room.IsOpen)
    (hengines : client.engines = room.boxes.length) {values : List Element} {count : Nat}
    (hcount : values.length = count)
    (hoffers : ∀ box ∈ room.boxes, box.Offers client.field (3 * count) 0) {i : Nat}
    (hi : i < count)
    (hbad : ¬ Triple.Agrees client.field (room.boxes.map (message 0)) i)
    (hbefore : ∀ k < i, Triple.Agrees client.field (room.boxes.map (message 0)) k)
    (progress : Progress) :
    MailRoom.run (client.sendElements values) progress room =
      ((.failed (.violation (.inconsistentTriple i)), progress),
        ⟨room.boxes.map (skip 1), room.notices ++ [.inconsistentTriple i]⟩) := by
  subst hcount
  rw [sendElements_of_pos (Nat.zero_lt_of_lt hi),
    MailRoom.run_bind_of_returned (run_gatherTriples_of_offers hopen hengines hoffers progress)]
  simp only [Triple.firstInconsistent?_eq_some_iff.mpr ⟨hi, hbad, hbefore⟩]
  rfl

/-! A mailbox without shares for the call ends it before anything is sent. -/

theorem run_sendElements_of_failed {room : MailRoom} (hopen : room.IsOpen)
    (hengines : client.engines = room.boxes.length) {values : List (Residue client.field)}
    (hvalues : values ≠ []) {fault : Fault} {boxes : List Mailbox}
    (hfailed : takeAll client.field (3 * values.length) room.boxes = (.failed fault, boxes))
    (progress : Progress) :
    MailRoom.run (client.sendElements (elements values)) progress room =
      ((.failed fault, progress), { room with boxes := boxes }) := by
  rw [sendElements_of_ne_nil hvalues, MailRoom.run_bind, run_gatherTriples hopen hengines, hfailed]
  rfl

theorem run_sendElements_of_waiting {room : MailRoom} (hopen : room.IsOpen)
    (hengines : client.engines = room.boxes.length) {values : List (Residue client.field)}
    (hvalues : values ≠ []) {boxes : List Mailbox}
    (hwaiting : takeAll client.field (3 * values.length) room.boxes = (.waiting, boxes))
    (progress : Progress) :
    MailRoom.run (client.sendElements (elements values)) progress room =
      ((.waiting, progress), { room with boxes := boxes }) := by
  rw [sendElements_of_ne_nil hvalues, MailRoom.run_bind, run_gatherTriples hopen hengines, hwaiting]
  rfl

/-! ## All or nothing -/

theorem run_sendElements_of_refused {room : MailRoom} (hopen : room.IsOpen)
    (hengines : client.engines = room.boxes.length) {values : List (Residue client.field)}
    (hvalues : values ≠ [])
    (hrefused : ¬ ((∀ box ∈ room.boxes, box.Offers client.field (3 * values.length) 0) ∧
      ∀ i < values.length, Triple.Agrees client.field (room.boxes.map (message 0)) i))
    (progress : Progress) :
    ∃ ending boxes notices,
      MailRoom.run (client.sendElements (elements values)) progress room =
        ((ending, progress), ⟨boxes, notices⟩) ∧
      ending ≠ .returned () ∧ boxes.map outbox = room.boxes.map outbox := by
  by_cases hoffers : ∀ box ∈ room.boxes, box.Offers client.field (3 * values.length) 0
  · cases hfirst : Triple.firstInconsistent? ((List.range values.length).map
        (Triple.summed client.field (room.boxes.map (message 0)))) with
    | none => exact absurd ⟨hoffers, Triple.firstInconsistent?_eq_none_iff.mp hfirst⟩ hrefused
    | some i =>
      obtain ⟨hi, hbad, hbefore⟩ := Triple.firstInconsistent?_eq_some_iff.mp hfirst
      refine ⟨_, _, _, run_sendElements_of_inconsistent hopen hengines
        (length_elements values) hoffers hi hbad hbefore progress, ?_, ?_⟩
      · intro hending
        cases hending
      · rw [List.map_map]
        rfl
  · have houtbox := map_outbox_takeAll client.field (3 * values.length) room.boxes
    cases htaken : takeAll client.field (3 * values.length) room.boxes with
    | mk ending boxes =>
      rw [htaken] at houtbox
      cases ending with
      | returned all => exact absurd (offers_of_takeAll (congrArg Prod.fst htaken)) hoffers
      | failed fault =>
        exact ⟨_, _, _, run_sendElements_of_failed hopen hengines hvalues htaken progress,
          nofun, houtbox⟩
      | waiting =>
        exact ⟨_, _, _, run_sendElements_of_waiting hopen hengines hvalues htaken progress,
          nofun, houtbox⟩

/-- How a call that sends private values over some mailboxes may end. Mailboxes are split as
`good ++ bad :: rest` to speak of the first one, at place `good.length`, that has no shares for the
call. -/
structure IsAllOrNothing (F : FieldParams) (values : List (Residue F)) (boxes : List Mailbox)
    (progress : Progress) (left : (Ending Unit × Progress) × MailRoom) : Prop where
  returned_iff : left.1.1 = .returned () ↔
    (∀ box ∈ boxes, box.Offers F (3 * values.length) 0) ∧
      ∀ i < values.length, Triple.Agrees F (boxes.map (message 0)) i
  sent : left.1.1 = .returned () → ∃ frame : Bytes,
    frame.length = values.length * F.elementBytes ∧
    left.1.2 = { progress with inputsSent := progress.inputsSent + values.length } ∧
    left.2.boxes = boxes.map fun box => (box.skip 1).deliver frame
  empty : ∀ good bad rest, boxes = good ++ bad :: rest →
    (∀ box ∈ good, box.Offers F (3 * values.length) 0) → bad.inbox = [] →
    left.1.1 = .waiting ∧ left.2.boxes = good.map (skip 1) ++ bad :: rest
  dropped : ∀ good bad rest, boxes = good ++ bad :: rest →
    (∀ box ∈ good, box.Offers F (3 * values.length) 0) → bad.inbox.head? = some none →
    left.1.1 = .failed (.transport (.dropped good.length)) ∧
      left.2.boxes = (good ++ [bad]).map (skip 1) ++ rest
  malformed : ∀ good bad rest payload, boxes = good ++ bad :: rest →
    (∀ box ∈ good, box.Offers F (3 * values.length) 0) →
    bad.inbox.head? = some (some payload) → ¬ HoldsElements F (3 * values.length) payload →
    (∃ fault, left.1.1 = .failed (.wire fault)) ∧
      left.2.boxes = (good ++ [bad]).map (skip 1) ++ rest
  inconsistent : (∀ box ∈ boxes, box.Offers F (3 * values.length) 0) →
    ∀ i < values.length, ¬ Triple.Agrees F (boxes.map (message 0)) i →
    (∀ k < i, Triple.Agrees F (boxes.map (message 0)) k) →
    left.1.1 = .failed (.violation (.inconsistentTriple i)) ∧ left.2.boxes = boxes.map (skip 1)
  nothing_sent : left.1.1 ≠ .returned () →
    left.1.2 = progress ∧ left.2.boxes.map outbox = boxes.map outbox

theorem sendElements_isAllOrNothing {room : MailRoom} (hopen : room.IsOpen)
    (hengines : client.engines = room.boxes.length) {values : List (Residue client.field)}
    (hvalues : values ≠ []) (progress : Progress) :
    IsAllOrNothing client.field values room.boxes progress
      (MailRoom.run (client.sendElements (elements values)) progress room) := by
  have hagrees := fun hoffers hconsistent =>
    run_sendElements_of_agrees hopen hengines hvalues hoffers hconsistent progress
  have hrefused := fun hbad => run_sendElements_of_refused hopen hengines hvalues hbad progress
  have hreturned :
      (MailRoom.run (client.sendElements (elements values)) progress room).1.1 = .returned () →
      (∀ box ∈ room.boxes, box.Offers client.field (3 * values.length) 0) ∧
        ∀ i < values.length, Triple.Agrees client.field (room.boxes.map (message 0)) i := by
    intro hreturned
    by_contra hnot
    obtain ⟨ending, boxes, notices, hrun, hending, -⟩ := hrefused hnot
    rw [hrun] at hreturned
    exact hending hreturned
  constructor
  case returned_iff =>
    refine ⟨hreturned, fun ⟨hoffers, hconsistent⟩ => ?_⟩
    rw [hagrees hoffers hconsistent]
  case sent =>
    intro h
    obtain ⟨hoffers, hconsistent⟩ := hreturned h
    rw [hagrees hoffers hconsistent]
    refine ⟨_, ?_, rfl, rfl⟩
    rw [maskedFrame, length_packElements, length_masked]
  case empty =>
    intro good bad rest hboxes hgood hempty
    have htaken := takeAll_of_waiting hgood hempty rest
    rw [← hboxes] at htaken
    rw [run_sendElements_of_waiting hopen hengines hvalues htaken]
    exact ⟨rfl, rfl⟩
  case dropped =>
    intro good bad rest hboxes hgood hdropped
    have hnumber : bad.engine = good.length := by
      have hbad := (hopen good.length bad (by simp [hboxes])).1
      rwa [Nat.zero_add] at hbad
    have htaken := takeAll_of_failed hgood
      (congrArg Prod.fst (takeShares_of_dropped hdropped)) rest
    rw [← hboxes] at htaken
    rw [run_sendElements_of_failed hopen hengines hvalues htaken, hnumber]
    exact ⟨rfl, rfl⟩
  case malformed =>
    intro good bad rest payload hboxes hgood hhead hbad
    obtain ⟨fault, hfault⟩ := takeShares_of_malformed hhead hbad
    have htaken := takeAll_of_failed hgood (congrArg Prod.fst hfault) rest
    rw [← hboxes] at htaken
    rw [run_sendElements_of_failed hopen hengines hvalues htaken]
    exact ⟨⟨fault, rfl⟩, rfl⟩
  case inconsistent =>
    intro hoffers i hi hbad hbefore
    rw [run_sendElements_of_inconsistent hopen hengines (length_elements values) hoffers hi hbad
      hbefore]
    exact ⟨rfl, rfl⟩
  case nothing_sent =>
    intro hnot
    have hbad := fun h => hnot (by rw [hagrees (And.left h) (And.right h)])
    obtain ⟨ending, boxes, notices, hrun, -, houtbox⟩ := hrefused hbad
    rw [hrun]
    exact ⟨rfl, houtbox⟩

/-- Two engines hold `5 * 6 = 4` modulo 13 between them, so that 7 travels as 12. -/
theorem sendElements_isAllOrNothing_two_engines :
    IsAllOrNothing .thirteen [Residue.ofInt .thirteen 7]
        (holding .thirteen [[[1, 2, 3], [0]], [[4, 4, 1]]]) ⟨3, []⟩
        (MailRoom.run
          (sendElements ⟨.thirteen, 2, .places 8⟩ (elements [Residue.ofInt .thirteen 7]))
          ⟨3, []⟩ ⟨holding .thirteen [[[1, 2, 3], [0]], [[4, 4, 1]]], []⟩) ∧
      MailRoom.run (sendElements ⟨.thirteen, 2, .places 8⟩ (elements [Residue.ofInt .thirteen 7]))
          ⟨3, []⟩ ⟨holding .thirteen [[[1, 2, 3], [0]], [[4, 4, 1]]], []⟩ =
        ((.returned (), ⟨4, []⟩),
          ⟨(holding .thirteen [[[0]], []]).map (deliver (numbersMessage .thirteen [12])), []⟩) := by
  constructor
  · have hopen := isOpen_holding .thirteen [[[1, 2, 3], [0]], [[4, 4, 1]]] []
    have hengines : 2 = (holding .thirteen [[[1, 2, 3], [0]], [[4, 4, 1]]]).length := rfl
    have hvalues : [Residue.ofInt .thirteen 7] ≠ [] := List.cons_ne_nil _ _
    exact @sendElements_isAllOrNothing ⟨.thirteen, 2, .places 8⟩ _ hopen hengines _ hvalues ⟨3, []⟩
  · cbv

end Client
end TreeParty
