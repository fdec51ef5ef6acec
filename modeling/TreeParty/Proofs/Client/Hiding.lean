import TreeParty.Proofs.Client.Inputs
import TreeParty.Proofs.Client.Offering
import TreeParty.Proofs.Sharing.Shift
import Mathlib
/-!
# What a broadcast hides

Any engine that keeps its shares to itself hides the private values: for every two lists of values,
a shift of that engine's shares turns the messages under which the one list is sent into the
messages under which the other is, one to one, and every engine receives the same frame in both
cases.
-/

set_option autoImplicit false

namespace TreeParty
namespace Client

open Mailbox MailRoom

variable {client : Client} {room : MailRoom} {payloads : List Bytes}

/-! ## Messages under which values are sent -/

/-- Whether the messages of all engines let `count` values be sent. -/
def Allow (F : FieldParams) (count : Nat) (payloads : List Bytes) : Prop :=
  (∀ payload ∈ payloads, HoldsElements F (3 * count) payload) ∧
    ∀ i < count, Triple.Agrees F payloads i

theorem run_sendElements_offering (hopen : room.IsOpen)
    (hengines : client.engines = room.boxes.length)
    (hlength : payloads.length = room.boxes.length) {values : List (Residue client.field)}
    (hvalues : values ≠ []) (hallow : Allow client.field values.length payloads)
    (progress : Progress) :
    MailRoom.run (client.sendElements (elements values)) progress (room.offering payloads) =
      ((.returned (), { progress with inputsSent := progress.inputsSent + values.length }),
        { room with
          boxes := room.boxes.map (deliver (maskedFrame client.field payloads values)) }) := by
  have hcount := (length_offering hlength).symm
  have hmessages := map_message_offering hlength
  have hagrees := hallow.2
  rw [← hmessages] at hagrees
  have hrun := run_sendElements_of_agrees (isOpen_offering hopen payloads) (hengines.trans hcount)
    hvalues ((offers_offering_iff hlength).mpr hallow.1) hagrees progress
  have hsplit : (room.offering payloads).boxes.map (fun box =>
        (box.skip 1).deliver (maskedFrame client.field payloads values)) =
      room.boxes.map (deliver (maskedFrame client.field payloads values)) := by
    rw [← map_skip_offering hlength, List.map_map]
    rfl
  rw [hmessages, hsplit] at hrun
  exact hrun

theorem sendElements_offering_iff (hopen : room.IsOpen)
    (hengines : client.engines = room.boxes.length)
    (hlength : payloads.length = room.boxes.length) {values : List (Residue client.field)}
    (hvalues : values ≠ []) (progress : Progress) :
    (MailRoom.run (client.sendElements (elements values)) progress
        (room.offering payloads)).1.1 = .returned () ↔
      Allow client.field values.length payloads := by
  constructor
  · intro hreturned
    by_contra hnot
    have hcount := (length_offering hlength).symm
    obtain ⟨ending, boxes, notices, hrun, hending, -⟩ := run_sendElements_of_refused
      (isOpen_offering hopen payloads) (hengines.trans hcount) hvalues
      (by rwa [map_message_offering hlength, offers_offering_iff hlength]) progress
    rw [hrun] at hreturned
    exact hending hreturned
  · intro hallow
    rw [run_sendElements_offering hopen hengines hlength hvalues hallow]

/-! ## Trading values against shares -/

variable {F : FieldParams} {engine : Nat} {values values' : List (Residue F)}

def numberAt (values : List (Residue F)) (i : Nat) : Int :=
  values[i]?.elim 0 fun value => value.val

/-- How much the `k`-th share of one engine is shifted to trade values for others: the first share
of a triple by the change of its value, the third by that times the sum of all second shares. -/
def tradeShift (values values' : List (Residue F)) (payloads : List Bytes) (k : Nat) : Int :=
  let change := numberAt values (k / 3) - numberAt values' (k / 3)
  match k % 3 with
  | 0 => change
  | 1 => 0
  | _ => change * (summed F payloads (3 * (k / 3) + 1)).val

/-- The messages of all engines after one of them traded values for others. -/
def trade (engine : Nat) (values values' : List (Residue F)) (payloads : List Bytes) :
    List Bytes :=
  payloads.modify engine
    (shiftMessage F (3 * values.length) (tradeShift values values' payloads))

theorem tradeShift_first (values values' : List (Residue F)) (payloads : List Bytes) (i : Nat) :
    tradeShift values values' payloads (3 * i) = numberAt values i - numberAt values' i := by
  have hmod : 3 * i % 3 = 0 := by omega
  have hdiv : 3 * i / 3 = i := by omega
  simp only [tradeShift, hmod, hdiv]

theorem tradeShift_second (values values' : List (Residue F)) (payloads : List Bytes) (i : Nat) :
    tradeShift values values' payloads (3 * i + 1) = 0 := by
  have hmod : (3 * i + 1) % 3 = 1 := by omega
  simp only [tradeShift, hmod]

theorem tradeShift_third (values values' : List (Residue F)) (payloads : List Bytes) (i : Nat) :
    tradeShift values values' payloads (3 * i + 2) =
      (numberAt values i - numberAt values' i) * (summed F payloads (3 * i + 1)).val := by
  have hmod : (3 * i + 2) % 3 = 2 := by omega
  have hdiv : (3 * i + 2) / 3 = i := by omega
  simp only [tradeShift, hmod, hdiv]

theorem numberAt_of_getElem? {i : Nat} {value : Residue F} (h : values[i]? = some value) :
    numberAt values i = value.val := by
  rw [numberAt, h]
  rfl

/-! The sums of all shares after a trade. -/

theorem summed_trade (hengine : engine < payloads.length) {k : Nat} (hk : k < 3 * values.length) :
    summed F (trade engine values values' payloads) k =
      Residue.ofInt F (shareSum F payloads k + tradeShift values values' payloads k) :=
  summed_modify hengine hk _

theorem summed_trade_second (hengine : engine < payloads.length) {i : Nat}
    (hi : i < values.length) :
    summed F (trade engine values values' payloads) (3 * i + 1) =
      summed F payloads (3 * i + 1) := by
  rw [summed_trade hengine (by omega), tradeShift_second, Int.add_zero]
  rfl

theorem agrees_iff {i : Nat} : Triple.Agrees F payloads i ↔
    summed F payloads (3 * i) * summed F payloads (3 * i + 1) = summed F payloads (3 * i + 2) := by
  rw [← Triple.isConsistent_summed, Triple.isConsistent, beq_iff_eq]
  rfl

theorem agrees_trade (hengine : engine < payloads.length) {i : Nat} (hi : i < values.length)
    (hagrees : Triple.Agrees F payloads i) :
    Triple.Agrees F (trade engine values values' payloads) i := by
  rw [agrees_iff] at hagrees ⊢
  rw [summed_trade_second hengine hi, summed_trade hengine (by omega),
    summed_trade hengine (by omega), tradeShift_first, tradeShift_third]
  generalize numberAt values i - numberAt values' i = change
  calc Residue.ofInt F (shareSum F payloads (3 * i) + change) * summed F payloads (3 * i + 1)
      = Residue.ofInt F ((shareSum F payloads (3 * i) + change) *
          (summed F payloads (3 * i + 1)).val) := by
        rw [Residue.ofInt_mul, Residue.ofInt_val]
    _ = summed F payloads (3 * i) * summed F payloads (3 * i + 1) +
          Residue.ofInt F (change * (summed F payloads (3 * i + 1)).val) := by
        rw [Int.add_mul, Residue.ofInt_add, Residue.ofInt_mul (shareSum _ _ _ : Int),
          Residue.ofInt_val]
        rfl
    _ = Residue.ofInt F (shareSum F payloads (3 * i + 2) +
          change * (summed F payloads (3 * i + 1)).val) := by
        rw [hagrees, Residue.ofInt_add]
        rfl

theorem masked_trade (hengine : engine < payloads.length)
    (hlength : values'.length = values.length) :
    masked F (trade engine values values' payloads) values' = masked F payloads values := by
  apply List.ext_getElem?
  intro i
  by_cases hi : i < values.length
  · have hvalue := List.getElem?_eq_getElem hi
    have hvalue' := List.getElem?_eq_getElem (hlength ▸ hi)
    have hnumbers : (values'[i].val : Int) + (shareSum F payloads (3 * i) +
        (values[i].val - values'[i].val)) = values[i].val + shareSum F payloads (3 * i) := by ring
    rw [getElem?_masked hvalue, getElem?_masked hvalue', summed_trade hengine (by omega),
      tradeShift_first, numberAt_of_getElem? hvalue, numberAt_of_getElem? hvalue']
    calc some (values'[i] + Residue.ofInt F (shareSum F payloads (3 * i) +
          ((values[i].val : Int) - values'[i].val)))
        = some (Residue.ofInt F (values'[i].val + (shareSum F payloads (3 * i) +
            (values[i].val - values'[i].val)))) := by
          rw [Residue.ofInt_add values'[i].val, Residue.ofInt_val]
      _ = some (values[i] + summed F payloads (3 * i)) := by
          rw [hnumbers, Residue.ofInt_add, Residue.ofInt_val]
          rfl
  · rw [List.getElem?_eq_none (by rw [length_masked]; omega),
      List.getElem?_eq_none (by rw [length_masked]; omega)]

theorem trade_trade (hengine : engine < payloads.length)
    (hlength : values'.length = values.length)
    (hholds : ∀ payload ∈ payloads, HoldsElements F (3 * values.length) payload) :
    trade engine values' values (trade engine values values' payloads) = payloads := by
  have hcancel : ∀ k < 3 * values.length, tradeShift values values' payloads k +
      tradeShift values' values (trade engine values values' payloads) k = 0 := by
    intro k hk
    obtain ⟨i, rfl | rfl | rfl⟩ : ∃ i, k = 3 * i ∨ k = 3 * i + 1 ∨ k = 3 * i + 2 :=
      ⟨k / 3, by omega⟩
    · rw [tradeShift_first, tradeShift_first]
      ring
    · rw [tradeShift_second, tradeShift_second]
      rfl
    · rw [tradeShift_third, tradeShift_third, summed_trade_second hengine (by omega)]
      ring
  apply List.ext_getElem?
  intro place
  rw [trade, hlength]
  by_cases hplace : engine = place
  · subst hplace
    have hitem := List.getElem?_eq_getElem hengine
    have hback := shiftMessage_cancel (hholds _ (List.getElem_mem hengine)) hcancel
    rw [List.getElem?_modify_eq, trade, List.getElem?_modify_eq, hitem]
    exact congrArg some hback
  · rw [List.getElem?_modify_ne _ _ hplace, trade, List.getElem?_modify_ne _ _ hplace]

theorem length_trade (engine : Nat) (values values' : List (Residue F)) (payloads : List Bytes) :
    (trade engine values values' payloads).length = payloads.length :=
  List.length_modify _ _ _

theorem allow_trade (hengine : engine < payloads.length)
    (hallow : Allow F values.length payloads) :
    Allow F values.length (trade engine values values' payloads) := by
  refine ⟨fun payload hpayload => ?_, fun i hi => agrees_trade hengine hi (hallow.2 i hi)⟩
  obtain ⟨place, hplace⟩ := List.getElem?_of_mem hpayload
  by_cases hsame : engine = place
  · subst hsame
    rw [trade, List.getElem?_modify_eq, List.getElem?_eq_getElem hengine] at hplace
    cases hplace
    exact holdsElements_shiftMessage _ _ _
  · rw [trade, List.getElem?_modify_ne _ _ hsame] at hplace
    exact hallow.1 payload (List.mem_of_getElem? hplace)

theorem trade_set (hengine : engine < payloads.length) (own : Bytes) :
    trade engine values values' (payloads.set engine own) = payloads.set engine
      (shiftMessage F (3 * values.length)
        (tradeShift values values' (payloads.set engine own)) own) := by
  rw [trade, List.modify_eq_set, List.getElem?_set_self hengine, Option.getD_some, List.set_set]

/-! ## Hiding -/

/-- The messages of all engines under which a call sends the values. -/
def sendingMessages (client : Client) (values : List (Residue client.field)) (room : MailRoom)
    (progress : Progress) : Set (List Bytes) :=
  { payloads | payloads.length = room.boxes.length ∧
    (MailRoom.run (client.sendElements (elements values)) progress (room.offering payloads)).1.1 =
      .returned () }

/-- The messages of one engine under which a call sends the values as a given frame, where those of
the others are fixed. -/
def framingMessages (client : Client) (values : List (Residue client.field)) (room : MailRoom)
    (progress : Progress) (engine : Nat) (payloads : List Bytes) (frame : Bytes) : Set Bytes :=
  { own | payloads.set engine own ∈ client.sendingMessages values room progress ∧
    (MailRoom.run (client.sendElements (elements values)) progress
      (room.offering (payloads.set engine own))).2.boxes = room.boxes.map (deliver frame) }

theorem mem_sendingMessages_iff (hopen : room.IsOpen)
    (hengines : client.engines = room.boxes.length) {values : List (Residue client.field)}
    (hvalues : values ≠ []) {progress : Progress} :
    payloads ∈ client.sendingMessages values room progress ↔
      payloads.length = room.boxes.length ∧ Allow client.field values.length payloads :=
  and_congr_right fun hlength =>
    sendElements_offering_iff hopen hengines hlength hvalues progress

section

variable {values values' : List (Residue client.field)} {progress : Progress}
  (hopen : room.IsOpen) (hengines : client.engines = room.boxes.length) (hvalues : values ≠ [])
  (hlength : values'.length = values.length) (hengine : engine < room.boxes.length)

include hopen hengines hvalues hlength hengine

theorem trade_mem_sendingMessages (hmem : payloads ∈ client.sendingMessages values room progress) :
    trade engine values values' payloads ∈ client.sendingMessages values' room progress := by
  have hvalues' := List.ne_nil_of_length_pos (hlength ▸ List.length_pos_of_ne_nil hvalues)
  obtain ⟨hcount, hallow⟩ := (mem_sendingMessages_iff hopen hengines hvalues).mp hmem
  refine (mem_sendingMessages_iff hopen hengines hvalues').mpr ⟨?_, ?_⟩
  · rw [length_trade, hcount]
  · rw [hlength]
    exact allow_trade (hcount ▸ hengine) hallow

theorem trade_trade_of_mem (hmem : payloads ∈ client.sendingMessages values room progress) :
    trade engine values' values (trade engine values values' payloads) = payloads := by
  obtain ⟨hcount, hallow⟩ := (mem_sendingMessages_iff hopen hengines hvalues).mp hmem
  exact trade_trade (hcount ▸ hengine) hlength hallow.1

theorem run_sendElements_trade (hmem : payloads ∈ client.sendingMessages values room progress) :
    MailRoom.run (client.sendElements (elements values')) progress
        (room.offering (trade engine values values' payloads)) =
      MailRoom.run (client.sendElements (elements values)) progress (room.offering payloads) := by
  have hvalues' := List.ne_nil_of_length_pos (hlength ▸ List.length_pos_of_ne_nil hvalues)
  have htraded := trade_mem_sendingMessages hopen hengines hvalues hlength hengine hmem
  obtain ⟨hcount, hallow⟩ := (mem_sendingMessages_iff hopen hengines hvalues).mp hmem
  obtain ⟨hcount', hallow'⟩ := (mem_sendingMessages_iff hopen hengines hvalues').mp htraded
  rw [run_sendElements_offering hopen hengines hcount hvalues hallow,
    run_sendElements_offering hopen hengines hcount' hvalues' hallow', maskedFrame, maskedFrame,
    masked_trade (hcount ▸ hengine) hlength, hlength]

/-- Trading embeds the messages of one engine that frame the one list into those that frame the
other. -/
theorem encard_framingMessages_le (payloads : List Bytes) (frame : Bytes) :
    (client.framingMessages values room progress engine payloads frame).encard ≤
      (client.framingMessages values' room progress engine payloads frame).encard := by
  let shifted (own : Bytes) := shiftMessage client.field (3 * values.length)
    (tradeShift values values' (payloads.set engine own)) own
  have hset : ∀ own ∈ client.framingMessages values room progress engine payloads frame,
      engine < payloads.length ∧ payloads.set engine (shifted own) =
        trade engine values values' (payloads.set engine own) := by
    rintro own ⟨⟨hcount, -⟩, -⟩
    have hplace : engine < payloads.length := by
      rw [List.length_set] at hcount
      rwa [hcount]
    exact ⟨hplace, (trade_set hplace own).symm⟩
  apply Set.encard_le_encard_of_injOn (f := shifted)
  · intro own hown
    have htraded := (hset own hown).2
    obtain ⟨hmem, hframe⟩ := hown
    constructor
    · rw [htraded]
      exact trade_mem_sendingMessages hopen hengines hvalues hlength hengine hmem
    · rw [htraded, run_sendElements_trade hopen hengines hvalues hlength hengine hmem]
      exact hframe
  · intro own hown other hother hsame
    obtain ⟨hplace, htraded⟩ := hset own hown
    have hback := trade_trade_of_mem hopen hengines hvalues hlength hengine hown.1
    rw [← htraded, hsame, (hset other hother).2,
      trade_trade_of_mem hopen hengines hvalues hlength hengine hother.1] at hback
    have hitems := congrArg (fun found : List Bytes => found[engine]?) hback
    simp only [List.getElem?_set_self hplace] at hitems
    exact (Option.some.inj hitems).symm

end

/-- Two lists of values that the frame on the wire and the messages of all engines but one do not
tell apart: what makes the one list travel as a frame can be traded for what makes the other do
so. -/
structure AreHidden (client : Client) (values values' : List (Residue client.field))
    (room : MailRoom) (progress : Progress) (engine : Nat) : Prop where
  bijection : Set.BijOn (trade engine values values')
    (client.sendingMessages values room progress) (client.sendingMessages values' room progress)
  same_run : ∀ payloads ∈ client.sendingMessages values room progress,
    MailRoom.run (client.sendElements (elements values')) progress
        (room.offering (trade engine values values' payloads)) =
      MailRoom.run (client.sendElements (elements values)) progress (room.offering payloads)
  /-- Whatever the other engines hold, a frame speaks for neither list. -/
  same_count : ∀ payloads frame,
    (client.framingMessages values room progress engine payloads frame).encard =
      (client.framingMessages values' room progress engine payloads frame).encard

theorem sendElements_hides_values {client : Client} {room : MailRoom} (hopen : room.IsOpen)
    (hengines : client.engines = room.boxes.length) {values values' : List (Residue client.field)}
    (hvalues : values ≠ []) (hlength : values'.length = values.length) {engine : Nat}
    (hengine : engine < room.boxes.length) (progress : Progress) :
    AreHidden client values values' room progress engine := by
  have hvalues' := List.ne_nil_of_length_pos (hlength ▸ List.length_pos_of_ne_nil hvalues)
  constructor
  case bijection =>
    have hinverse : Set.InvOn (trade engine values' values) (trade engine values values')
        (client.sendingMessages values room progress)
        (client.sendingMessages values' room progress) :=
      ⟨fun _ => trade_trade_of_mem hopen hengines hvalues hlength hengine,
        fun _ => trade_trade_of_mem hopen hengines hvalues' hlength.symm hengine⟩
    exact hinverse.bijOn
      (fun _ => trade_mem_sendingMessages hopen hengines hvalues hlength hengine)
      (fun _ => trade_mem_sendingMessages hopen hengines hvalues' hlength.symm hengine)
  case same_run =>
    exact fun _ => run_sendElements_trade hopen hengines hvalues hlength hengine
  case same_count =>
    exact fun payloads frame => le_antisymm
      (encard_framingMessages_le hopen hengines hvalues hlength hengine payloads frame)
      (encard_framingMessages_le hopen hengines hvalues' hlength.symm hengine payloads frame)

/-- Two engines hold `5 * 6 = 4` modulo 13 between them. The second of them trades 7 for 11 by
holding 0, 4 and 3 in place of 4, 4 and 1. -/
theorem sendElements_hides_values_two_engines :
    AreHidden ⟨.thirteen, 2, .places 8⟩ [Residue.ofInt .thirteen 7] [Residue.ofInt .thirteen 11]
        ⟨holding .thirteen [[[0]], []], []⟩ ⟨3, []⟩ 1 ∧
      [numbersMessage .thirteen [1, 2, 3], numbersMessage .thirteen [4, 4, 1]] ∈
        sendingMessages ⟨.thirteen, 2, .places 8⟩ [Residue.ofInt .thirteen 7]
          ⟨holding .thirteen [[[0]], []], []⟩ ⟨3, []⟩ ∧
      trade 1 [Residue.ofInt .thirteen 7] [Residue.ofInt .thirteen 11]
          [numbersMessage .thirteen [1, 2, 3], numbersMessage .thirteen [4, 4, 1]] =
        [numbersMessage .thirteen [1, 2, 3], numbersMessage .thirteen [0, 4, 3]] := by
  refine ⟨?_, ⟨rfl, ?_⟩, ?_⟩
  · have hopen := isOpen_holding .thirteen [[[0]], []] []
    have hengines : 2 = (holding .thirteen [[[0]], []]).length := rfl
    have hvalues : [Residue.ofInt .thirteen 7] ≠ [] := List.cons_ne_nil _ _
    have hlength : [Residue.ofInt .thirteen 11].length = [Residue.ofInt .thirteen 7].length := rfl
    have hengine : 1 < (holding .thirteen [[[0]], []]).length := by decide
    exact @sendElements_hides_values ⟨.thirteen, 2, .places 8⟩ _ hopen hengines _ _ hvalues hlength
      1 hengine ⟨3, []⟩
  · cbv
  · cbv

end Client
end TreeParty
