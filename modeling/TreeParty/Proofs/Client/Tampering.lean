import TreeParty.Proofs.Client.Hiding
import TreeParty.Proofs.Client.Results
/-!
# Tampering

Shares can be altered by any of the engines so that their messages stay well formed. Modulo a prime
a residue other than zero cancels, so that a triple in which one sum has changed is no longer
consistent unless the other factor is zero. Whoever moves one number of an opening without knowing
that its factor is zero is found out, and so is whoever moves one number of a triple.
-/

set_option autoImplicit false

namespace TreeParty

variable {F : FieldParams}

theorem Residue.eq_of_mul_eq_mul_right (hprime : F.prime.Prime) {x y z : Residue F}
    (hz : z ≠ zero F) (h : x * z = y * z) : x = y := by
  have hmod : x.val * z.val ≡ y.val * z.val [MOD F.prime] := by
    have hval := congrArg Fin.val h
    rwa [Fin.val_mul, Fin.val_mul] at hval
  have hnonzero : z.val ≠ 0 := fun hzero => hz (Fin.ext hzero)
  have hcoprime : F.prime.Coprime z.val := Nat.coprime_of_lt_prime hnonzero z.isLt hprime
  exact Fin.ext ((Nat.ModEq.cancel_right_of_coprime hcoprime hmod).eq_of_lt_of_lt x.isLt y.isLt)

/-! ## Triples with one other number -/

namespace Triple

/-- Whether just one number of a triple is another, a factor only where the other is not zero. -/
inductive AlteredOnce (t : Triple F) : Triple F → Prop where
  | product {c : Residue F} (hc : c ≠ t.c) : AlteredOnce t { t with c := c }
  | left {a : Residue F} (ha : a ≠ t.a) (hb : t.b ≠ Residue.zero F) :
    AlteredOnce t { t with a := a }
  | right {b : Residue F} (hb : b ≠ t.b) (ha : t.a ≠ Residue.zero F) :
    AlteredOnce t { t with b := b }

theorem isConsistent_iff {t : Triple F} : t.isConsistent = true ↔ t.a * t.b = t.c := beq_iff_eq

theorem AlteredOnce.not_isConsistent (hprime : F.prime.Prime) {t t' : Triple F}
    (haltered : t.AlteredOnce t') (hconsistent : t.isConsistent = true) :
    ¬ t'.isConsistent = true := by
  rw [isConsistent_iff] at hconsistent ⊢
  intro hother
  cases haltered with
  | product hc => exact hc (hother.symm.trans hconsistent)
  | @left a ha hb =>
    apply ha
    apply Residue.eq_of_mul_eq_mul_right hprime hb
    calc a * t.b = t.c := hother
      _ = t.a * t.b := hconsistent.symm
  | @right b hb ha =>
    apply hb
    apply Residue.eq_of_mul_eq_mul_right hprime ha
    calc b * t.a = t.a * b := Fin.mul_comm b t.a
      _ = t.c := hother
      _ = t.a * t.b := hconsistent.symm
      _ = t.b * t.a := Fin.mul_comm t.a t.b

end Triple

namespace Client

open Mailbox MailRoom

variable {client : Client} {room : MailRoom} {honest altered : List Bytes}

/-! ## Detection -/

theorem run_sendElements_offering_of_inconsistent (hopen : room.IsOpen)
    (hengines : client.engines = room.boxes.length) {payloads : List Bytes}
    (hlength : payloads.length = room.boxes.length) {values : List Element}
    (hholds : ∀ payload ∈ payloads, HoldsElements client.field (3 * values.length) payload)
    {i : Nat} (hi : i < values.length) (hbad : ¬ Triple.Agrees client.field payloads i)
    (hbefore : ∀ k < i, Triple.Agrees client.field payloads k) (progress : Progress) :
    MailRoom.run (client.sendElements values) progress (room.offering payloads) =
      ((.failed (.violation (.inconsistentTriple i)), progress),
        { room with notices := room.notices ++ [.inconsistentTriple i] }) := by
  have hcount := (length_offering hlength).symm
  rw [← map_message_offering hlength] at hbad hbefore
  have hrun := run_sendElements_of_inconsistent (isOpen_offering hopen payloads)
    (hengines.trans hcount) rfl ((offers_offering_iff hlength).mpr hholds) hi hbad hbefore progress
  rw [map_skip_offering hlength] at hrun
  exact hrun

/-- Whether a client finds out that messages, whichever of the engines sent them, are not the honest
ones where one sum has changed. -/
structure DetectsTampering (client : Client) (room : MailRoom) (progress : Progress)
    (honest altered : List Bytes) : Prop where
  opening : (∀ payload ∈ altered, HoldsElements client.field 3 payload) →
    (Opening.summed client.field honest).isValid = true →
    (Triple.summed client.field honest 0).AlteredOnce (Triple.summed client.field altered 0) →
    MailRoom.run client.receiveOpening progress (room.offering altered) =
      ((.failed (.violation .unauthenticated), progress),
        { room with notices := room.notices ++ [.unauthenticated] })
  /-- The first triple that has changed is named, and nothing is sent. -/
  inputs : ∀ (values : List Element) (i : Nat), i < values.length →
    Allow client.field values.length honest →
    (∀ payload ∈ altered, HoldsElements client.field (3 * values.length) payload) →
    (∀ k < i, Triple.summed client.field altered k = Triple.summed client.field honest k) →
    (Triple.summed client.field honest i).AlteredOnce (Triple.summed client.field altered i) →
    MailRoom.run (client.sendElements values) progress (room.offering altered) =
      ((.failed (.violation (.inconsistentTriple i)), progress),
        { room with notices := room.notices ++ [.inconsistentTriple i] })

theorem tampering_isDetected (hprime : client.field.prime.Prime) (hopen : room.IsOpen)
    (hengines : client.engines = room.boxes.length)
    (hlength : altered.length = room.boxes.length) (progress : Progress) :
    DetectsTampering client room progress honest altered := by
  constructor
  case opening =>
    intro hholds hvalid haltered
    have hbroken := haltered.not_isConsistent hprime hvalid
    rw [run_receiveOpening_offering hopen hengines hlength hholds]
    exact if_neg hbroken
  case inputs =>
    intro values i hi hallow hholds hbefore haltered
    -- The triples before have the honest sums, so that the first inconsistent one is at `i`.
    have hconsistent := Triple.isConsistent_summed.mpr (hallow.2 i hi)
    have hbroken := haltered.not_isConsistent hprime hconsistent
    rw [Triple.isConsistent_summed] at hbroken
    have hearlier : ∀ k < i, Triple.Agrees client.field altered k := by
      intro k hk
      rw [← Triple.isConsistent_summed, hbefore k hk, Triple.isConsistent_summed]
      exact hallow.2 k (hk.trans hi)
    exact run_sendElements_offering_of_inconsistent hopen hengines hlength hholds hi hbroken
      hearlier progress

/-- Two engines hold `5 * 6 = 4` modulo 13 between them. When the second of them says 5 in place of
4, the first factor becomes 6, which is found out of an opening as well as of a triple. -/
theorem tampering_isDetected_two_engines :
    DetectsTampering ⟨.thirteen, 2, .places 8⟩ ⟨holding .thirteen [[], []], []⟩ ⟨3, []⟩
        [numbersMessage .thirteen [1, 2, 3], numbersMessage .thirteen [4, 4, 1]]
        [numbersMessage .thirteen [1, 2, 3], numbersMessage .thirteen [5, 4, 1]] ∧
      MailRoom.run (receiveOpening ⟨.thirteen, 2, .places 8⟩) ⟨3, []⟩
          ⟨holding .thirteen [[[1, 2, 3]], [[5, 4, 1]]], []⟩ =
        ((.failed (.violation .unauthenticated), ⟨3, []⟩),
          ⟨holding .thirteen [[], []], [.unauthenticated]⟩) ∧
      MailRoom.run (sendElements ⟨.thirteen, 2, .places 8⟩ (elements [Residue.ofInt .thirteen 7]))
          ⟨3, []⟩ ⟨holding .thirteen [[[1, 2, 3]], [[5, 4, 1]]], []⟩ =
        ((.failed (.violation (.inconsistentTriple 0)), ⟨3, []⟩),
          ⟨holding .thirteen [[], []], [.inconsistentTriple 0]⟩) := by
  have hprime : FieldParams.thirteen.prime.Prime := by
    show Nat.Prime 13
    norm_num
  have hopen := isOpen_holding .thirteen [[], []] []
  have hengines : 2 = (holding .thirteen [[], []]).length := rfl
  have hall := @tampering_isDetected ⟨.thirteen, 2, .places 8⟩ _
    [numbersMessage .thirteen [1, 2, 3], numbersMessage .thirteen [4, 4, 1]]
    [numbersMessage .thirteen [1, 2, 3], numbersMessage .thirteen [5, 4, 1]]
    hprime hopen hengines rfl ⟨3, []⟩
  have hfirst := holdsElements_numbersMessage .thirteen [1, 2, 3]
  have hsecond := holdsElements_numbersMessage .thirteen [4, 4, 1]
  have hthird := holdsElements_numbersMessage .thirteen [5, 4, 1]
  have hhonest := List.forall_mem_cons.mpr ⟨hfirst, List.forall_mem_singleton.mpr hsecond⟩
  have hholds := List.forall_mem_cons.mpr ⟨hfirst, List.forall_mem_singleton.mpr hthird⟩
  have haltered := @Triple.AlteredOnce.left .thirteen (Triple.summed .thirteen
    [numbersMessage .thirteen [1, 2, 3], numbersMessage .thirteen [4, 4, 1]] 0)
    (Residue.ofInt .thirteen 6) (by decide) (by decide)
  refine ⟨hall, hall.opening hholds (by decide) haltered, ?_⟩
  refine hall.inputs (elements [Residue.ofInt .thirteen 7]) 0 (by decide) ⟨hhonest, ?_⟩ hholds
    nofun haltered
  intro k hk
  obtain rfl : k = 0 := Nat.lt_one_iff.mp hk
  exact Triple.isConsistent_summed.mp (by decide)

end Client
end TreeParty
