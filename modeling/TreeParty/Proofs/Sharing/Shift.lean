import TreeParty.Proofs.Field.RoundTrip
import TreeParty.Proofs.Sharing.Sums
import Mathlib.Tactic.Ring
/-!
# Shifted shares

One engine may add numbers to the shares in its message. The sums of the shares of all engines then
grow by the same numbers, modulo the modulus, and shifting back restores the message.
-/

set_option autoImplicit false

namespace TreeParty

variable {F : FieldParams}

/-- A message of `count` elements with a number added to each of them. -/
def shiftMessage (F : FieldParams) (count : Nat) (shift : Nat → Int) (payload : Bytes) : Bytes :=
  numbersMessage F ((List.range count).map fun k => (encodedAt F payload k : Int) + shift k)

/-! ## One message -/

theorem holdsElements_shiftMessage (count : Nat) (shift : Nat → Int) (payload : Bytes) :
    HoldsElements F count (shiftMessage F count shift payload) := by
  have hholds := holdsElements_packElements (((List.range count).map fun k =>
    (encodedAt F payload k : Int) + shift k).map (Residue.ofInt F))
  rwa [List.length_map, List.length_map, List.length_range] at hholds

theorem encodedAt_shiftMessage {count k : Nat} (shift : Nat → Int) (payload : Bytes)
    (hk : k < count) :
    (encodedAt F (shiftMessage F count shift payload) k : Int) =
      (encodedAt F payload k + shift k) % F.prime := by
  have hitem : (((List.range count).map fun k => (encodedAt F payload k : Int) + shift k).map
      (Residue.ofInt F))[k]? = some (Residue.ofInt F (encodedAt F payload k + shift k)) := by
    rw [List.getElem?_map, List.getElem?_map, List.getElem?_range hk]
    rfl
  rw [shiftMessage, numbersMessage, encodedAt_packElements hitem, Residue.val_ofInt]

theorem ofInt_encodedAt_shiftMessage {count k : Nat} (shift : Nat → Int) (payload : Bytes)
    (hk : k < count) :
    Residue.ofInt F (encodedAt F (shiftMessage F count shift payload) k) =
      Residue.ofInt F (encodedAt F payload k + shift k) := by
  rw [Residue.ofInt_eq_ofInt_iff, encodedAt_shiftMessage shift payload hk, Int.emod_emod]

theorem shiftMessage_cancel {count : Nat} {shift shift' : Nat → Int} {payload : Bytes}
    (hholds : HoldsElements F count payload) (hcancel : ∀ k < count, shift k + shift' k = 0) :
    shiftMessage F count shift' (shiftMessage F count shift payload) = payload := by
  have hsame : ((List.range count).map fun k =>
        (encodedAt F (shiftMessage F count shift payload) k : Int) + shift' k).map
          (Residue.ofInt F) =
      elementsIn F count payload := by
    rw [elementsIn, List.map_map]
    refine List.map_congr_left fun k hk => ?_
    have hk : k < count := List.mem_range.mp hk
    simp only [Function.comp_apply]
    rw [Residue.ofInt_add, ofInt_encodedAt_shiftMessage shift payload hk, ← Residue.ofInt_add,
      add_assoc, hcancel k hk, add_zero]
  rw [shiftMessage, numbersMessage, hsame, packElements_elementsIn hholds]

/-! ## The messages of all engines -/

theorem summed_cons (payload : Bytes) (rest : List Bytes) (k : Nat) :
    summed F (payload :: rest) k = Residue.ofInt F (encodedAt F payload k) + summed F rest k := by
  rw [summed, shareSum_cons, Int.natCast_add, Residue.ofInt_add]
  rfl

theorem summed_modify {payloads : List Bytes} {engine count k : Nat}
    (hengine : engine < payloads.length) (hk : k < count) (shift : Nat → Int) :
    summed F (payloads.modify engine (shiftMessage F count shift)) k =
      Residue.ofInt F (shareSum F payloads k + shift k) := by
  induction payloads generalizing engine with
  | nil => exact absurd hengine (Nat.not_lt_zero engine)
  | cons payload rest ih =>
    have hsum : (shareSum F (payload :: rest) k : Int) + shift k =
        encodedAt F payload k + (shareSum F rest k + shift k) := by
      rw [shareSum_cons, Int.natCast_add]
      ring
    rw [hsum]
    cases engine with
    | zero =>
      have hregroup : (encodedAt F payload k : Int) + (shareSum F rest k + shift k) =
          encodedAt F payload k + shift k + shareSum F rest k := by ring
      rw [List.modify_zero_cons, summed_cons, ofInt_encodedAt_shiftMessage shift payload hk,
        hregroup, Residue.ofInt_add (_ + _)]
      rfl
    | succ engine =>
      rw [List.modify_succ_cons, summed_cons, ih (Nat.lt_of_succ_lt_succ hengine),
        ← Residue.ofInt_add]

end TreeParty
