import TreeParty.Proofs.Field.Codec
import TreeParty.Sharing.Opening
import TreeParty.Sharing.Triple
import Mathlib.Data.Int.ModEq
import Mathlib.Data.Nat.ModEq
import Mathlib.Tactic.Zify
/-!
# Sums of shares

The shares of all engines are added up in the field. `shareSum` adds the numbers in their messages
as they are; the sums that the client computes are the residues of these, and a triple of sums is
consistent when the product is congruent modulo the modulus.
-/

set_option autoImplicit false

namespace TreeParty

variable {F : FieldParams}

namespace Residue

theorem ofInt_eq_ofInt_iff {u v : Int} : ofInt F u = ofInt F v ↔ u % F.prime = v % F.prime := by
  have hu := val_ofInt F u
  have hv := val_ofInt F v
  constructor
  · intro h
    rw [← hu, ← hv, h]
  · intro h
    apply Fin.ext
    omega

theorem ofInt_add (u v : Int) : ofInt F (u + v) = ofInt F u + ofInt F v := by
  apply Fin.ext
  have hsum := val_ofInt F (u + v)
  have hu := val_ofInt F u
  have hv := val_ofInt F v
  zify
  rw [hsum, Fin.val_add, Int.natCast_mod, Int.natCast_add, hu, hv, ← Int.add_emod]

theorem ofInt_mul (u v : Int) : ofInt F (u * v) = ofInt F u * ofInt F v := by
  apply Fin.ext
  have hproduct := val_ofInt F (u * v)
  have hu := val_ofInt F u
  have hv := val_ofInt F v
  zify
  rw [hproduct, Fin.val_mul, Int.natCast_mod, Int.natCast_mul, hu, hv, ← Int.mul_emod]

theorem ofInt_sub (u v : Int) : ofInt F (u - v) = ofInt F u - ofInt F v := by
  apply Fin.ext
  have hdifference := val_ofInt F (u - v)
  have hu := val_ofInt F u
  have hv := val_ofInt F v
  have hle : (ofInt F v).val ≤ F.prime := (ofInt F v).isLt.le
  zify
  rw [hdifference, Fin.sub_def]
  simp only [Int.natCast_mod, Int.natCast_add, Int.natCast_sub hle, hu, hv]
  calc (u - v) % F.prime = (u % F.prime - v % F.prime) % F.prime := Int.sub_emod u v _
    _ = (F.prime + (u % F.prime - v % F.prime)) % F.prime := (Int.add_emod_left ..).symm
    _ = (F.prime - v % F.prime + u % F.prime) % F.prime := by congr 1; omega

theorem ofInt_neg (v : Int) : ofInt F (-v) = -ofInt F v := by
  apply Fin.ext
  have hnegation := val_ofInt F (-v)
  have hv := val_ofInt F v
  have hle : (ofInt F v).val ≤ F.prime := (ofInt F v).isLt.le
  zify
  rw [hnegation, Fin.neg_def]
  simp only [Int.natCast_mod, Int.natCast_sub hle, hv]
  rw [Int.sub_emod_left]
  exact (Int.mod_modEq v F.prime).neg.symm

theorem ofInt_zero : ofInt F 0 = zero F := by
  apply Fin.ext
  simp [ofInt, zero]

theorem ofInt_val_add_sub (x : Residue F) (n : Int) : ofInt F ((x + ofInt F n).val - n) = x := by
  have hsum : ((x + ofInt F n).val : Int) = (x.val + n) % F.prime := by
    rw [← val_ofInt, ofInt_add, ofInt_val]
  have hback : ((x.val + n) % F.prime - n) % F.prime = (x.val : Int) % F.prime := by
    rw [Int.emod_sub_emod, Int.add_sub_cancel]
  calc ofInt F ((x + ofInt F n).val - n) = ofInt F x.val := by
        rw [ofInt_eq_ofInt_iff, hsum, hback]
    _ = x := ofInt_val x

end Residue

/-- The sum of the numbers in one place of several messages. -/
def shareSum (F : FieldParams) (payloads : List Bytes) (k : Nat) : Nat :=
  (payloads.map fun payload => encodedAt F payload k).sum

@[simp] theorem shareSum_nil (k : Nat) : shareSum F [] k = 0 := rfl

@[simp] theorem shareSum_cons (payload : Bytes) (rest : List Bytes) (k : Nat) :
    shareSum F (payload :: rest) k = encodedAt F payload k + shareSum F rest k := rfl

/-! ## Single residues -/

def summed (F : FieldParams) (payloads : List Bytes) (k : Nat) : Residue F :=
  Residue.ofInt F (shareSum F payloads k)

theorem foldl_zipWith_add (count : Nat) (payloads : List Bytes) (start : Nat → Nat) :
    (payloads.map (elementsIn F count)).foldl (fun sums shares => sums.zipWith (· + ·) shares)
        ((List.range count).map fun k => Residue.ofInt F (start k)) =
      (List.range count).map fun k => Residue.ofInt F (start k + shareSum F payloads k : Nat) := by
  induction payloads generalizing start with
  | nil => rfl
  | cons payload rest ih =>
    have hnext := ih fun k => start k + encodedAt F payload k
    simp only [List.map_cons, List.foldl_cons, elementsIn, List.zipWith_map, List.zipWith_self,
      ← Residue.ofInt_add, ← Int.natCast_add, shareSum_cons, ← Nat.add_assoc] at hnext ⊢
    exact hnext

theorem foldl_shares (count : Nat) (payloads : List Bytes) :
    (payloads.map (elementsIn F count)).foldl (fun sums shares => sums.zipWith (· + ·) shares)
        (List.replicate count (Residue.zero F)) =
      (List.range count).map (summed F payloads) := by
  have hstart : List.replicate count (Residue.zero F) =
      (List.range count).map fun _ => Residue.ofInt F ((0 : Nat) : Int) := by
    simp [List.map_const', Residue.ofInt_zero]
  rw [hstart, foldl_zipWith_add count payloads fun _ => 0]
  simp only [Nat.zero_add]
  rfl

/-! ## Triples -/

namespace Triple

def summed (F : FieldParams) (payloads : List Bytes) (i : Nat) : Triple F :=
  ⟨TreeParty.summed F payloads (3 * i), TreeParty.summed F payloads (3 * i + 1),
    TreeParty.summed F payloads (3 * i + 2)⟩

theorem ofShares_map_range' (g : Nat → Residue F) (start count : Nat) :
    ofShares ((List.range' start (3 * count)).map g) =
      (List.range' 0 count).map fun i =>
        ⟨g (start + 3 * i), g (start + 3 * i + 1), g (start + 3 * i + 2)⟩ := by
  induction count generalizing start with
  | zero => rfl
  | succ count ih =>
    have hshift : List.range' 1 count = (List.range' 0 count).map (1 + ·) := by
      rw [List.map_add_range']
    have hthree : 3 * (count + 1) = 3 * count + 1 + 1 + 1 := by omega
    rw [hthree]
    simp only [List.range'_succ, List.map_cons, ofShares, ih, hshift, List.map_map]
    refine congrArg₂ _ rfl (List.map_congr_left fun i _ => ?_)
    have hplace : start + 1 + 1 + 1 + 3 * i = start + 3 * (1 + i) := by omega
    simp only [Function.comp_apply, hplace]

theorem ofShares_elementsIn (count : Nat) (payload : Bytes) :
    ofShares (elementsIn F (3 * count) payload) =
      (List.range count).map fun i =>
        ⟨Residue.ofInt F (encodedAt F payload (3 * i)),
          Residue.ofInt F (encodedAt F payload (3 * i + 1)),
          Residue.ofInt F (encodedAt F payload (3 * i + 2))⟩ := by
  have hread := ofShares_map_range' (fun k => Residue.ofInt F (encodedAt F payload k)) 0 count
  simpa only [elementsIn, List.range_eq_range', Nat.zero_add] using hread

theorem foldl_zipWith_accumulate (count : Nat) (payloads : List Bytes)
    (start : Nat → Nat) :
    (payloads.map (elementsIn F (3 * count))).foldl
        (fun sums shares => sums.zipWith accumulate (ofShares shares))
        ((List.range count).map fun i =>
          ⟨Residue.ofInt F (start (3 * i)), Residue.ofInt F (start (3 * i + 1)),
            Residue.ofInt F (start (3 * i + 2))⟩) =
      (List.range count).map fun i =>
        ⟨Residue.ofInt F (start (3 * i) + shareSum F payloads (3 * i) : Nat),
          Residue.ofInt F (start (3 * i + 1) + shareSum F payloads (3 * i + 1) : Nat),
          Residue.ofInt F (start (3 * i + 2) + shareSum F payloads (3 * i + 2) : Nat)⟩ := by
  induction payloads generalizing start with
  | nil => rfl
  | cons payload rest ih =>
    have hnext := ih fun k => start k + encodedAt F payload k
    simp only [List.map_cons, List.foldl_cons, ofShares_elementsIn, List.zipWith_map,
      List.zipWith_self, accumulate, ← Residue.ofInt_add, ← Int.natCast_add, shareSum_cons,
      ← Nat.add_assoc] at hnext ⊢
    exact hnext

theorem foldl_triples (count : Nat) (payloads : List Bytes) :
    (payloads.map (elementsIn F (3 * count))).foldl
        (fun sums shares => sums.zipWith accumulate (ofShares shares))
        (List.replicate count zero) =
      (List.range count).map (summed F payloads) := by
  have hstart : List.replicate count (zero : Triple F) = (List.range count).map fun _ =>
      ⟨Residue.ofInt F ((0 : Nat) : Int), Residue.ofInt F ((0 : Nat) : Int),
        Residue.ofInt F ((0 : Nat) : Int)⟩ := by
    simp [List.map_const', Residue.ofInt_zero, zero]
  rw [hstart, foldl_zipWith_accumulate count payloads fun _ => 0]
  simp only [Nat.zero_add]
  rfl

/-- Whether the sums of the `i`-th triple satisfy `a * b = c` modulo the modulus. -/
def Agrees (F : FieldParams) (payloads : List Bytes) (i : Nat) : Prop :=
  shareSum F payloads (3 * i) * shareSum F payloads (3 * i + 1) ≡
    shareSum F payloads (3 * i + 2) [MOD F.prime]

theorem isConsistent_summed {payloads : List Bytes} {i : Nat} :
    (summed F payloads i).isConsistent = true ↔ Agrees F payloads i := by
  simp only [isConsistent, summed, TreeParty.summed, beq_iff_eq, ← Residue.ofInt_mul,
    Residue.ofInt_eq_ofInt_iff, Agrees, Nat.ModEq, ← Int.natCast_mul, ← Int.natCast_mod,
    Int.natCast_inj]

/-- A list of summed triples is refused at its first inconsistent position. -/
theorem firstInconsistent?_eq_some_iff {payloads : List Bytes} {count i : Nat} :
    firstInconsistent? ((List.range count).map (summed F payloads)) = some i ↔
      i < count ∧ ¬ Agrees F payloads i ∧ ∀ k < i, Agrees F payloads k := by
  rw [firstInconsistent?, List.findIdx?_eq_some_iff_getElem]
  simp only [List.length_map, List.length_range, List.getElem_map, List.getElem_range,
    Bool.not_eq_true', ← Bool.not_eq_true, isConsistent_summed, not_not]
  constructor
  · rintro ⟨hlt, hbad, hbefore⟩
    exact ⟨hlt, hbad, fun k hk => hbefore k hk⟩
  · rintro ⟨hlt, hbad, hbefore⟩
    exact ⟨hlt, hbad, fun k hk => hbefore k hk⟩

theorem firstInconsistent?_eq_none_iff {payloads : List Bytes} {count : Nat} :
    firstInconsistent? ((List.range count).map (summed F payloads)) = none ↔
      ∀ i < count, Agrees F payloads i := by
  rw [firstInconsistent?, List.findIdx?_eq_none_iff]
  simp only [List.mem_map, List.mem_range, forall_exists_index, and_imp,
    forall_apply_eq_imp_iff₂, Bool.not_eq_false', isConsistent_summed]

end Triple

/-! ## Openings -/

namespace Opening

def summed (F : FieldParams) (payloads : List Bytes) : Opening F :=
  ⟨TreeParty.summed F payloads 0, TreeParty.summed F payloads 1, TreeParty.summed F payloads 2⟩

theorem isValid_summed {payloads : List Bytes} :
    (summed F payloads).isValid = true ↔ Triple.Agrees F payloads 0 := by
  rw [← Triple.isConsistent_summed]
  simp only [isValid, summed, Triple.isConsistent, Triple.summed, Nat.mul_zero, Nat.zero_add]

end Opening
end TreeParty
