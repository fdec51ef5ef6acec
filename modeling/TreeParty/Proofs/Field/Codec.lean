import TreeParty.Field.Codec
import TreeParty.Proofs.Loops
import Mathlib.Algebra.Order.Ring.Nat
/-!
# Elements on the wire, as numbers

`encodedAt` is the number that stands in the place of the `k`-th element of a message. A message
holds `count` elements when it has their length and all these numbers are below the modulus; exactly
then it can be read, and reading gives their residues. What is packed holds what was packed.
-/

set_option autoImplicit false

namespace TreeParty

variable {F : FieldParams}

def encodedAt (F : FieldParams) (payload : Bytes) (k : Nat) : Nat :=
  Bytes.toNat ((payload.drop (k * F.elementBytes)).take F.elementBytes)

/-- Whether a message consists of exactly `count` elements, all of them reduced. -/
def HoldsElements (F : FieldParams) (count : Nat) (payload : Bytes) : Prop :=
  payload.length = count * F.elementBytes ∧ ∀ k < count, encodedAt F payload k < F.prime

def elementsIn (F : FieldParams) (count : Nat) (payload : Bytes) : List (Residue F) :=
  (List.range count).map fun k => Residue.ofInt F (encodedAt F payload k)

def numbersMessage (F : FieldParams) (numbers : List Int) : Bytes :=
  packElements (numbers.map (Residue.ofInt F))

def FieldParams.thirteen : FieldParams := ⟨13, defaultDegree, by decide⟩

/-! ## Widths -/

theorem lt_two_pow_bitLength (n : Nat) : n < Nat.pow 2 (bitLength n) := by
  simp only [bitLength, Nat.pow_eq]
  split
  · next hzero => simp [hzero]
  · exact Nat.lt_log2_self

theorem prime_lt_pow_elementBytes (F : FieldParams) :
    F.prime < Nat.pow 256 F.elementBytes := by
  have hbits := lt_two_pow_bitLength F.prime
  have hwidth : bitLength F.prime ≤ 8 * F.elementBytes := by
    unfold FieldParams.elementBytes
    omega
  simp only [Nat.pow_eq] at hbits ⊢
  calc F.prime < 2 ^ bitLength F.prime := hbits
    _ ≤ 2 ^ (8 * F.elementBytes) := Nat.pow_le_pow_right (by decide) hwidth
    _ = 256 ^ F.elementBytes := by rw [Nat.pow_mul]

theorem succ_mul_elementBytes_le (F : FieldParams) {count k : Nat} (hk : k < count) :
    k * F.elementBytes + F.elementBytes ≤ count * F.elementBytes := by
  rw [← Nat.succ_mul]
  exact Nat.mul_le_mul_right _ hk

/-! ## Reading -/

theorem unpack_natCast {buffer : Bytes} {offset : Nat}
    (hfits : offset + F.elementBytes ≤ buffer.length) :
    Residue.unpack F buffer offset =
      let n := Bytes.toNat ((buffer.drop offset).take F.elementBytes)
      if n < F.prime then .ok (Residue.ofInt F n) else .error (.wire .notReduced) := by
  have hstop : ((offset : Int) + (F.elementBytes : Int)) =
      ((offset + F.elementBytes : Nat) : Int) := by
    omega
  have hslice : Position.slice (offset : Int) ((offset + F.elementBytes : Nat) : Int) buffer =
      (buffer.drop offset).take F.elementBytes := by
    rw [Position.slice_natCast _ _ _ hfits, Nat.add_sub_cancel_left]
  have hshort : ¬ (buffer.length : Int) < ((offset + F.elementBytes : Nat) : Int) := by omega
  simp only [Residue.unpack, hstop, hslice, if_neg hshort]
  by_cases h : Bytes.toNat ((buffer.drop offset).take F.elementBytes) < F.prime
  · rw [dif_pos h, if_pos h]
    exact congrArg Except.ok (Residue.ofInt_val ⟨_, h⟩).symm
  · rw [dif_neg h, if_neg h]

theorem unpack_encodedAt {payload : Bytes} {count k : Nat}
    (hlength : payload.length = count * F.elementBytes) (hk : k < count) :
    Residue.unpack F payload (0 + (k : Int) * F.elementBytes) =
      if encodedAt F payload k < F.prime then .ok (Residue.ofInt F (encodedAt F payload k))
      else .error (.wire .notReduced) := by
  have hfits : k * F.elementBytes + F.elementBytes ≤ payload.length := by
    rw [hlength]
    exact succ_mul_elementBytes_le F hk
  have hoffset : (0 + (k : Int) * F.elementBytes) = ((k * F.elementBytes : Nat) : Int) := by
    push_cast
    omega
  rw [hoffset]
  exact unpack_natCast hfits

theorem unpackElements_of_length {payload : Bytes} {count : Nat}
    (hlength : payload.length = count * F.elementBytes) :
    unpackElements F payload count 0 =
      (List.range count).mapM fun (k : Nat) =>
        Residue.unpack F payload (0 + (k : Int) * F.elementBytes) := by
  have hshort : ¬ (payload.length : Int) < 0 + (count : Int) * (F.elementBytes : Int) := by
    rw [hlength]
    push_cast
    omega
  simp only [unpackElements, if_neg hshort, Int.toNat_natCast]

theorem unpackElements_of_holds {payload : Bytes} {count : Nat}
    (h : HoldsElements F count payload) :
    unpackElements F payload count 0 = .ok (elementsIn F count payload) := by
  obtain ⟨hlength, hreduced⟩ := h
  rw [unpackElements_of_length hlength]
  refine mapM_eq_ok_map fun k hk => ?_
  have hk : k < count := List.mem_range.mp hk
  rw [unpack_encodedAt hlength hk, if_pos (hreduced k hk)]

theorem unpackElements_of_not_reduced {payload : Bytes} {count : Nat}
    (hlength : payload.length = count * F.elementBytes)
    (hreduced : ¬ ∀ k < count, encodedAt F payload k < F.prime) :
    unpackElements F payload count 0 = .error (.wire .notReduced) := by
  have hread : ∀ k ∈ List.range count,
      Residue.unpack F payload (0 + (k : Int) * F.elementBytes) =
        if encodedAt F payload k < F.prime then .ok (Residue.ofInt F (encodedAt F payload k))
        else .error (.wire .notReduced) := fun k hk =>
    unpack_encodedAt hlength (List.mem_range.mp hk)
  rw [unpackElements_of_length hlength]
  refine mapM_eq_error (g := fun k => Residue.ofInt F (encodedAt F payload k)) ?_ ?_
  · intro k hk
    rw [hread k hk]
    by_cases hlt : encodedAt F payload k < F.prime
    · exact Or.inl (if_pos hlt)
    · exact Or.inr (if_neg hlt)
  · simp only [not_forall] at hreduced
    obtain ⟨k, hk, hlt⟩ := hreduced
    exact ⟨k, List.mem_range.mpr hk, by rw [hread k (List.mem_range.mpr hk), if_neg hlt]⟩

/-! ## Packing -/

theorem toNat_pack (x : Residue F) : Bytes.toNat x.pack = x.val :=
  Bytes.toNat_ofNat (x.isLt.trans (prime_lt_pow_elementBytes F))

theorem encodedAt_packElements {xs : List (Residue F)} {k : Nat} {x : Residue F}
    (hx : xs[k]? = some x) : encodedAt F (packElements xs) k = x.val := by
  induction xs generalizing k with
  | nil => cases hx
  | cons y ys ih =>
    have hpack : packElements (y :: ys) = y.pack ++ packElements ys := rfl
    have hlength : y.pack.length = F.elementBytes := length_pack y
    unfold encodedAt at ih ⊢
    cases k with
    | zero =>
      cases hx
      rw [hpack, Nat.zero_mul, List.drop_zero, List.take_left' hlength, toNat_pack]
    | succ k =>
      have hsplit : (k + 1) * F.elementBytes = y.pack.length + k * F.elementBytes := by
        rw [hlength, Nat.succ_mul, Nat.add_comm]
      rw [hpack, hsplit, ← List.drop_drop, List.drop_left]
      exact ih hx

theorem holdsElements_packElements (xs : List (Residue F)) :
    HoldsElements F xs.length (packElements xs) := by
  refine ⟨length_packElements xs, fun k hk => ?_⟩
  rw [encodedAt_packElements (List.getElem?_eq_getElem hk)]
  exact (xs[k]).isLt

theorem holdsElements_numbersMessage (F : FieldParams) (numbers : List Int) :
    HoldsElements F numbers.length (numbersMessage F numbers) := by
  have hholds := holdsElements_packElements (numbers.map (Residue.ofInt F))
  rwa [List.length_map] at hholds

end TreeParty
