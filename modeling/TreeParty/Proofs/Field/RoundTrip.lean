import TreeParty.Proofs.Field.Codec
/-!
# Elements there and back

Elements that were appended to a buffer are read back from where it ended before. The other way
round, a buffer can be read from an offset exactly when the elements fit and are all reduced, and
what was read, packed again, gives the same bytes. So the bytes of elements are determined by them.
-/

set_option autoImplicit false

namespace TreeParty

variable {F : FieldParams}

def elementRange (F : FieldParams) (buffer : Bytes) (count offset : Nat) : Bytes :=
  (buffer.drop offset).take (count * F.elementBytes)

/-- Whether `count` elements fit a buffer from an offset on, and all of them are reduced. -/
def HoldsElementsFrom (F : FieldParams) (buffer : Bytes) (count offset : Nat) : Prop :=
  offset + count * F.elementBytes ≤ buffer.length ∧
    ∀ k < count, encodedAt F (buffer.drop offset) k < F.prime

/-! ## A range of a buffer -/

theorem length_elementRange {buffer : Bytes} {count offset : Nat}
    (hfits : offset + count * F.elementBytes ≤ buffer.length) :
    (elementRange F buffer count offset).length = count * F.elementBytes := by
  rw [elementRange, List.length_take, List.length_drop]
  omega

theorem encodedAt_elementRange (buffer : Bytes) {count k : Nat} (offset : Nat) (hk : k < count) :
    encodedAt F (elementRange F buffer count offset) k = encodedAt F (buffer.drop offset) k := by
  have hplace := succ_mul_elementBytes_le F hk
  have hwidth : min F.elementBytes (count * F.elementBytes - k * F.elementBytes) =
      F.elementBytes := by omega
  simp only [encodedAt, elementRange]
  rw [List.drop_take, List.take_take, hwidth]

theorem holdsElements_elementRange_iff {buffer : Bytes} {count offset : Nat}
    (hfits : offset + count * F.elementBytes ≤ buffer.length) :
    HoldsElements F count (elementRange F buffer count offset) ↔
      HoldsElementsFrom F buffer count offset := by
  constructor
  · rintro ⟨-, hreduced⟩
    refine ⟨hfits, fun k hk => ?_⟩
    rw [← encodedAt_elementRange buffer offset hk]
    exact hreduced k hk
  · rintro ⟨-, hreduced⟩
    refine ⟨length_elementRange hfits, fun k hk => ?_⟩
    rw [encodedAt_elementRange buffer offset hk]
    exact hreduced k hk

/-! ## Reading from an offset -/

theorem unpackElements_of_short {buffer : Bytes} {count offset : Nat}
    (hshort : buffer.length < offset + count * F.elementBytes) :
    ∃ fault, unpackElements F buffer count offset = .error (.wire fault) := by
  have hlt : (buffer.length : Int) < offset + (count : Int) * F.elementBytes := by
    rw [← Int.natCast_mul]
    omega
  exact ⟨_, if_pos hlt⟩

theorem unpackElements_of_fits {buffer : Bytes} {count offset : Nat}
    (hfits : offset + count * F.elementBytes ≤ buffer.length) :
    unpackElements F buffer count offset =
      unpackElements F (elementRange F buffer count offset) count 0 := by
  have hrange := length_elementRange hfits
  have hshort : ¬ (buffer.length : Int) < offset + (count : Int) * F.elementBytes := by
    rw [← Int.natCast_mul]
    omega
  rw [unpackElements_of_length hrange]
  simp only [unpackElements, if_neg hshort, Int.toNat_natCast]
  refine mapM_congr fun k hk => ?_
  have hk : k < count := List.mem_range.mp hk
  have hplace := succ_mul_elementBytes_le F hk
  have hoffset : (offset : Int) + (k : Int) * F.elementBytes =
      (offset + k * F.elementBytes : Nat) := by push_cast; rfl
  rw [hoffset, unpack_natCast (by omega), unpack_encodedAt hrange hk,
    encodedAt_elementRange buffer offset hk, encodedAt, List.drop_drop]

theorem unpackElements_of_holdsFrom {buffer : Bytes} {count offset : Nat}
    (h : HoldsElementsFrom F buffer count offset) :
    unpackElements F buffer count offset =
      .ok (elementsIn F count (elementRange F buffer count offset)) := by
  rw [unpackElements_of_fits h.1]
  exact unpackElements_of_holds ((holdsElements_elementRange_iff h.1).mpr h)

theorem unpackElements_of_not_holdsFrom {buffer : Bytes} {count offset : Nat}
    (h : ¬ HoldsElementsFrom F buffer count offset) :
    ∃ fault, unpackElements F buffer count offset = .error (.wire fault) := by
  by_cases hfits : offset + count * F.elementBytes ≤ buffer.length
  · refine ⟨.notReduced, ?_⟩
    rw [unpackElements_of_fits hfits]
    refine unpackElements_of_not_reduced (length_elementRange hfits) fun hreduced => h ?_
    exact (holdsElements_elementRange_iff hfits).mp ⟨length_elementRange hfits, hreduced⟩
  · exact unpackElements_of_short (Nat.lt_of_not_le hfits)

/-! ## Packing what was read -/

theorem flatMap_pieces (payload : Bytes) (width count : Nat) :
    (List.range count).flatMap (fun k => (payload.drop (k * width)).take width) =
      payload.take (count * width) := by
  induction count with
  | zero => simp
  | succ count ih =>
    rw [List.range_succ, List.flatMap_append, ih, List.flatMap_singleton, Nat.succ_mul,
      List.take_add]

theorem pack_ofInt_encodedAt {payload : Bytes} {count k : Nat} (h : HoldsElements F count payload)
    (hk : k < count) :
    (Residue.ofInt F (encodedAt F payload k)).pack =
      (payload.drop (k * F.elementBytes)).take F.elementBytes := by
  have hplace := succ_mul_elementBytes_le F hk
  have hlength : ((payload.drop (k * F.elementBytes)).take F.elementBytes).length =
      F.elementBytes := by
    rw [List.length_take, List.length_drop, h.1]
    omega
  have hvalue : (Residue.ofInt F (encodedAt F payload k)).val = encodedAt F payload k :=
    congrArg Fin.val (Residue.ofInt_val ⟨encodedAt F payload k, h.2 k hk⟩)
  have hbytes := Bytes.ofNat_toNat ((payload.drop (k * F.elementBytes)).take F.elementBytes)
  rw [hlength] at hbytes
  rw [Residue.pack, hvalue]
  exact hbytes

theorem packElements_elementsIn {payload : Bytes} {count : Nat}
    (h : HoldsElements F count payload) : packElements (elementsIn F count payload) = payload := by
  have hpieces : (List.range count).flatMap
        (fun k => (Residue.ofInt F (encodedAt F payload k)).pack) =
      (List.range count).flatMap
        (fun k => (payload.drop (k * F.elementBytes)).take F.elementBytes) :=
    List.flatMap_congr fun k hk => pack_ofInt_encodedAt h (List.mem_range.mp hk)
  rw [packElements, elementsIn, List.flatMap_map, hpieces, flatMap_pieces, ← h.1, List.take_length]

theorem elementsIn_packElements (xs : List (Residue F)) :
    elementsIn F xs.length (packElements xs) = xs := by
  apply List.ext_getElem
  · rw [elementsIn, List.length_map, List.length_range]
  · intro k _ hk
    simp only [elementsIn, List.getElem_map, List.getElem_range]
    rw [encodedAt_packElements (List.getElem?_eq_getElem hk)]
    exact Residue.ofInt_val xs[k]

theorem elementRange_append (buffer : Bytes) (xs : List (Residue F)) :
    elementRange F (buffer ++ packElements xs) xs.length buffer.length = packElements xs := by
  rw [elementRange, List.drop_left, ← length_packElements, List.take_length]

/-- What was packed behind a buffer is read back from there. -/
theorem unpackElements_append (buffer : Bytes) (xs : List (Residue F)) :
    unpackElements F (buffer ++ packElements xs) xs.length buffer.length = .ok xs := by
  have hfits : buffer.length + xs.length * F.elementBytes ≤
      (buffer ++ packElements xs).length := by
    rw [List.length_append, length_packElements]
  rw [unpackElements_of_fits hfits, elementRange_append,
    unpackElements_of_holds (holdsElements_packElements xs), elementsIn_packElements]

/-- Reading takes exactly the bytes that its result is packed to. -/
theorem packElements_of_unpackElements {buffer : Bytes} {count offset : Nat}
    {xs : List (Residue F)} (hread : unpackElements F buffer count offset = .ok xs) :
    packElements xs = elementRange F buffer count offset := by
  by_cases h : HoldsElementsFrom F buffer count offset
  · have hholds := (holdsElements_elementRange_iff h.1).mpr h
    rw [unpackElements_of_holdsFrom h] at hread
    cases hread
    exact packElements_elementsIn hholds
  · obtain ⟨fault, hfault⟩ := unpackElements_of_not_holdsFrom h
    rw [hfault] at hread
    cases hread

/-! ## The codec -/

/-- The codec of elements is one to one between lists of residues and the messages that hold
reduced elements, at every place of a buffer. -/
structure IsBijectiveCodec (F : FieldParams) : Prop where
  /-- No number is cut when it is packed. -/
  fits : ∀ x : Residue F, x.val < Nat.pow 256 F.elementBytes
  keeps : ∀ (buffer : Bytes) (xs : List (Residue F)), buffer <+: appendElements buffer xs
  length : ∀ (buffer : Bytes) (xs : List (Residue F)),
    (appendElements buffer xs).length = buffer.length + xs.length * F.elementBytes
  unpack_append : ∀ (buffer : Bytes) (xs : List (Residue F)),
    unpackElements F (appendElements buffer xs) xs.length buffer.length = .ok xs
  unpack_eq_ok : ∀ (buffer : Bytes) (count offset : Nat),
    HoldsElementsFrom F buffer count offset →
      ∃ xs, unpackElements F buffer count offset = .ok xs ∧
        appendElements [] xs = elementRange F buffer count offset
  unpack_eq_error : ∀ (buffer : Bytes) (count offset : Nat),
    ¬ HoldsElementsFrom F buffer count offset →
      ∃ fault, unpackElements F buffer count offset = .error (.wire fault)
  bytes_unique : ∀ (buffer buffer' : Bytes) (count offset offset' : Nat) (xs : List (Residue F)),
    unpackElements F buffer count offset = .ok xs →
    unpackElements F buffer' count offset' = .ok xs →
      elementRange F buffer count offset = elementRange F buffer' count offset'

theorem codec_isBijective (F : FieldParams) : IsBijectiveCodec F where
  fits x := x.isLt.trans (prime_lt_pow_elementBytes F)
  keeps buffer xs := ⟨packElements xs, (appendElements_eq buffer xs).symm⟩
  length buffer xs := by rw [appendElements_eq, List.length_append, length_packElements]
  unpack_append buffer xs := by
    rw [appendElements_eq]
    exact unpackElements_append buffer xs
  unpack_eq_ok buffer count offset h := by
    refine ⟨_, unpackElements_of_holdsFrom h, ?_⟩
    rw [appendElements_eq, List.nil_append]
    exact packElements_of_unpackElements (unpackElements_of_holdsFrom h)
  unpack_eq_error _ _ _ := unpackElements_of_not_holdsFrom
  bytes_unique _ _ _ _ _ _ hread hread' :=
    (packElements_of_unpackElements hread).symm.trans (packElements_of_unpackElements hread')

end TreeParty
