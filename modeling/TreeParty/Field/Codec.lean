import TreeParty.Bytes
import TreeParty.Position
import TreeParty.Field.Element
/-!
# Elements on the wire

Each element takes the same number of bytes, least significant first, one after the other. No count
travels with them: the reader knows it from the exchange.
-/

namespace TreeParty

namespace Residue

def pack {F : FieldParams} (x : Residue F) : Bytes := Bytes.ofNat F.elementBytes x.val

def unpack (F : FieldParams) (buffer : Bytes) (offset : Int) : Except Fault (Residue F) :=
  let stop := offset + F.elementBytes
  if (buffer.length : Int) < stop then
    .error (.wire (.underflow F.elementBytes offset (buffer.length - offset)))
  else
    let n := Bytes.toNat (Position.slice offset stop buffer)
    if h : n < F.prime then .ok ⟨n, h⟩ else .error (.wire .notReduced)

end Residue

def packElements {F : FieldParams} (xs : List (Residue F)) : Bytes := xs.flatMap Residue.pack

def appendElements {F : FieldParams} (buffer : Bytes) (xs : List (Residue F)) : Bytes :=
  xs.foldl (fun buffer x => buffer ++ x.pack) buffer

def unpackElements (F : FieldParams) (buffer : Bytes) (count offset : Int) :
    Except Fault (List (Residue F)) :=
  let width : Int := F.elementBytes
  if (buffer.length : Int) < offset + count * width then
    .error (.wire (.shortBuffer count (count * width) offset (buffer.length - offset)))
  else (List.range count.toNat).mapM fun (i : Nat) => Residue.unpack F buffer (offset + i * width)

@[simp] theorem length_pack {F : FieldParams} (x : Residue F) :
    x.pack.length = F.elementBytes := by
  simp [Residue.pack]

theorem length_packElements {F : FieldParams} (xs : List (Residue F)) :
    (packElements xs).length = xs.length * F.elementBytes := by
  induction xs with
  | nil => simp [packElements]
  | cons x xs ih =>
    simp only [packElements, List.flatMap_cons, List.length_append, length_pack,
      List.length_cons] at ih ⊢
    rw [ih, Nat.succ_mul, Nat.add_comm]

theorem appendElements_eq {F : FieldParams} (buffer : Bytes) (xs : List (Residue F)) :
    appendElements buffer xs = buffer ++ packElements xs := by
  induction xs generalizing buffer with
  | nil => exact (List.append_nil buffer).symm
  | cons x xs ih =>
    have hnext := ih (buffer ++ x.pack)
    rw [List.append_assoc] at hnext
    exact hnext

namespace Element

def pack (x : Element) : Bytes := x.residue.pack

def unpack (F : FieldParams) (buffer : Bytes) (offset : Int) : Except Fault Element :=
  (Residue.unpack F buffer offset).map (⟨F, ·⟩)

end Element
end TreeParty
