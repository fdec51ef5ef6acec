import TreeParty.Field.Params
/-!
# Field elements

An element carries the field it lives in. Elements of one modulus combine, whatever the degrees of
their binary fields; elements of different moduli do not.
-/

namespace TreeParty

structure Element where
  field : FieldParams
  residue : Residue field

namespace Element

def ofInt (F : FieldParams) (v : Int) : Element := ⟨F, Residue.ofInt F v⟩

def ofSigned (F : FieldParams) (v : Int) : Except Fault Element :=
  (Residue.ofSigned F v).map (⟨F, ·⟩)

def zero (F : FieldParams) : Element := ⟨F, Residue.zero F⟩

def value (x : Element) : Nat := x.residue.val

def toSigned (x : Element) : Int := x.residue.toSigned

/-- Combines two elements of one modulus in the field of the first. -/
def combine (op : {F : FieldParams} → Residue F → Residue F → Residue F) (x y : Element) :
    Except Fault Element := do
  let y' ← y.residue.into? x.field
  return ⟨x.field, op x.residue y'⟩

def add : Element → Element → Except Fault Element := combine (· + ·)

def sub : Element → Element → Except Fault Element := combine (· - ·)

def mul : Element → Element → Except Fault Element := combine (· * ·)

def neg (x : Element) : Element := ⟨x.field, -x.residue⟩

def same (x y : Element) : Bool := x.field.prime == y.field.prime && x.value == y.value

/-- The hash of an element is that of its modulus and number, by a hash of pairs. -/
def hash (ofPair : Nat × Nat → Int) (x : Element) : Int := ofPair (x.field.prime, x.value)

/-- A text that does not show the number. -/
def description (x : Element) : String :=
  "FieldElement(<" ++ toString (bitLength x.field.prime) ++ "-bit field>)"

def countDistinct : List Element → Nat
  | [] => 0
  | x :: rest => (if rest.any x.same then 0 else 1) + countDistinct rest

end Element
end TreeParty
