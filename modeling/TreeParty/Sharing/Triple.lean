import TreeParty.Field.Codec
/-!
# Shared triples

The engines hold shares of random triples `a * b = c`. The client adds up the shares of all engines
and masks one private value by the `a` of one triple.
-/

namespace TreeParty

structure Triple (F : FieldParams) where
  a : Residue F
  b : Residue F
  c : Residue F
  deriving DecidableEq

namespace Triple

variable {F : FieldParams}

def zero : Triple F := ⟨Residue.zero F, Residue.zero F, Residue.zero F⟩

def accumulate (sum share : Triple F) : Triple F :=
  ⟨sum.a + share.a, sum.b + share.b, sum.c + share.c⟩

def isConsistent (t : Triple F) : Bool := t.a * t.b == t.c

def ofShares : List (Residue F) → List (Triple F)
  | a :: b :: c :: rest => ⟨a, b, c⟩ :: ofShares rest
  | _ => []

/-- The first of a list of triples that does not satisfy `a * b = c`. -/
def firstInconsistent? (triples : List (Triple F)) : Option Nat :=
  triples.findIdx? fun t => !t.isConsistent

def into? (G : FieldParams) (t : Triple F) : Except Fault (Triple G) := do
  return ⟨← t.a.into? G, ← t.b.into? G, ← t.c.into? G⟩

theorem length_ofShares (shares : List (Residue F)) :
    (ofShares shares).length = shares.length / 3 := by
  fun_induction ofShares shares with
  | case1 a b c rest ih => simp only [List.length_cons, ih]; omega
  | case2 shares h =>
    match shares, h with
    | [], _ => simp
    | [_], _ => simp
    | [_, _], _ => simp
    | a :: b :: c :: rest, h => exact absurd rfl (h a b c rest)

end Triple
end TreeParty
