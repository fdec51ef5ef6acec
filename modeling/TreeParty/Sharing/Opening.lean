import TreeParty.Field.Codec
/-!
# Authenticated openings

An authenticated result is opened with a random factor and their product. A party that alters one of
the three without knowing the factor breaks the product.
-/

namespace TreeParty

/-- An output, a random factor and what should be their product. -/
structure Opening (F : FieldParams) where
  output : Residue F
  blinding : Residue F
  product : Residue F
  deriving DecidableEq

namespace Opening

variable {F : FieldParams}

def accumulate (sum share : Opening F) : Opening F :=
  ⟨sum.output + share.output, sum.blinding + share.blinding, sum.product + share.product⟩

def isValid (o : Opening F) : Bool := o.output * o.blinding == o.product

def index (o : Opening F) : Int := o.output.toSigned

def into? (G : FieldParams) (o : Opening F) : Except Fault (Opening G) := do
  return ⟨← o.output.into? G, ← o.blinding.into? G, ← o.product.into? G⟩

end Opening
end TreeParty
