import TreeParty.Exchange
import TreeParty.FixedPoint
import TreeParty.Sharing.Opening
import TreeParty.Sharing.Triple
/-!
# The input client

To send `n` private values the client takes shares of `n` fresh triples from every engine, adds them
up, refuses them all if one sum breaks `a * b = c`, and then sends every engine the values masked by
the `a`s. To read a result it adds up the shares of all engines.
-/

namespace TreeParty

structure Client where
  field : FieldParams
  engines : Nat
  precision : Precision

namespace Client

/-! ## Shares -/

def receiveShares (client : Client) (engine count : Nat) :
    Exchange (List (Residue client.field)) := do
  let expected := count * client.field.elementBytes
  let buffer ← Exchange.await engine (some expected)
  if buffer.length = expected then unpackElements client.field buffer count 0
  else .fail (.wire (.wrongLength engine buffer.length expected))

def gatherTriples (client : Client) (count : Nat) : Exchange (List (Triple client.field)) :=
  (List.range client.engines).foldlM
    (fun sums engine => do
      let shares ← client.receiveShares engine (3 * count)
      return sums.zipWith Triple.accumulate (Triple.ofShares shares))
    (List.replicate count Triple.zero)

def sumShares (client : Client) (count : Nat) : Exchange (List (Residue client.field)) :=
  (List.range client.engines).foldlM
    (fun sums engine => do
      let shares ← client.receiveShares engine count
      return sums.zipWith (· + ·) shares)
    (List.replicate count (Residue.zero client.field))

/-! ## Taking numbers into the field -/

def residues (client : Client) (values : List Int) : Except Fault (List (Residue client.field)) :=
  values.mapM (Residue.ofSigned client.field)

def encodeReal (client : Client) (x : Binary64) : Except Fault (Residue client.field) := do
  Residue.ofSigned client.field (← FixedPoint.encode client.precision x)

def elements {F : FieldParams} (values : List (Residue F)) : List Element := values.map (⟨F, ·⟩)

/-! ## Sending -/

/-- Three public numbers to every engine, not masked: the kind of tree, the number of splits and the
number of classes. -/
def sendPublic (client : Client) (treeType splitCount classCount : Int) : Exchange Unit := do
  let numbers ← client.residues [treeType, splitCount, classCount]
  Exchange.sendAll client.engines (packElements numbers)

def mask {F : FieldParams} (values : List Element) (triples : List (Triple F)) :
    Except Fault (List (Residue F)) :=
  (values.zip triples).mapM fun (value, triple) => do
    return (← value.residue.into? F) + triple.a

/-- Private values, each masked by a fresh triple. Nothing is sent if a triple is inconsistent. -/
def sendElements (client : Client) (values : List Element) : Exchange Unit :=
  if values.isEmpty then .done ()
  else do
    let triples ← client.gatherTriples values.length
    match Triple.firstInconsistent? triples with
    | some position =>
      .note (.inconsistentTriple position) (.fail (.violation (.inconsistentTriple position)))
    | none =>
      let masked ← mask values triples
      Exchange.sendAll client.engines (packElements masked)
      .advance (fun p => { p with inputsSent := p.inputsSent + values.length }) (.done ())

/-- Private whole numbers. All are taken into the field before anything else happens. -/
def sendInts (client : Client) (values : List Int) : Exchange Unit := do
  let encoded ← client.residues values
  client.sendElements (elements encoded)

def sendReals (client : Client) (values : List Binary64) : Exchange Unit := do
  let encoded ← Exchange.ofResult (values.mapM client.encodeReal)
  client.sendElements (elements encoded)

/-! ## Receiving -/

def decodeReals (client : Client) (sums : List (Residue client.field)) :
    Except Fault (List Binary64) :=
  sums.mapM fun x => FixedPoint.decode client.precision x.toSigned

/-- A result of `size` numbers: real values in fixed point, and a whole number in the last place. -/
def receiveResult (client : Client) (size : Int) : Exchange (List Binary64 × Int) :=
  if size < 1 then .fail (.misuse .emptyResult)
  else do
    let sums ← client.sumShares size.toNat
    let values ← client.decodeReals sums.dropLast
    match sums.getLast? with
    | some last => return (values, last.toSigned)
    | none => .fail (.misuse .position)

/-- An authenticated result, refused unless output times blinding is the product. -/
def receiveOpening (client : Client) : Exchange (Opening client.field) := do
  match ← client.sumShares 3 with
  | [output, blinding, product] =>
    let opening : Opening client.field := ⟨output, blinding, product⟩
    if opening.isValid then return opening
    else .note .unauthenticated (.fail (.violation .unauthenticated))
  | _ => .fail (.misuse .position)

def receiveIndex (client : Client) : Exchange Int := do
  match ← client.receiveShares 0 1 with
  | [x] => return x.toSigned
  | _ => .fail (.misuse .position)

end Client
end TreeParty
