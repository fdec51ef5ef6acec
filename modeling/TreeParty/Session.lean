import TreeParty.Client
import TreeParty.Column.Splits
import TreeParty.Dataset.Grid
import TreeParty.Indicator
/-!
# A training session

One private value goes into each exchange, in the order in which the engines read them: the samples
row by row; from the label holder the labels and then the bits of the label classes; the split
vectors, feature by feature; for each feature all left bits, then all right bits. At the end the
result is read.
-/

namespace TreeParty

structure Session where
  client : Client
  samples : Grid
  labels : Option (List Binary64)
  /-- Whether the result is opened with a proof of its authenticity. -/
  authenticated : Bool
  splitLimit : SplitLimit
  splitSentinel : Except Fault Binary64

namespace Session

/-- Real values, one private value in each exchange. -/
def sendValues (s : Session) (values : List Binary64) : Exchange Unit :=
  values.forM fun x => s.client.sendReals [x]

/-- Bits, one private whole number in each exchange. -/
def sendBits (s : Session) (rows : BitRows) : Exchange Unit :=
  rows.flatten.forM fun bit => s.client.sendInts [if bit then 1 else 0]

/-- The samples in row-major order. A single number has no rows to count. -/
def sendSamples (s : Session) : Exchange Unit := do
  s.sendValues s.samples.cells
  if s.samples.shape.isEmpty then .fail (.misuse .position)

def sendLabels (s : Session) : Exchange Unit :=
  match s.labels with
  | none => .fail (.misuse .noLabels)
  | some labels => do
    s.sendValues labels
    s.sendBits (Indicator.ofLabels labels)

def featureSplits (s : Session) : Report (List (List Binary64)) :=
  s.samples.columns.mapM (SplitParams.vectorReport s.splitLimit s.splitSentinel)

def computeSplits (s : Session) : Exchange (List (List Binary64)) := do
  let vectors ← s.featureSplits
  .advance (fun p => { p with featureSplits := vectors }) (.done vectors)

def sendSplits (s : Session) (vectors : List (List Binary64)) : Exchange Unit :=
  vectors.forM s.sendValues

/-- The left bits and then the right bits of each feature. -/
def sendIndicators (s : Session) (vectors : List (List Binary64)) : Exchange Unit :=
  (s.samples.columns.zip vectors).forM fun (column, vector) => do
    s.sendBits (Indicator.left column vector)
    s.sendBits (Indicator.right column vector)

def receiveIndex (s : Session) : Exchange Int := do
  if s.authenticated then
    let opening ← s.client.receiveOpening
    return opening.index
  else s.client.receiveIndex

def run (s : Session) : Exchange Int := do
  s.sendSamples
  if s.labels.isSome then s.sendLabels
  let vectors ← s.computeSplits
  s.sendSplits vectors
  s.sendIndicators vectors
  s.receiveIndex

end Session
end TreeParty
