import TreeParty.Column.Order
import TreeParty.Notice
import TreeParty.Settings.Value
/-!
# Split parameters of a column

A column with more distinct values than the limit is continuous: the sorted samples are cut into
one bin more than the limit, and each threshold is the midpoint of the two samples at a cut. Fewer
values make it categorical, with the values themselves as thresholds, and at most one makes it
degenerate.

The engines read a vector of fixed length: the number of splits, the values, and a sentinel in
every slot that is left.
-/

namespace TreeParty

inductive SplitKind where
  | continuous
  | categorical
  | degenerate
  deriving DecidableEq, Repr

/-- The splits of one column. A categorical column counts one split less than it has values. -/
structure SplitParams where
  kind : SplitKind
  count : Int
  values : List Binary64

namespace SplitParams

def degenerate : SplitParams := ⟨.degenerate, 0, []⟩

def threshold (sorted : List Binary64) (place : Nat) : Except Fault Binary64 :=
  match sorted[place]?, sorted[min (place + 1) (sorted.length - 1)]? with
  | some x, some y => .ok (x.midpoint y)
  | _, _ => .error (.misuse .position)

def thresholds (sorted : List Binary64) (limit : Nat) : Except Fault (List Binary64) :=
  (List.range limit).mapM fun i => threshold sorted ((i + 1) * (sorted.length / (limit + 1)))

def ofFew (distinct : List Binary64) : SplitParams :=
  if 1 < distinct.length then ⟨.categorical, distinct.length - 1, distinct⟩ else degenerate

def ofColumn (limit : Int) (column : List Binary64) : Except Fault SplitParams :=
  let distinct := Column.distinctValues column
  if limit + 1 ≤ distinct.length then
    if limit + 1 = 0 then .error (.misuse .divisionByZero)
    else (thresholds (Column.sorted column) limit.toNat).map (⟨.continuous, limit, ·⟩)
  else .ok (ofFew distinct)

/-- The splits of a column under a limit that is a double. A continuous column has none, because
there is no counting up to a double. -/
def ofColumnUnder (limit : Binary64) (column : List Binary64) : Except Fault SplitParams :=
  let distinct := Column.distinctValues column
  let bins := limit.add (.ofNat 1)
  if bins.le (.ofNat distinct.length) then
    .error (.misuse (if bins.same .zero then .divisionByZero else .settingKind))
  else .ok (ofFew distinct)

end SplitParams

/-- How many splits a column may have, or a setting that limits nothing. -/
inductive SplitLimit where
  | whole (m : Int)
  | fractional (x : Binary64)
  | unusable

namespace SplitLimit

def ofValue : Value → SplitLimit
  | .int m => whole m
  | .bool b => whole (if b then 1 else 0)
  | .float x => fractional x
  | .nan _ => fractional .nan
  | _ => unusable

def count : SplitLimit → Except Fault Int
  | whole m => .ok m
  | _ => .error (.misuse .settingKind)

def split (limit : SplitLimit) (column : List Binary64) : Except Fault SplitParams :=
  match limit with
  | whole m => SplitParams.ofColumn m column
  | fractional x => SplitParams.ofColumnUnder x column
  | unusable => .error (.misuse .settingKind)

end SplitLimit

namespace SplitParams

def report (limit : SplitLimit) (column : List Binary64) : Report SplitParams := do
  let params ← limit.split column
  if params.kind = .degenerate then
    Report.tell (.fewDistinct column.length (Column.distinctValues column).length)
  return params

/-! ## Split vectors -/

/-- The vector for the engines. A single value that has no slot is left out. -/
def toVector (limit : Int) (sentinel : Binary64) (params : SplitParams) :
    Except Fault (List Binary64) :=
  if limit + 1 < 0 then .error (.misuse .slots)
  else if limit + 1 = 0 then .error (.misuse .position)
  else
    match Binary64.ofInt? params.count with
    | none => .error (.misuse .tooLarge)
    | some count =>
      let slots := limit.toNat
      let used := params.values.length
      if used ≤ slots then
        .ok (count :: params.values ++ List.replicate (slots - used) sentinel)
      else if used = 1 then .ok [count]
      else .error (.misuse .slots)

def ofVector : List Binary64 → Except Fault SplitParams
  | [] => .error (.misuse .position)
  | first :: slots =>
    match first.trunc with
    | .error reason => .error (.misuse (.notWhole reason))
    | .ok count =>
      if count = 0 then .ok degenerate
      else if (slots.length : Int) ≤ count then
        .ok ⟨.continuous, count, Position.slice 1 (1 + count) (first :: slots)⟩
      else .ok ⟨.categorical, count, Position.slice 1 (2 + count) (first :: slots)⟩

def vectorReport (limit : SplitLimit) (sentinel : Except Fault Binary64) (column : List Binary64) :
    Report (List Binary64) := do
  let params ← report limit column
  let m ← limit.count
  let filler ← sentinel
  params.toVector m filler

/-- Equality of kind, count and values, with the numeric equality of doubles. -/
def same (p q : SplitParams) : Bool :=
  p.kind == q.kind && p.count == q.count && p.values.length == q.values.length
    && (p.values.zip q.values).all fun (x, y) => x.same y

end SplitParams
end TreeParty
