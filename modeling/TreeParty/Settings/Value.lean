import TreeParty.Binary64.Arith
import TreeParty.Binary64.Decimal
import TreeParty.Text.Quoted
/-!
# Setting values

Settings come from files and from callers, so a setting holds whatever a document can: scalars,
text, lists and dictionaries. A dictionary keeps its entries in the order they came; its keys are
compared by `Value.same`, under which a truth value, a whole number and a double of one amount are
one key. A key is also the same as itself, be it a NaN: so a NaN that stands in several places is
known by its object, and `float .nan` is a NaN that stands in one place only.
-/

namespace TreeParty

inductive Value where
  | null
  | bool (b : Bool)
  | int (n : Int)
  | float (x : Binary64)
  | nan (object : Nat)
  | text (s : String)
  | list (items : List Value)
  | tuple (items : List Value)
  /-- A tuple with named fields, of which the last may have defaults. It is made from its fields and
  not from a sequence of them. -/
  | record (name : String) (fields : List String) (defaults items : List Value)
  | dict (entries : List (Value × Value))
  /-- Items that are still to be made, known by the address of their maker. -/
  | generator (address : Nat)

namespace Value

instance : Inhabited Value := ⟨null⟩

/-! ## Keys -/

def amount? : Value → Option (Int ⊕ Binary64)
  | bool b => some (.inl (if b then 1 else 0))
  | int n => some (.inl n)
  | float x => some (.inr x)
  | _ => none

def sameAmount : Int ⊕ Binary64 → Int ⊕ Binary64 → Bool
  | .inl m, .inl n => m == n
  | .inl m, .inr x => x.equalsInt m
  | .inr x, .inl m => x.equalsInt m
  | .inr x, .inr y => x.same y

mutual

/-- Equality of the values that can be keys: amounts by size, text by its characters, tuples item by
item, objects by being one object. -/
def same : Value → Value → Bool
  | null, null => true
  | nan a, nan b => a == b
  | generator a, generator b => a == b
  | text s, text t => s == t
  | tuple xs, tuple ys => sameItems xs ys
  | tuple xs, record _ _ _ ys => sameItems xs ys
  | record _ _ _ xs, tuple ys => sameItems xs ys
  | record _ _ _ xs, record _ _ _ ys => sameItems xs ys
  | x, y =>
    match x.amount?, y.amount? with
    | some a, some b => sameAmount a b
    | _, _ => false

def sameItems : List Value → List Value → Bool
  | [], [] => true
  | x :: xs, y :: ys => same x y && sameItems xs ys
  | _, _ => false

end

mutual

/-- Whether a value can be a key: lists and dictionaries cannot, nor tuples that hold one. -/
def isKey : Value → Bool
  | list _ => false
  | dict _ => false
  | tuple xs => areKeys xs
  | record _ _ _ xs => areKeys xs
  | _ => true

def areKeys : List Value → Bool
  | [] => true
  | x :: xs => isKey x && areKeys xs

end

/-! ## Text -/

mutual

/-- The text of a value as it stands inside others: text in quotes, containers in their brackets, a
record under its name and with those of its fields. -/
def literal : Value → String
  | null => "None"
  | bool b => if b then "True" else "False"
  | int n => toString n
  | float x => x.text
  | nan _ => Binary64.nan.text
  | text s => Text.quoted s
  | list xs => "[" ++ literalItems xs ++ "]"
  | tuple [x] => "(" ++ literal x ++ ",)"
  | tuple xs => "(" ++ literalItems xs ++ ")"
  | record name fields _ xs => name ++ "(" ++ literalFields xs fields ++ ")"
  | dict entries => "\x7b" ++ literalEntries entries ++ "\x7d"
  | generator address =>
    "<generator object _sanitize.<locals>.<genexpr> at 0x" ++
      String.ofList (Nat.toDigits 16 address) ++ ">"

def literalItems : List Value → String
  | [] => ""
  | [x] => literal x
  | x :: xs => literal x ++ ", " ++ literalItems xs

def literalFields : List Value → List String → String
  | [x], field :: _ => field ++ "=" ++ literal x
  | x :: xs, field :: fields => field ++ "=" ++ literal x ++ ", " ++ literalFields xs fields
  | _, _ => ""

def literalEntries : List (Value × Value) → String
  | [] => ""
  | [(k, v)] => literal k ++ ": " ++ literal v
  | (k, v) :: rest => literal k ++ ": " ++ literal v ++ ", " ++ literalEntries rest

end

def display : Value → String
  | text s => s
  | v => v.literal

end Value

/-! ## Dictionaries -/

/-- Entries in order, with different keys. -/
abbrev Dict := List (Value × Value)

namespace Dict

def get? (key : Value) (d : Dict) : Option Value :=
  (d.find? fun entry => entry.1.same key).map (·.2)

/-- Sets the value of a key: an old key keeps its place and its spelling, a new one comes last. -/
def put (key value : Value) : Dict → Dict
  | [] => [(key, value)]
  | (k, v) :: rest => if k.same key then (k, value) :: rest else (k, v) :: put key value rest

def putAll (entries : List (Value × Value)) (d : Dict) : Dict :=
  entries.foldl (fun d entry => d.put entry.1 entry.2) d

def ofList (entries : List (Value × Value)) : Dict := putAll entries []

end Dict
end TreeParty
