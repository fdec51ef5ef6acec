import TreeParty.Bytes
import TreeParty.Fault
import TreeParty.Settings.Value
/-!
# Redaction

Private inputs, shares and masks must not reach a log. `Value.redact` replaces whatever stands under
a sensitive key, at every depth that the call stack of the machine leaves room for, and keeps the
rest as it is. `Buffer.wipe` overwrites bytes that held a secret.
-/

namespace TreeParty

def sensitiveNames : List String :=
  ["secret", "seed", "values", "value", "labels", "feature_values", "triple", "triples", "share",
    "shares", "mask", "masked", "ivs"]

def redactedMark : String := "<REDACTED>"

/-- What stands in place of a value that cannot be rebuilt from its redacted parts. -/
def unsanitizableMark : String := "<UNSANITIZABLE>"

/-- Lower case, as far as it matters for a comparison with lower-case letters `a` to `z`: besides
the capitals only the Kelvin sign has one of these as its lower case. -/
def foldCase (c : Char) : Char := if c = '\u212a' then 'k' else c.toLower

def isSensitiveName (name : String) : Bool :=
  sensitiveNames.contains (String.ofList (name.toList.map foldCase))

def Value.isSensitive (key : Value) : Bool := isSensitiveName key.display

/-! ## The machine -/

/-- A container as redaction meets it, before it looks at what it holds. -/
inductive Container where
  | sequence (length : Nat)
  | record
  | dict (keys : List Value)

/-- The way from a value to one inside it: the containers gone through, outermost first, each with
the position in it. -/
abbrev Place := List (Container × Nat)

/-- What redaction depends on besides the value. -/
structure Machine where
  /-- Whether the container at a place can be gone through: every level takes some of the call
  stack, and the keys of a dictionary are written as text. -/
  enters : Place → Container → Bool
  /-- Where an object that is made for a place lies in memory. -/
  address : Place → Nat
  /-- Whether a value can be written as text: it may be nested too deep, or hold too long a
  number. -/
  writes : Value → Except Misuse Unit

namespace Machine

/-- A machine as it is met inside a container. -/
def inside (m : Machine) (container : Container) (position : Nat) : Machine where
  enters place := m.enters ((container, position) :: place)
  address place := m.address ((container, position) :: place)
  writes := m.writes

end Machine

/-- The calls that going through a container takes of the stack: one for what it holds, unless that
is nothing or all of it secret, and one for the generator that the items of a sequence come from. A
record is made by one call, which leaves the generator alone. -/
def Container.calls : Container → Nat
  | sequence length => if length = 0 then 1 else 2
  | record => 1
  | dict keys => if keys.all Value.isSensitive then 0 else 1

def Place.calls : Place → Nat
  | [] => 0
  | (container, _) :: rest => container.calls + Place.calls rest

/-- A machine with room for a number of calls and no other limit. -/
def Machine.ofRoom (room : Nat) (address : Place → Nat) : Machine where
  enters place container := place.calls + container.calls ≤ room
  address := address
  writes _ := .ok ()

namespace Value

/-- Whether a record with these fields can be made from one argument: there is a field for it, and
the others have defaults. -/
def takesOne (fields : List String) (defaults : List Value) : Bool :=
  1 ≤ fields.length ∧ fields.length ≤ defaults.length + 1

-- A record is made anew from the one argument that all sequences are made from, the generator of
-- its redacted items: where that can be done, the generator becomes its first field.
mutual

def redact (m : Machine) : Value → Value
  | list xs =>
    if m.enters [] (.sequence xs.length) then list (redactItems m (.sequence xs.length) 0 xs)
    else text unsanitizableMark
  | tuple xs =>
    if m.enters [] (.sequence xs.length) then tuple (redactItems m (.sequence xs.length) 0 xs)
    else text unsanitizableMark
  | record name fields defaults _ =>
    if m.enters [] .record && takesOne fields defaults then
      record name fields defaults
        (generator (m.address []) :: defaults.drop (defaults.length + 1 - fields.length))
    else text unsanitizableMark
  | dict entries =>
    if m.enters [] (.dict (entries.map (·.1))) then
      dict (redactEntries m (.dict (entries.map (·.1))) 0 entries)
    else text unsanitizableMark
  | v => v

def redactItems (m : Machine) (container : Container) (position : Nat) : List Value → List Value
  | [] => []
  | x :: xs =>
    redact (m.inside container position) x :: redactItems m container (position + 1) xs

def redactEntries (m : Machine) (container : Container) (position : Nat) :
    List (Value × Value) → List (Value × Value)
  | [] => []
  | (k, v) :: rest =>
    (k, if k.isSensitive then text redactedMark else redact (m.inside container position) v) ::
      redactEntries m container (position + 1) rest

end

end Value

/-! ## Overwriting -/

/-- Memory that may hold a secret. -/
inductive Buffer where
  /-- Bytes, which the holder may write to or not. -/
  | bytes (content : Bytes) (writable : Bool)
  /-- Memory seen as items wider than a byte, to which bytes cannot be assigned. -/
  | wide (content : Bytes)
  /-- Something else than memory. -/
  | other

namespace Buffer

def wipe : Buffer → Bool × Buffer
  | bytes content true => (true, bytes (List.replicate content.length 0) true)
  | b => (false, b)

end Buffer
end TreeParty
