import TreeParty.Settings.Value
/-!
# JSON documents

Reads a document into a setting value. Numbers without a fraction and an exponent are whole numbers
of at most 4300 digits, all others doubles; `NaN`, `Infinity` and `-Infinity` are doubles too. A
repeated key keeps its first place and takes the last value.
-/

namespace TreeParty
namespace Json

inductive Defect where
  | malformed
  | tooManyDigits
  deriving DecidableEq, Repr

def isBlank (c : Char) : Bool := c == ' ' || c == '\t' || c == '\n' || c == '\r'

def skipBlanks (cs : List Char) : List Char := cs.dropWhile isBlank

def isDigit (c : Char) : Bool := '0' ≤ c && c ≤ '9'

def numberOf (digits : List Char) : Nat :=
  digits.foldl (fun n c => n * 10 + (c.toNat - '0'.toNat)) 0

def word? (word : String) (cs : List Char) : Option (List Char) :=
  if word.toList.isPrefixOf cs then some (cs.drop word.length) else none

/-! ## Numbers -/

def whole? : List Char → Option (List Char × List Char)
  | '0' :: rest => some (['0'], rest)
  | cs =>
    match cs.span isDigit with
    | ([], _) => none
    | found => some found

def fraction : List Char → List Char × List Char
  | '.' :: rest =>
    match rest.span isDigit with
    | ([], _) => ([], '.' :: rest)
    | found => found
  | cs => ([], cs)

def exponentSign : List Char → Bool × List Char
  | '-' :: rest => (true, rest)
  | '+' :: rest => (false, rest)
  | cs => (false, cs)

def exponent? (cs : List Char) : Option Int × List Char :=
  match cs with
  | e :: rest =>
    if e = 'e' || e = 'E' then
      let (negative, figures) := exponentSign rest
      match figures.span isDigit with
      | ([], _) => (none, cs)
      | (digits, after) =>
        let size : Int := numberOf digits
        (some (if negative then -size else size), after)
    else (none, cs)
  | [] => (none, [])

def digitLimit : Nat := 4300

def number (negative : Bool) (cs : List Char) : Except Defect (Value × List Char) :=
  match whole? cs with
  | none => .error .malformed
  | some (digits, afterWhole) =>
    let (places, afterFraction) := fraction afterWhole
    let (power, rest) := exponent? afterFraction
    if places.isEmpty ∧ power.isNone then
      if digits.length ≤ digitLimit then
        let size : Int := numberOf digits
        .ok (.int (if negative then -size else size), rest)
      else .error .tooManyDigits
    else
      .ok (.float (Binary64.ofDecimal negative (numberOf (digits ++ places))
        (power.getD 0 - places.length)), rest)

/-! ## Text -/

def hexValue? (c : Char) : Option Nat :=
  if '0' ≤ c ∧ c ≤ '9' then some (c.toNat - '0'.toNat)
  else if 'a' ≤ c ∧ c ≤ 'f' then some (c.toNat - 'a'.toNat + 10)
  else if 'A' ≤ c ∧ c ≤ 'F' then some (c.toNat - 'A'.toNat + 10)
  else none

def unit? : List Char → Option (Nat × List Char)
  | a :: b :: c :: d :: rest => do
    let w ← hexValue? a
    let x ← hexValue? b
    let y ← hexValue? c
    let z ← hexValue? d
    return (((w * 16 + x) * 16 + y) * 16 + z, rest)
  | _ => none

/-- What stands for half of a surrogate pair without the other half. -/
def replacement : Char := '\ufffd'

/-- The character of an escaped unit, together with the next one if the two are a surrogate pair. -/
def unicode? (cs : List Char) : Option (Char × List Char) := do
  let (high, rest) ← unit? cs
  if 0xd800 ≤ high ∧ high ≤ 0xdbff then
    match rest with
    | '\\' :: 'u' :: next =>
      let (low, after) ← unit? next
      if 0xdc00 ≤ low ∧ low ≤ 0xdfff then
        return (Char.ofNat (0x10000 + (high - 0xd800) * 0x400 + (low - 0xdc00)), after)
      else return (replacement, rest)
    | _ => return (replacement, rest)
  else if 0xdc00 ≤ high ∧ high ≤ 0xdfff then return (replacement, rest)
  else return (Char.ofNat high, rest)

def escaped? : Char → Option Char
  | '"' => some '"'
  | '\\' => some '\\'
  | '/' => some '/'
  | 'b' => some '\x08'
  | 'f' => some '\x0c'
  | 'n' => some '\n'
  | 'r' => some '\r'
  | 't' => some '\t'
  | _ => none

def textBody : Nat → List Char → List Char → Except Defect (String × List Char)
  | 0, _, _ => .error .malformed
  | fuel + 1, seen, cs =>
    match cs with
    | [] => .error .malformed
    | '"' :: rest => .ok (String.ofList seen.reverse, rest)
    | '\\' :: 'u' :: rest =>
      match unicode? rest with
      | some (c, after) => textBody fuel (c :: seen) after
      | none => .error .malformed
    | '\\' :: c :: rest =>
      match escaped? c with
      | some e => textBody fuel (e :: seen) rest
      | none => .error .malformed
    | c :: rest => if c.toNat < 0x20 then .error .malformed else textBody fuel (c :: seen) rest

def text (cs : List Char) : Except Defect (String × List Char) := textBody (cs.length + 1) [] cs

/-! ## Values -/

mutual

def value : Nat → List Char → Except Defect (Value × List Char)
  | 0, _ => .error .malformed
  | fuel + 1, cs =>
    match cs with
    | '"' :: rest => do
      let (s, after) ← text rest
      return (.text s, after)
    | '\x7b' :: rest =>
      match skipBlanks rest with
      | '\x7d' :: after => .ok (.dict [], after)
      | next => members fuel [] next
    | '[' :: rest =>
      match skipBlanks rest with
      | ']' :: after => .ok (.list [], after)
      | next => items fuel [] next
    | '-' :: rest =>
      match word? "Infinity" rest with
      | some after => .ok (.float (.inf true), after)
      | none => number true rest
    | _ =>
      match word? "null" cs, word? "true" cs, word? "false" cs, word? "NaN" cs,
        word? "Infinity" cs with
      | some after, _, _, _, _ => .ok (.null, after)
      | _, some after, _, _, _ => .ok (.bool true, after)
      | _, _, some after, _, _ => .ok (.bool false, after)
      | _, _, _, some after, _ => .ok (.float .nan, after)
      | _, _, _, _, some after => .ok (.float (.inf false), after)
      | _, _, _, _, _ => number false cs

def items : Nat → List Value → List Char → Except Defect (Value × List Char)
  | 0, _, _ => .error .malformed
  | fuel + 1, seen, cs => do
    let (item, rest) ← value fuel cs
    match skipBlanks rest with
    | ']' :: after => return (.list (item :: seen).reverse, after)
    | ',' :: after => items fuel (item :: seen) (skipBlanks after)
    | _ => throw .malformed

def members : Nat → Dict → List Char → Except Defect (Value × List Char)
  | 0, _, _ => .error .malformed
  | fuel + 1, seen, cs =>
    match cs with
    | '"' :: rest => do
      let (key, afterKey) ← text rest
      match skipBlanks afterKey with
      | ':' :: next => do
        let (item, afterItem) ← value fuel (skipBlanks next)
        let entries := seen.put (.text key) item
        match skipBlanks afterItem with
        | '\x7d' :: after => return (.dict entries, after)
        | ',' :: after => members fuel entries (skipBlanks after)
        | _ => throw .malformed
      | _ => throw .malformed
    | _ => .error .malformed

end

def read (document : String) : Except Defect Value := do
  let cs := skipBlanks document.toList
  let (v, rest) ← value (cs.length + 1) cs
  if (skipBlanks rest).isEmpty then return v else throw .malformed

end Json
end TreeParty
