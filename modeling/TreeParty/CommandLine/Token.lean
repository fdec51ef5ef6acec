import TreeParty.Text.DecimalDigit
/-!
# Words and flags of a command line

An argument is a word or a flag. A long flag may be cut short as long as it stays the only one with
its beginning, and may have a value behind an equals sign. Negative numbers, and arguments with a
space in them that are no flag, are words. Behind a double hyphen all arguments are words.
-/

namespace TreeParty
namespace CommandLine

inductive Flag where
  | help
  | hosts
  | dataDirectory
  | paramsFile
  | prepDirectory
  | settings
  | authenticated
  deriving DecidableEq, Repr

namespace Flag

def name : Flag → String
  | help => "--help"
  | hosts => "--hosts"
  | dataDirectory => "--data-dir"
  | paramsFile => "--params-file"
  | prepDirectory => "--prep-dir"
  | settings => "--config"
  | authenticated => "--authenticated-result"

def all : List Flag :=
  [help, hosts, dataDirectory, paramsFile, prepDirectory, settings, authenticated]

def takesValue : Flag → Bool
  | help => false
  | authenticated => false
  | _ => true

def beginningWith (start : List Char) : List Flag :=
  all.filter fun flag => start.isPrefixOf flag.name.toList

end Flag

inductive Token where
  | word (text : String)
  | separator
  /-- A flag with the value that is attached to it. -/
  | flag (flag : Flag) (attached : Option String)
  /-- The short help flag with the letters that follow it in the same argument. -/
  | shortHelp (letters : List Char)
  /-- What looks like a flag and is none. -/
  | stray
  deriving DecidableEq, Repr

namespace Token

def isDigit (c : Char) : Bool := (Text.digitValue? c).isSome

/-- Whether digits, with or without a decimal point, follow the sign of a number. One line feed may
come at the end. -/
def isMagnitude (cs : List Char) : Bool :=
  let cs := if cs.getLast? = some '\n' then cs.dropLast else cs
  match cs.span isDigit with
  | (digits, []) => !digits.isEmpty
  | (_, '.' :: places) => !places.isEmpty && places.all isDigit
  | _ => false

def unflagged (text : String) (rest : List Char) : Token :=
  if isMagnitude rest || rest.contains ' ' then word text else stray

def flagOf (flag : Flag) : List Char → Token
  | _ :: value => .flag flag (some (String.ofList value))
  | [] => .flag flag none

def ofText? (text : String) : Option Token :=
  match text.toList with
  | '-' :: '-' :: rest =>
    let (start, value) := ('-' :: '-' :: rest).span (· ≠ '=')
    match Flag.beginningWith start with
    | [] => some (unflagged text ('-' :: rest))
    | [found] => some (flagOf found value)
    | _ => none
  | '-' :: 'h' :: letters => some (shortHelp letters)
  | '-' :: c :: rest => some (unflagged text (c :: rest))
  | _ => some (word text)

def ofArguments? : List String → Option (List Token)
  | [] => some []
  | text :: rest =>
    if text = "--" then some (separator :: rest.map word)
    else do
      let token ← ofText? text
      let tokens ← ofArguments? rest
      return token :: tokens

end Token
end CommandLine
end TreeParty
