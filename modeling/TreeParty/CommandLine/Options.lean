import TreeParty.CommandLine.Token
import TreeParty.Text.Integer
/-!
# Options of a run

A command line gives a client id, a number of engines and, if wanted, a dataset and a first port, in
this order; flags may stand between them. Words that stand together are taken together: once the
number of engines is given, the dataset and the port must follow before the next flag. A second
double hyphen leaves its place empty.
-/

namespace TreeParty
namespace CommandLine

structure Options where
  clientId : Int := 0
  /-- The number of engines, unless its place was left empty. -/
  engineCount : Option Int := none
  dataset : Option String := none
  portBase : Option Int := none
  hosts : Option String := none
  dataDirectory : Option String := none
  paramsFile : Option String := none
  prepDirectory : Option String := none
  settings : Option String := none
  authenticated : Bool := false

namespace Options

def set (flag : Flag) (value : String) (options : Options) : Options :=
  match flag with
  | .hosts => { options with hosts := some value }
  | .dataDirectory => { options with dataDirectory := some value }
  | .paramsFile => { options with paramsFile := some value }
  | .prepDirectory => { options with prepDirectory := some value }
  | .settings => { options with settings := some value }
  | .help => options
  | .authenticated => options

end Options

inductive Request where
  | run (options : Options)
  | help
  | misuse

inductive Place where
  | client
  | engines
  | dataset
  | port
  /-- All words have been read, and no flag behind them. -/
  | full
  /-- No word is expected any more. -/
  | closed
  deriving DecidableEq, Repr

structure Draft where
  options : Options := {}
  place : Place := .client
  /-- Whether no word has been read since the last flag. -/
  fresh : Bool := true
  /-- Whether there is an argument that has no meaning. -/
  surplus : Bool := false

namespace Draft

/-- A flag ends a group of words. -/
def endGroup (draft : Draft) : Draft :=
  let place := match draft.place with
    | .client => .client
    | .engines => .engines
    | _ => .closed
  { draft with place := place, fresh := true }

def setFlag (flag : Flag) (value : String) (draft : Draft) : Draft :=
  { draft.endGroup with options := draft.options.set flag value }

/-- A place that a double hyphen leaves empty, or what a word gives. -/
def unlessEmpty {α : Type} (text : String) (value : Option α) : Option (Option α) :=
  if text = "--" then some none else value.map some

def take (text : String) (draft : Draft) : Option Draft :=
  let draft := { draft with fresh := false }
  match draft.place with
  | .client => do
    let n ← Text.integer? text
    return { draft with options.clientId := n, place := .engines }
  | .engines => do
    let n ← unlessEmpty text (Text.integer? text)
    return { draft with options.engineCount := n, place := .dataset }
  | .dataset => do
    let name ← unlessEmpty text (some text)
    return { draft with options.dataset := name, place := .port }
  | .port => do
    let n ← unlessEmpty text (Text.integer? text)
    return { draft with options.portBase := n, place := .full }
  | _ => some { draft with surplus := true }

def separate (draft : Draft) : Draft :=
  if draft.place = .closed then { draft with surplus := true } else draft

def finish (draft : Draft) : Request :=
  if draft.surplus || draft.place = .client || draft.place = .engines then .misuse
  else .run draft.options

end Draft

namespace Request

/-- Letters behind the short help flag: more help flags, or what is left aside. -/
def ofShortHelp : List Char → Request
  | [] => .help
  | c :: rest =>
    if c = '-' || c = '=' then .misuse else if c = 'h' then ofShortHelp rest else .help

/-- Reads tokens in order; a help flag is obeyed where it stands. -/
def ofTokens (draft : Draft) : List Token → Request
  | [] => draft.finish
  | .stray :: rest => ofTokens { draft.endGroup with surplus := true } rest
  | .shortHelp letters :: _ => ofShortHelp letters
  | .flag flag (some value) :: rest =>
    if flag.takesValue then ofTokens (draft.setFlag flag value) rest else .misuse
  | .flag .help none :: _ => .help
  | .flag .authenticated none :: rest =>
    ofTokens { draft.endGroup with options.authenticated := true } rest
  | .flag flag none :: .word value :: rest => ofTokens (draft.setFlag flag value) rest
  | .flag _ none :: _ => .misuse
  | .separator :: .word text :: rest =>
    if draft.fresh && text = "--" then .misuse
    else
      match draft.separate.take text with
      | some next => ofTokens next rest
      | none => .misuse
  | .separator :: rest => ofTokens draft.separate rest
  | .word text :: rest =>
    match draft.take text with
    | some next => ofTokens next rest
    | none => .misuse

def ofArguments (arguments : List String) : Request :=
  match Token.ofArguments? arguments with
  | some tokens => ofTokens {} tokens
  | none => .misuse

end Request
end CommandLine
end TreeParty
