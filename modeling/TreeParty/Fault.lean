import TreeParty.Binary64.Arith
import TreeParty.Binary64.Decimal
/-!
# Faults

What can stop an operation. The first four kinds of `Fault` are fatal for a session and end a run in
an orderly way: a round that has used up some of its triples cannot be resumed. A misuse is an
operand outside what an operation is for; it passes through.
-/

namespace TreeParty

/-- Wrong parameters, arguments or local files. A `cause` is the reason given by the system. -/
inductive ConfigurationFault where
  | smallModulus (prime : Int)
  | noLinks
  | engineCount
  | fewHosts (wanted : Int) (given : Nat)
  | clientId
  | parametersUnreadable (path cause : String)
  | parametersIncomplete (path : String)
  | parametersMalformed (path cause : String)
  | settingsUnreadable (path cause : String)
  | settingsNotDictionary (path : String)
  | datasetMissing (path : String)
  | datasetMalformed (path cause : String)
  | datasetIncomplete (path : String)
  | notTable (shape : List Nat)
  | unencodable
  | outsideField (bits : Nat)
  deriving DecidableEq, Repr

/-- A received buffer that does not hold what the exchange expects. -/
inductive WireFault where
  | underflow (width : Nat) (offset available : Int)
  | notReduced
  | shortBuffer (count bytes offset held : Int)
  | wrongLength (engine : Int) (got expected : Nat)
  | oversized (engine : Int) (announced : Nat) (limit : Int)
  deriving DecidableEq, Repr

/-- An engine, or several together, did not keep to the protocol. -/
inductive Violation where
  | inconsistentTriple (position : Nat)
  | unauthenticated
  deriving DecidableEq, Repr

/-- A connection that could not be opened or was lost. -/
inductive TransportFault where
  | closed (engine : Int)
  | dropped (engine : Int)
  | connect (engine : Int) (host port cause : String)
  | announce (engine : Int) (host port cause : String)
  | send (engine : Int) (cause : String)
  | receive (engine : Int) (cause : String)
  | midMessage (engine : Int)
  deriving DecidableEq, Repr

/-- An operand outside what an operation is for. -/
inductive Misuse where
  /-- A whole number beyond half the modulus. -/
  | signedRange (v : Int)
  | mixedFields
  /-- A plain number where a field element is expected. -/
  | notElement
  /-- A NaN or an infinity where a number is encoded. -/
  | notFinite (x : Binary64)
  | emptyResult
  /-- A NaN or an infinity where a whole number is needed. -/
  | notWhole (reason : Binary64.NotWhole)
  /-- A number too large for a double. -/
  | tooLarge
  | position
  /-- Rows of different lengths, or a shape that does not hold the items. -/
  | ragged
  /-- Values that do not fit the slots of a split vector. -/
  | slots
  | arity
  | noLabels
  /-- A setting of a kind that the operation cannot use. -/
  | settingKind
  /-- A setting of the right kind with an impossible content. -/
  | settingContent
  | tooManyDigits
  | divisionByZero
  | pathContent
  | undecodable
  | announcementRange
  /-- A port that is none, or a host that cannot be looked up. -/
  | portRange
  | hostName
  | unsupported
  /-- A link that broke while it was being closed. -/
  | brokenClose
  deriving DecidableEq

inductive Fault where
  | configuration (fault : ConfigurationFault)
  | wire (fault : WireFault)
  | violation (fault : Violation)
  | transport (fault : TransportFault)
  | misuse (fault : Misuse)
  | interrupted
  deriving DecidableEq

/-! ## Wording -/

def shapeText : List Nat → String
  | [] => "()"
  | [n] => "(" ++ toString n ++ ",)"
  | shape => "(" ++ String.intercalate ", " (shape.map toString) ++ ")"

/-- A message in the library's own words and, for some, the reason given by the system. -/
structure Wording where
  own : String
  cause : Option String := none

namespace Wording

def text (w : Wording) : String :=
  match w.cause with
  | none => w.own
  | some cause => w.own ++ ": " ++ cause

end Wording

namespace ConfigurationFault

def wording : ConfigurationFault → Wording
  | smallModulus prime => { own := s!"Field prime must be an odd prime, got {prime}" }
  | noLinks => { own := "At least one engine channel is required" }
  | engineCount => { own := "engine_count must be at least 1" }
  | fewHosts wanted given =>
    { own := s!"{wanted} engines requested but only {given} host names given" }
  | clientId => { own := "client_id must be non-negative" }
  | parametersUnreadable path cause =>
    { own := s!"Cannot read field parameters from {path}", cause := some cause }
  | parametersIncomplete path =>
    { own := s!"Field parameters file {path} must hold a prime and a gf2n degree" }
  | parametersMalformed path cause =>
    { own := s!"Malformed field parameters in {path}", cause := some cause }
  | settingsUnreadable path cause =>
    { own := s!"Cannot load config file {path}", cause := some cause }
  | settingsNotDictionary path => { own := s!"Config file {path} must hold a JSON object" }
  | datasetMissing path => { own := s!"Dataset file not found: {path}" }
  | datasetMalformed path cause =>
    { own := s!"Malformed dataset file {path}", cause := some cause }
  | datasetIncomplete path =>
    { own := s!"Malformed dataset file {path}: missing, ragged or non-finite values" }
  | notTable shape => { own := "Expected a 2-D dataset, got shape " ++ shapeText shape }
  | unencodable => { own := "Dataset holds a value that cannot be fixed-point encoded" }
  | outsideField bits =>
    { own := s!"Dataset holds a value outside the {bits}-bit field once fixed-point encoded" }

end ConfigurationFault

namespace WireFault

def wording : WireFault → Wording
  | underflow width offset available =>
    { own := s!"Buffer underflow: need {width} bytes at offset {offset}, have {available}" }
  | notReduced => { own := "Encoded element is not reduced modulo the field prime" }
  | shortBuffer count bytes offset held =>
    { own := s!"Expected {count} elements ({bytes} bytes) at offset {offset}, "
        ++ s!"buffer holds {held} bytes" }
  | wrongLength engine got expected =>
    { own := s!"Engine {engine} sent {got} bytes, expected {expected}" }
  | oversized engine announced limit =>
    { own := s!"Engine {engine} announced a {announced}-byte message, at most {limit} expected" }

end WireFault

namespace Violation

def wording : Violation → Wording
  | inconsistentTriple position => { own := s!"Incorrect triple at {position}, aborting" }
  | unauthenticated => { own := "Result failed authentication: y * r != w" }

end Violation

namespace TransportFault

def wording : TransportFault → Wording
  | closed engine => { own := s!"Channel to engine {engine} is closed" }
  | dropped engine => { own := s!"Engine {engine} dropped the connection" }
  | connect engine host port cause =>
    { own := s!"Cannot connect to engine {engine} at {host}:{port}", cause := some cause }
  | announce engine host port cause =>
    { own := s!"Cannot announce client id to engine {engine} at {host}:{port}",
      cause := some cause }
  | send engine cause => { own := s!"Send to engine {engine} failed", cause := some cause }
  | receive engine cause => { own := s!"Receive from engine {engine} failed", cause := some cause }
  | midMessage engine => { own := s!"Engine {engine} closed the connection mid-message" }

end TransportFault

namespace Misuse

def wording : Misuse → Wording
  | signedRange v => { own := s!"Signed value {v} does not fit in the field" }
  | mixedFields => { own := "Cannot combine elements of different fields" }
  | notElement => { own := "Expected FieldElement, got int" }
  | notFinite x => { own := "Cannot fixed-point encode non-finite value " ++ x.text }
  | emptyResult => { own := "Result size must be at least 1" }
  | notWhole .nan => { own := "A NaN is no whole number" }
  | notWhole .infinite => { own := "An infinity is no whole number" }
  | tooLarge => { own := "The number is too large for a double" }
  | position => { own := "The position is outside the list" }
  | ragged => { own := "The rows do not form a regular array" }
  | slots => { own := "The values do not fit the split vector" }
  | arity => { own := "Three shares are expected" }
  | noLabels => { own := "There are no labels to send" }
  | settingKind => { own := "A setting has the wrong kind" }
  | settingContent => { own := "A setting has an impossible content" }
  | tooManyDigits => { own := "A number has too many digits" }
  | divisionByZero => { own := "The samples are cut into no bins" }
  | pathContent => { own := "A path holds a zero character" }
  | undecodable => { own := "A file is not text" }
  | announcementRange => { own := "The client id does not fit its announcement" }
  | portRange => { own := "The port is out of range" }
  | hostName => { own := "A part of the host name is empty or too long" }
  | unsupported => { own := "The link does not have this operation" }
  | brokenClose => { own := "The link broke while it was being closed" }

end Misuse

namespace Fault

def wording : Fault → Wording
  | configuration f => f.wording
  | wire f => f.wording
  | violation f => f.wording
  | transport f => f.wording
  | misuse f => f.wording
  | interrupted => { own := "Interrupted" }

def message (f : Fault) : String := f.wording.text

/-- The name of a fault that is fatal for a session in an orderly way. -/
def sessionName? : Fault → Option String
  | configuration _ => some "ConfigurationError"
  | wire _ => some "WireFormatError"
  | violation _ => some "ProtocolViolation"
  | transport _ => some "TransportFailure"
  | _ => none

end Fault
end TreeParty
