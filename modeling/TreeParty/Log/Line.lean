import TreeParty.Fault
import TreeParty.Log.Redaction
/-!
# Log lines

A log line is a message with named fields, redacted before it is written. Lines below the level
`information` are not written.
-/

namespace TreeParty
namespace Log

inductive Level where
  | debug
  | information
  | warning
  | error
  | critical
  deriving DecidableEq, Repr

namespace Level

def name : Level → String
  | debug => "DEBUG"
  | information => "INFO"
  | warning => "WARNING"
  | error => "ERROR"
  | critical => "CRITICAL"

/-- The level of a name in upper or lower case; a name that is no level means information. -/
def ofName (name : String) : Level :=
  match String.ofList (name.toList.map foldCase) with
  | "debug" => debug
  | "warning" | "warn" => warning
  | "error" | "exception" => error
  | "critical" | "fatal" => critical
  | _ => information

def isWritten (level : Level) : Bool := level != debug

end Level

structure Line where
  level : Level
  text : String
  deriving DecidableEq, Repr

def names (fields : List (String × Value)) : Container :=
  .dict (fields.map fun (name, _) => .text name)

def redactField (m : Machine) (container : Container) : (String × Value) × Nat → Value × Value
  | ((name, value), position) =>
    (.text name, if isSensitiveName name then .text redactedMark
      else value.redact (m.inside container position))

def redactFields (m : Machine) (fields : List (String × Value)) : List (Value × Value) :=
  fields.zipIdx.map (redactField m (names fields))

/-- The text of a line: the message, and the fields if there are any. -/
def render (m : Machine) (message : String) (fields : List (String × Value)) : String :=
  if fields.isEmpty then message
  else message ++ " | " ++ (Value.dict (redactFields m fields)).literal

def line (m : Machine) (level : Level) (message : String) (fields : List (String × Value)) :
    Line :=
  ⟨level, render m message fields⟩

def written (m : Machine) (level : Level) (message : String) (fields : List (String × Value)) :
    List Line :=
  if level.isWritten then [line m level message fields] else []

/-- Names, in lower case, of the parts of a log. They are no levels, and no message can be given to
them. -/
def partNames : List String :=
  ["name", "level", "parent", "propagate", "handlers", "disabled", "root", "manager", "filters",
    "log"]

def checkFields (m : Machine) (fields : List (String × Value)) : Except Misuse Unit :=
  if fields.isEmpty then .ok () else m.writes (.dict (redactFields m fields))

/-- The lines that are written for a message whose level is given by name. The text is made first,
whatever the level. A message that is given to the filter of the log is not written. -/
def writtenAt (m : Machine) (levelName message : String) (fields : List (String × Value)) :
    Except Fault (List Line) :=
  let name := String.ofList (levelName.toList.map foldCase)
  match checkFields m fields with
  | .error cause => .error (.misuse cause)
  | .ok () =>
    if partNames.contains name then .error (.misuse .settingKind)
    else if name = "filter" then .ok []
    else .ok (written m (.ofName levelName) message fields)

end Log
end TreeParty
