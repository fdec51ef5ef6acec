import TreeParty.CommandLine.Options
import TreeParty.Dataset.File
import TreeParty.Dataset.Training
import TreeParty.Field.File
import TreeParty.Session.Open
import TreeParty.Settings.File
/-!
# A run of the program

A run reads the settings, the field parameters and the dataset, prepares the samples, and takes part
in one training round. All that can fail at home is checked before anything is sent. A fault that is
fatal for a session is logged and ends the run in an orderly way.
-/

namespace TreeParty

inductive Outcome where
  | finished (result : SessionResult)
  | failed (fault : Fault)
  /-- No engine has a message left, and one is awaited. -/
  | unanswered
  | helped
  | misused

namespace Outcome

def ofEnding : Ending SessionResult → Outcome
  | .returned result => finished result
  | .failed fault => failed fault
  | .waiting => unanswered

/-- The status that a run exits with; a fault that is not fatal for a session in an orderly way has
none and passes through. -/
def status : Outcome → Option Nat
  | finished _ => some 0
  | helped => some 0
  | misused => some 2
  | failed .interrupted => some 1
  | failed fault => if fault.sessionName?.isSome then some 1 else none
  | unanswered => none

def farewell : Outcome → String
  | failed .interrupted => "Interrupted by user.\n"
  | _ => ""

def notices : Outcome → List Notice
  | failed fault =>
    match fault.sessionName? with
    | some name => [.fatal name fault.message]
    | none => []
  | _ => []

end Outcome

namespace Run

open CommandLine

variable {α : Type} {m : Type → Type} [Monad m]

def given (text : Option String) : Option String := text.filter fun t => !t.isEmpty

def hostNames (text : String) : List String := (text.toList.splitOn ',').map String.ofList

def tell (note : Notice → m Unit) (report : Report α) : ExceptT Fault m α := do
  report.notices.forM fun notice => (note notice : m Unit)
  report.result

def settings (look : String → m FileEntry) (options : Options) (before : Settings) :
    ExceptT Fault m Settings := do
  match given options.settings with
  | some path => SettingsFile.load path (← look path) before
  | none => return before

def engineCount (options : Options) : Except Fault Int := do
  match options.engineCount with
  | none => throw (.misuse .settingKind)
  | some engines =>
    if engines < 1 then throw (.configuration .engineCount)
    if options.clientId < 0 then throw (.configuration .clientId)
    return engines

/-- The field parameters from the file that the options name, or from its usual place. -/
def fieldParams (look : String → m FileEntry) (options : Options) (settings : Settings)
    (engines : Int) : ExceptT Fault m FieldParams := do
  let path ← match given options.paramsFile with
    | some path => pure (Path.ofText path)
    | none => (FieldFile.path settings engines options.prepDirectory : Except Fault Path)
  FieldFile.ofEntry path (← look path.text)

def datasetPath (options : Options) (settings : Settings) : Except Fault String := do
  let dataset ← (given options.dataset).elim (Settings.textOf (settings.get "DEFAULT_DATASET")) .ok
  let directory ← (given options.dataDirectory).elim (Settings.textOf (settings.get "DATA_DIR")) .ok
  return DatasetFile.path directory dataset options.clientId

def trainingData (look : String → m FileEntry) (note : Notice → m Unit) (options : Options)
    (settings : Settings) (F : FieldParams) : ExceptT Fault m TrainingData := do
  let path ← datasetPath options settings
  let table ← tell note (DatasetFile.ofEntry path (← look path))
  let data ← tell note (TrainingData.prepare table.toGrid options.clientId
    (settings.get "SPLIT_PERCENTAGE") (settings.get "LABEL_HOLDER_ID"))
  TrainingData.checkFits F settings.fixedPrecision data.samples.toGrid.cells
  TrainingData.checkFits F settings.fixedPrecision (data.labels.getD [])
  return data

/-- All that is done at home: the settings of the run and the plan of its round. -/
def plan (look : String → m FileEntry) (note : Notice → m Unit) (options : Options)
    (before : Settings) : ExceptT Fault m (Settings × SessionPlan) := do
  let settings ← settings look options before
  let engines ← engineCount options
  let F ← fieldParams look options settings engines
  let data ← trainingData look note options settings F
  return (settings, {
    field := F, clientId := options.clientId, engineCount := engines,
    samples := data.samples.toGrid, labels := data.labels,
    hosts := (given options.hosts).map hostNames, portBase := options.portBase,
    authenticated := options.authenticated })

def withOptions (look : String → m FileEntry) (net : Sockets m) (options : Options)
    (before : Settings) : m Outcome := do
  match ← plan look net.note options before with
  | .error fault => return .failed fault
  | .ok (settings, plan) => return .ofEnding (← plan.execute settings net)

def execute (look : String → m FileEntry) (net : Sockets m) (request : Request)
    (before : Settings) : m Outcome := do
  let outcome ← match request with
    | .run options => withOptions look net options before
    | .help => pure .helped
    | .misuse => pure .misused
  outcome.notices.forM net.note
  return outcome

end Run
end TreeParty
