import TreeParty.Link.Stream
import TreeParty.Session
import TreeParty.Settings.Table
/-!
# Sessions over a network

Connects to every engine, carries out one training round, and closes the connections however the
round ended.
-/

namespace TreeParty

/-- What a round that came to its end tells. -/
structure SessionResult where
  resultIndex : Int
  inputsSent : Nat
  featureCount : Nat
  featureSplits : List (List Binary64)

namespace SessionResult

def ofEnding (s : Session) : Ending Int × Progress → Ending SessionResult
  | (.returned index, progress) =>
    .returned ⟨index, progress.inputsSent, s.samples.featureCount, progress.featureSplits⟩
  | (.failed fault, _) => .failed fault
  | (.waiting, _) => .waiting

end SessionResult

/-- What a round is about, before there are links. -/
structure SessionPlan where
  field : FieldParams
  clientId : Int
  engineCount : Int
  samples : Grid
  labels : Option (List Binary64)
  hosts : Option (List String)
  portBase : Option Int
  authenticated : Bool

namespace SessionPlan

def session (plan : SessionPlan) (settings : Settings) (engines : Nat) : Session where
  client := ⟨plan.field, engines, settings.fixedPrecision⟩
  samples := plan.samples
  labels := plan.labels
  authenticated := plan.authenticated
  splitLimit := settings.splitLimit
  splitSentinel := settings.splitSentinel

variable {m : Type → Type} [Monad m]

/-- One round over links, which are closed at the end. -/
def runOver (plan : SessionPlan) (settings : Settings) (net : Sockets m) (links : List (Link m)) :
    m (Ending SessionResult) := do
  let s := plan.session settings links.length
  let ending ← s.run.run (Link.carrier links net.note) ⟨0, []⟩
  Link.closeAll net.note links
  return SessionResult.ofEnding s ending

def execute (plan : SessionPlan) (settings : Settings) (net : Sockets m) :
    m (Ending SessionResult) := do
  let hosts := plan.hosts.getD (settings.defaultHosts plan.engineCount)
  let base := plan.portBase.elim settings.portBase .ok
  match ← net.connect hosts base plan.clientId (some plan.engineCount) with
  | .error fault => pure (.failed fault)
  | .ok links => plan.runOver settings net links

end SessionPlan
end TreeParty
