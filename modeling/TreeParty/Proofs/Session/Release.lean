import TreeParty.Proofs.Link.Release
import TreeParty.Session.Open
/-!
# Letting go of the connections of a round

However a round over a network ends, every connection that was made for it is hung up exactly once.
Waiting for the connections to be closed comes last, and nothing that it meets changes how the round
ends.
-/

set_option autoImplicit false

namespace TreeParty

variable {σ : Type} {m : Type → Type} [Monad m]

/-! ## How connections are waited for -/

namespace Sockets

/-- The same system with another way of waiting for a connection to be closed. -/
def settling (net : Sockets m) (settle : Nat → m Settled) : Sockets m :=
  { net with settle := settle }

theorem reachAll_settling (net : Sockets m) (settle : Nat → m Settled) (base clientId : Int)
    (hosts : List String) (handles : List Nat) :
    (net.settling settle).reachAll base clientId hosts handles =
      net.reachAll base clientId hosts handles := by
  induction hosts generalizing handles with
  | nil => rfl
  | cons host rest ih =>
    rw [reachAll, reachAll]
    refine congrArg _ (funext fun outcome => ?_)
    cases outcome with
    | ok handle => exact ih (handles ++ [handle])
    | error fault => rfl

theorem reachWanted_settling (net : Sockets m) (settle : Nat → m Settled) (hosts : List String)
    (basePort : Except Fault Int) (clientId : Int) (engineCount : Option Int) :
    (net.settling settle).reachWanted hosts basePort clientId engineCount =
      net.reachWanted hosts basePort clientId engineCount := by
  unfold reachWanted
  cases basePort with
  | error fault => rfl
  | ok base => simp only [reachAll_settling]

theorem read_settling {α : Type} (net : Sockets m) (settle : Nat → m Settled) (engine : Int)
    (handle : Nat) (reading : Reading α) :
    (net.settling settle).read engine handle reading = net.read engine handle reading := by
  induction reading with
  | done a => rfl
  | fail fault => rfl
  | take count next ih =>
    rw [read, read]
    refine congrArg _ (funext fun intake => ?_)
    cases intake with
    | bytes content => exact ih content
    | ended => rfl
    | broken cause => rfl

theorem carrier_settling (net : Sockets m) (settle : Nat → m Settled) (handles : List Nat) :
    Link.carrier ((net.settling settle).linksTo handles) (net.settling settle).note =
      Link.carrier (net.linksTo handles) net.note := by
  unfold Link.carrier linksTo
  simp only [List.getElem?_map]
  congr 1
  · funext engine payload
    cases handles.zipIdx[engine]? <;> rfl
  · funext engine limit
    cases handles.zipIdx[engine]? with
    | none => rfl
    | some entry => exact read_settling net settle entry.2 entry.1 (Frame.reading entry.2 limit)

end Sockets

/-! ## The round without its end -/

namespace SessionPlan

open SystemCall Sockets

def round (plan : SessionPlan) (settings : Settings) (net : Sockets m) :
    m (Ending SessionResult) := do
  let hosts := plan.hosts.getD (settings.defaultHosts plan.engineCount)
  let base := plan.portBase.elim settings.portBase .ok
  match ← net.reachWanted hosts base plan.clientId (some plan.engineCount) with
  | (.error fault, _) => pure (.failed fault)
  | (.ok (), handles) => do
    let s := plan.session settings handles.length
    let ending ← s.run.run (Link.carrier (net.linksTo handles) net.note) ⟨0, []⟩
    return SessionResult.ofEnding s ending

theorem round_settling (plan : SessionPlan) (settings : Settings) (net : Sockets m)
    (settle : Nat → m Settled) :
    plan.round settings (net.settling settle) = plan.round settings net := by
  unfold round
  simp only [reachWanted_settling, carrier_settling]

variable (plan : SessionPlan) (settings : Settings) (net : Sockets (StateM σ))

/-- Closing the connections does not change how a round ends, unless waiting for one goes wrong
altogether. -/
theorem execute_fst (seen : σ × List SystemCall)
    (horderly : AreOrderly (plan.execute settings net.recorded seen).2.2) :
    (plan.execute settings net.recorded seen).1 = (plan.round settings net.recorded seen).1 := by
  revert horderly
  unfold execute round
  rw [connect_eq_reachWanted]
  simp only [Bind.bind, StateT.bind]
  rcases net.recorded.reachWanted _ _ plan.clientId _ seen with ⟨⟨fault | _, handles⟩, between⟩
  · -- Here connections are closed before there is a result, which the closing could replace.
    obtain ⟨calls, hcalls, ⟨other, hother⟩, hresult⟩ :=
      logs_conclude_error net fault handles between
    dsimp only
    revert hcalls hresult hother
    rcases net.recorded.conclude (.error fault, handles) between with ⟨result, after⟩
    rintro hcalls hresult rfl horderly
    have horderly : AreOrderly (between.2 ++ calls) := hcalls ▸ horderly
    cases (hresult (areOrderly_append.mp horderly).2).1
    rfl
  · intro _
    have hcount := length_linksTo net.recorded handles
    show (plan.runOver settings net.recorded (net.recorded.linksTo handles) between).1 = _
    unfold runOver
    rw [hcount]
    rfl

/-! ## The calls of a round -/

theorem logs_runOver (handles : List Nat) :
    Logs (plan.runOver settings net.recorded (net.recorded.linksTo handles)) fun _ calls =>
      Tally calls [] [] handles := by
  unfold runOver
  refine (logs_run net handles _ _).bind fun ending first hfirst => ?_
  refine (logs_closeAll net handles.zipIdx).bind fun _ second hsecond => .pure ?_
  rw [map_fst_zipIdx] at hsecond
  rw [List.append_nil]
  exact hfirst.append hsecond

theorem logs_connect_of_error (fault : Fault) (hosts : List String) (clientId : Int)
    (engineCount : Option Int) :
    Logs (net.recorded.connect hosts (.error fault) clientId engineCount) fun result calls =>
      (∃ other, result = .error other) ∧ Tally calls [] [] [] := by
  rw [connect_eq_reachWanted]
  unfold reachWanted
  dsimp only
  split
  · rw [pure_bind, conclude_error_nil]
    exact .pure ⟨⟨_, rfl⟩, .nil⟩
  split
  · rw [pure_bind, conclude_error_nil]
    exact .pure ⟨⟨_, rfl⟩, .nil⟩
  · rw [pure_bind, conclude_error_nil]
    exact .pure ⟨⟨_, rfl⟩, .nil⟩

/-- Either there are links over the connections that were made, or all of them were hung up. -/
theorem logs_connect_balance {clientId : Int} (hlow : -2147483648 ≤ clientId)
    (hhigh : clientId ≤ 2147483647) (hosts : List String) (basePort : Except Fault Int)
    (engineCount : Option Int) :
    Logs (net.recorded.connect hosts basePort clientId engineCount) fun result calls =>
      (∃ handles, result = .ok (net.recorded.linksTo handles) ∧ connections calls = handles ∧
        hangUps calls = []) ∨
      ((∃ fault, result = .error fault) ∧
        (AreOrderly calls → (hangUps calls).Perm (connections calls))) := by
  cases basePort with
  | error fault =>
    refine (logs_connect_of_error net fault hosts clientId engineCount).mono fun _ calls h => ?_
    obtain ⟨hfault, htally⟩ := h
    refine .inr ⟨hfault, fun _ => ?_⟩
    rw [htally.hangUps, htally.connections]
  | ok base =>
    refine (logs_connect net hlow hosts base engineCount).mono fun result calls h => ?_
    cases result with
    | ok links =>
      left
      have hconnects := h fun fault hfault => by cases hfault
      cases hconnects with
      | connected hcount htally => exact ⟨_, rfl, htally.connections, htally.hangUps⟩
    | error fault =>
      refine .inr ⟨⟨fault, rfl⟩, fun horderly => ?_⟩
      cases h fun _ _ => horderly with
      | rejected hcount => exact .refl []
      | unreached hfront hcount hfault htally hgone =>
        rw [htally.hangUps, htally.connections]
        exact hgone
      | unannounceable hclientId hhost htally => omega

theorem logs_execute (hlow : -2147483648 ≤ plan.clientId) (hhigh : plan.clientId ≤ 2147483647) :
    Logs (plan.execute settings net.recorded) fun _ calls =>
      AreOrderly calls → (hangUps calls).Perm (connections calls) := by
  unfold execute
  dsimp only
  refine (logs_connect_balance net hlow hhigh _ _ _).bind fun result first hfirst => ?_
  rcases hfirst with ⟨handles, rfl, hmade, hnone⟩ | ⟨⟨fault, rfl⟩, hbalance⟩
  · refine (logs_runOver plan settings net handles).mono fun _ second hsecond _ => ?_
    rw [hangUps_append, connections_append, hmade, hnone, hsecond.hangUps, hsecond.connections,
      List.append_nil, List.nil_append]
  · refine .pure fun horderly => ?_
    rw [List.append_nil] at horderly ⊢
    exact hbalance horderly

/-- However a round ends, every connection that was made is hung up exactly once, and another way of
waiting for connections to be closed would not change how it ends. -/
theorem execute_releases_connections (hlow : -2147483648 ≤ plan.clientId)
    (hhigh : plan.clientId ≤ 2147483647) (state : σ) :
    let left := plan.execute settings net.recorded (state, [])
    AreOrderly left.2.2 → (hangUps left.2.2).Perm (connections left.2.2) ∧
      ∀ settle : Nat → StateM σ Settled,
        let other := plan.execute settings (net.settling settle).recorded (state, [])
        AreOrderly other.2.2 → other.1 = left.1 := by
  intro left horderly
  constructor
  · obtain ⟨calls, hcalls, hpost⟩ := logs_execute plan settings net hlow hhigh (state, [])
    have hcalls : left.2.2 = calls := hcalls
    rw [hcalls] at horderly ⊢
    exact hpost horderly
  · intro settle other horderly'
    have hsame : (net.settling settle).recorded =
      net.recorded.settling (net.settling settle).recorded.settle := rfl
    have hround := round_settling plan settings net.recorded (net.settling settle).recorded.settle
    rw [← hsame] at hround
    have hother := execute_fst plan settings (net.settling settle) (state, []) horderly'
    rw [hround] at hother
    exact hother.trans (execute_fst plan settings net (state, []) horderly).symm

/-- The first of two engines ends its stream at once and complains when it is closed. -/
theorem execute_releases_connections_two_engines :
    let plan : SessionPlan :=
      ⟨⟨521, 40, by decide⟩, 7, 2, ⟨[1, 1], [.zero], rfl⟩, none, some ["near", "far"], some 20000,
        false⟩
    let stream : Settled → ByteStream := fun settling => ⟨[], false, none, settling, 0, [], 0⟩
    let net : Network :=
      ⟨[.accepted (stream (.complained "reset")), .accepted (stream .quiet)], [], []⟩
    let left := plan.execute .default Network.sockets.recorded (net, [])
    let other := plan.execute .default
      (Network.sockets.settling fun _ => pure .quiet).recorded (net, [])
    AreOrderly left.2.2 ∧ AreOrderly other.2.2 ∧ (hangUps left.2.2).Perm (connections left.2.2) ∧
      connections left.2.2 = [0, 1] ∧ other.1 = left.1 := by
  intro plan stream net
  dsimp only
  have horderly : AreOrderly (plan.execute .default Network.sockets.recorded (net, [])).2.2 := by
    unfold AreOrderly
    decide +kernel
  have horderly' : AreOrderly (plan.execute .default
      (Network.sockets.settling fun _ => pure .quiet).recorded (net, [])).2.2 := by
    unfold AreOrderly
    decide +kernel
  have hmade : connections (plan.execute .default Network.sockets.recorded (net, [])).2.2 =
      [0, 1] := by
    decide +kernel
  obtain ⟨hbalance, hsettle⟩ := execute_releases_connections plan .default Network.sockets
    (by decide) (by decide) net horderly
  exact ⟨horderly, horderly', hbalance, hmade, hsettle (fun _ => pure .quiet) horderly'⟩

end SessionPlan
end TreeParty
