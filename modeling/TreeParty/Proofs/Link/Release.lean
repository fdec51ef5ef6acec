import TreeParty.Proofs.Link.Calls
import TreeParty.Proofs.Link.Network
/-!
# Connecting, and letting go

Connecting reaches the engines one after the other and then makes links of the connections or, when
an engine could not be reached, closes those that were made. Whatever the system does, the engines
are dialled in order, and a failure to reach one leaves no connection open. The exception is a
client id that cannot be announced: it is found out when the first connection is made already.
-/

set_option autoImplicit false

namespace TreeParty

variable {σ : Type} {m : Type → Type} [Monad m]

namespace Sockets

/-! ## Reaching and concluding -/

/-- Reaches engines in order after some others, up to the first that cannot be reached. -/
def reachAll (net : Sockets m) (base clientId : Int) :
    List String → List Nat → m (Except Fault Unit × List Nat)
  | [], handles => pure (.ok (), handles)
  | host :: rest, handles => do
    match ← net.reach host (base + handles.length) clientId handles.length with
    | .ok handle => net.reachAll base clientId rest (handles ++ [handle])
    | .error fault => pure (.error fault, handles)

def reachWanted (net : Sockets m) (hosts : List String) (basePort : Except Fault Int)
    (clientId : Int) (engineCount : Option Int) : m (Except Fault Unit × List Nat) :=
  let wanted := engineCount.getD hosts.length
  if wanted < 1 then pure (.error (.configuration .engineCount), [])
  else if (hosts.length : Int) < wanted then
    pure (.error (.configuration (.fewHosts wanted hosts.length)), [])
  else
    match basePort with
    | .error fault => pure (.error fault, [])
    | .ok base => net.reachAll base clientId (hosts.take wanted.toNat) []

/-- What becomes of the connections that were made. -/
def conclude (net : Sockets m) (reached : Except Fault Unit × List Nat) :
    m (Except Fault (List (Link m))) :=
  match reached with
  | (.ok (), handles) => pure (.ok (net.linksTo handles))
  | (.error (.transport fault), handles) => do
    match ← Link.closeEach (net.linksTo handles) with
    | .ok () => pure (.error (.transport fault))
    | .error other => pure (.error other)
  | (.error fault, _) => pure (.error fault)

theorem openLinks_eq_reachAll [LawfulMonad m] (net : Sockets m) (base clientId : Int)
    (hosts : List String) (handles : List Nat) :
    net.openLinks (.ok base) clientId hosts handles.length (net.linksTo handles) =
      net.reachAll base clientId hosts handles >>= net.conclude := by
  induction hosts generalizing handles with
  | nil =>
    rw [reachAll, pure_bind]
    rfl
  | cons host rest ih =>
    rw [openLinks, reachAll, openLink, bind_assoc, bind_assoc]
    refine congrArg _ (funext fun outcome => ?_)
    rw [pure_bind]
    cases outcome with
    | ok handle =>
      have hnext := ih (handles ++ [handle])
      rw [linksTo_concat, List.length_append] at hnext
      exact hnext
    | error fault =>
      dsimp only
      rw [pure_bind]
      cases fault <;> rfl

theorem conclude_error_nil [LawfulMonad m] (net : Sockets m) (fault : Fault) :
    net.conclude (.error fault, []) = pure (.error fault) := by
  cases fault with
  | transport cause =>
    unfold conclude
    dsimp only
    rw [show Link.closeEach (net.linksTo []) = pure (.ok ()) from rfl, pure_bind]
  | _ => rfl

theorem connect_eq_reachWanted [LawfulMonad m] (net : Sockets m) (hosts : List String)
    (basePort : Except Fault Int) (clientId : Int) (engineCount : Option Int) :
    net.connect hosts basePort clientId engineCount =
      net.reachWanted hosts basePort clientId engineCount >>= net.conclude := by
  unfold connect reachWanted
  dsimp only
  split
  · rw [pure_bind, conclude_error_nil]
  split
  · rw [pure_bind, conclude_error_nil]
  cases basePort with
  | error fault =>
    obtain ⟨host, rest, hhosts⟩ : ∃ host rest,
        hosts.take (engineCount.getD hosts.length).toNat = host :: rest := by
      apply List.exists_cons_of_length_pos
      rw [List.length_take]
      omega
    rw [hhosts, pure_bind, conclude_error_nil]
    rfl
  | ok base => exact openLinks_eq_reachAll net base clientId _ []

/-! ## What reaching engines calls -/

open SystemCall

/-- The addresses of engines from a number on: one host for each, at consecutive ports. -/
def addressesFrom (base : Int) (start : Nat) (hosts : List String) : List (String × Int) :=
  (hosts.zipIdx start).map fun (host, engine) => (host, base + engine)

/-- How reaching an engine can fail, with the connections that it makes and hangs up then. -/
inductive Unreached (clientId : Int) (host : String) (port engine : Int) :
    Fault → List Nat → List Nat → Prop where
  | refused (cause : String) : Unreached clientId host port engine
      (.transport (.connect engine host (toString port) cause)) [] []
  | unannounced (handle : Nat) (cause : String) : Unreached clientId host port engine
      (.transport (.announce engine host (toString port) cause)) [handle] [handle]
  | unannounceable (handle : Nat) {fault : Fault} (h : Frame.announcement clientId = .error fault) :
      Unreached clientId host port engine fault [handle] []

variable (net : Sockets (StateM σ))

theorem logs_reach (host : String) (port clientId engine : Int) :
    Logs (net.recorded.reach host port clientId engine) fun outcome calls =>
      match outcome with
      | .ok handle => (∃ bytes, Frame.announcement clientId = .ok bytes) ∧
          Tally calls [(host, port)] [handle] []
      | .error fault => AreOrderly calls → ∃ made gone,
          Unreached clientId host port engine fault made gone ∧
            Tally calls [(host, port)] made gone := by
  refine (logs_dial net host port).bind fun outcome first hfirst => ?_
  cases hfirst
  cases outcome with
  | refused cause => exact .pure fun _ => ⟨[], [], .refused cause, ⟨rfl, rfl, rfl⟩⟩
  | raised cause =>
    refine .pure fun horderly => ?_
    simp [AreOrderly, isOrderly] at horderly
  | interrupted =>
    refine .pure fun horderly => ?_
    simp [AreOrderly, isOrderly] at horderly
  | connected handle =>
    dsimp only
    cases hannounce : Frame.announcement clientId with
    | error fault =>
      exact .pure fun _ => ⟨[handle], [], .unannounceable handle hannounce, ⟨rfl, rfl, rfl⟩⟩
    | ok bytes =>
      refine (logs_transmit net handle bytes).bind fun failure second hsecond => ?_
      cases hsecond
      cases failure with
      | none => exact .pure ⟨⟨bytes, rfl⟩, ⟨rfl, rfl, rfl⟩⟩
      | some cause =>
        refine (logs_hangUp net handle).bind fun _ third hthird => ?_
        cases hthird
        exact .pure fun _ => ⟨[handle], [handle], .unannounced handle cause, ⟨rfl, rfl, rfl⟩⟩

/-- Some engines were reached, the next one could not be, and no other was dialled. -/
structure StopsAt (base clientId : Int) (start : Nat) (hosts : List String) (fault : Fault)
    (before : List Nat) (calls : List SystemCall) (front : List String) (host : String)
    (made gone : List Nat) : Prop where
  isPrefix : front ++ [host] <+: hosts
  length : front.length = before.length
  unreached : Unreached clientId host (base + (start + front.length : Nat))
    (start + front.length : Nat) fault made gone
  announced : ∀ other, Frame.announcement clientId = .error other → front = []
  tally : Tally calls (addressesFrom base start (front ++ [host])) (before ++ made) gone

theorem StopsAt.cons {base clientId : Int} {start handle : Nat} {hosts front : List String}
    {fault : Fault} {before made gone : List Nat} {calls first : List SystemCall}
    {host last : String} {bytes : Bytes}
    (h : StopsAt base clientId (start + 1) hosts fault before calls front last made gone)
    (hannounce : Frame.announcement clientId = .ok bytes)
    (hfirst : Tally first [(host, base + start)] [handle] []) :
    StopsAt base clientId start (host :: hosts) fault (handle :: before) (first ++ calls)
      (host :: front) last made gone := by
  have hplace : start + 1 + front.length = start + (host :: front).length := by
    rw [List.length_cons]
    omega
  constructor
  case isPrefix => exact List.cons_prefix_cons.mpr ⟨rfl, h.isPrefix⟩
  case length => exact congrArg Nat.succ h.length
  case unreached =>
    rw [← hplace]
    exact h.unreached
  case announced =>
    intro other hother
    rw [hannounce] at hother
    cases hother
  case tally => exact hfirst.append h.tally

/-- Engines are dialled in order. Unless all are reached, the last that was dialled is the first
that could not be reached. -/
theorem logs_reachAll (base clientId : Int) (hosts : List String) (handles : List Nat) :
    Logs (net.recorded.reachAll base clientId hosts handles) fun reached calls =>
      match reached with
      | (.ok (), all) => ∃ made, all = handles ++ made ∧ made.length = hosts.length ∧
          Tally calls (addressesFrom base handles.length hosts) made []
      | (.error fault, all) => AreOrderly calls → ∃ front host before made gone,
          all = handles ++ before ∧
            StopsAt base clientId handles.length hosts fault before calls front host made gone := by
  -- The first engine either ends the loop or moves the place of all others by one.
  induction hosts generalizing handles with
  | nil => exact .pure ⟨[], (List.append_nil handles).symm, rfl, .nil⟩
  | cons host rest ih =>
    refine (logs_reach net host _ clientId _).bind fun outcome first hfirst => ?_
    cases outcome with
    | error fault =>
      refine .pure fun horderly => ?_
      rw [List.append_nil] at horderly ⊢
      obtain ⟨made, gone, hunreached, htally⟩ := hfirst horderly
      exact ⟨[], host, [], made, gone, (List.append_nil handles).symm, ⟨rest, rfl⟩, rfl, hunreached,
        fun _ _ => rfl, htally⟩
    | ok handle =>
      obtain ⟨⟨bytes, hannounce⟩, htally⟩ := hfirst
      have hstart : (handles ++ [handle]).length = handles.length + 1 := List.length_append
      refine (ih (handles ++ [handle])).mono fun reached second hsecond => ?_
      rw [hstart] at hsecond
      obtain ⟨_ | _, all⟩ := reached
      · intro horderly
        obtain ⟨front, last, before, made, gone, hall, hstops⟩ :=
          hsecond (areOrderly_append.mp horderly).2
        exact ⟨host :: front, last, handle :: before, made, gone,
          by rw [hall, List.append_assoc]; rfl, hstops.cons hannounce htally⟩
      · obtain ⟨made, hall, hlength, htally'⟩ := hsecond
        exact ⟨handle :: made, by rw [hall, List.append_assoc]; rfl, congrArg Nat.succ hlength,
          htally.append htally'⟩

/-! ## What connecting comes to -/

theorem map_fst_zipIdx (handles : List Nat) : handles.zipIdx.map Prod.fst = handles :=
  List.zipIdx_map_fst 0 handles

def hungUpAfter (handles : List Nat) : Fault → List Nat
  | .transport _ => handles
  | _ => []

theorem logs_conclude_error (fault : Fault) (handles : List Nat) :
    Logs (net.recorded.conclude (.error fault, handles)) fun result calls =>
      (∃ other, result = .error other) ∧ (AreOrderly calls →
        result = .error fault ∧ Tally calls [] [] (hungUpAfter handles fault)) := by
  cases fault with
  | transport cause =>
    refine (logs_closeEach net handles.zipIdx).bind fun result calls hcalls => ?_
    rw [map_fst_zipIdx] at hcalls
    cases result with
    | ok =>
      refine .pure ⟨⟨_, rfl⟩, fun horderly => ?_⟩
      rw [List.append_nil] at horderly ⊢
      exact ⟨rfl, (hcalls horderly).2⟩
    | error other =>
      refine .pure ⟨⟨other, rfl⟩, fun horderly => ?_⟩
      rw [List.append_nil] at horderly
      cases (hcalls horderly).1
  | _ => exact .pure ⟨⟨_, rfl⟩, fun _ => ⟨rfl, .nil⟩⟩

/-- What connecting comes to, with the calls that were made: the arguments are rejected; or all
engines that are wanted are connected; or one could not be reached, and all connections were hung
up; or the client id cannot be announced, and the first connection was left open. -/
inductive Connects (net : Sockets (StateM σ)) (hosts : List String) (base clientId : Int)
    (engineCount : Option Int) :
    Except Fault (List (Link (StateM (σ × List SystemCall)))) → List SystemCall → Prop where
  | rejected {reason : ConfigurationFault}
    (hcount : engineCount.getD hosts.length < 1 ∨
      (hosts.length : Int) < engineCount.getD hosts.length) :
    Connects net hosts base clientId engineCount (.error (.configuration reason)) []
  | connected {made : List Nat} {calls : List SystemCall}
    (hcount : (made.length : Int) = engineCount.getD hosts.length)
    (htally : Tally calls (addressesFrom base 0 (hosts.take made.length)) made []) :
    Connects net hosts base clientId engineCount (.ok (net.recorded.linksTo made)) calls
  | unreached {front : List String} {host cause : String} {fault : TransportFault}
    {made gone : List Nat} {calls : List SystemCall} (hfront : front ++ [host] <+: hosts)
    (hcount : (front.length : Int) < engineCount.getD hosts.length)
    (hfault : fault = .connect front.length host (toString (base + front.length)) cause ∨
      fault = .announce front.length host (toString (base + front.length)) cause)
    (htally : Tally calls (addressesFrom base 0 (front ++ [host])) made gone)
    (hgone : gone.Perm made) :
    Connects net hosts base clientId engineCount (.error (.transport fault)) calls
  | unannounceable {host : String} {handle : Nat} {calls : List SystemCall}
    (hclientId : 2147483647 < clientId) (hhost : [host] <+: hosts)
    (htally : Tally calls [(host, base)] [handle] []) :
    Connects net hosts base clientId engineCount (.error (.misuse .announcementRange)) calls

variable {hosts : List String} {base clientId : Int} {engineCount : Option Int}

theorem connects_of_stopsAt {front : List String} {fault : Fault} {before made gone : List Nat}
    {first second : List SystemCall} {host : String} {count : Nat}
    (hclientId : -2147483648 ≤ clientId) (hcount : (count : Int) = engineCount.getD hosts.length)
    (h : StopsAt base clientId 0 (hosts.take count) fault before first front host made gone)
    (hsecond : Tally second [] [] (hungUpAfter before fault)) :
    Connects net hosts base clientId engineCount (.error fault) (first ++ second) := by
  have hfront : front ++ [host] <+: hosts := h.isPrefix.trans (List.take_prefix count hosts)
  have hlength : (front.length : Int) < engineCount.getD hosts.length := by
    have hle := h.isPrefix.length_le
    rw [List.length_append, List.length_take, List.length_singleton] at hle
    omega
  have hunreached := h.unreached
  rw [Nat.zero_add] at hunreached
  have hall := h.tally.append hsecond
  rw [List.append_nil, List.append_nil] at hall
  cases hunreached with
  | refused cause =>
    rw [List.append_nil] at hall
    exact .unreached hfront hlength (.inl rfl) hall (.refl before)
  | unannounced handle cause =>
    exact .unreached hfront hlength (.inr rfl) hall List.perm_append_comm
  | unannounceable handle hannounce =>
    -- No announcement was made, so that this was the first engine.
    have hfirst := h.announced _ hannounce
    have hbefore : before = [] := by
      rw [← List.length_eq_zero_iff, ← h.length, hfirst]
      rfl
    by_cases hlarge : 2147483647 < clientId
    · rw [Frame.announcement_of_lt hlarge] at hannounce
      cases hannounce
      subst hfirst hbefore
      have haddress : addressesFrom base 0 ([] ++ [host]) = [(host, base)] := by
        simp [addressesFrom]
      rw [haddress] at hall
      exact .unannounceable hlarge hfront hall
    · obtain ⟨bytes, hbytes⟩ := Frame.announcement_of_le hclientId (Int.not_lt.mp hlarge)
      rw [hbytes] at hannounce
      cases hannounce

/-- Only for a failure does it matter what the calls met. -/
theorem logs_connect (hclientId : -2147483648 ≤ clientId) (hosts : List String) (base : Int)
    (engineCount : Option Int) :
    Logs (net.recorded.connect hosts (.ok base) clientId engineCount) fun result calls =>
      (∀ fault, result = .error fault → AreOrderly calls) →
        Connects net hosts base clientId engineCount result calls := by
  rw [connect_eq_reachWanted]
  unfold reachWanted
  dsimp only
  split
  · next hfew =>
    rw [pure_bind, conclude_error_nil]
    exact .pure fun _ => .rejected (.inl hfew)
  split
  · next hmany =>
    rw [pure_bind, conclude_error_nil]
    exact .pure fun _ => .rejected (.inr hmany)
  obtain ⟨count, hcount⟩ : ∃ count : Nat, (count : Int) = engineCount.getD hosts.length :=
    ⟨(engineCount.getD hosts.length).toNat, Int.toNat_of_nonneg (by omega)⟩
  have hlength : (hosts.take count).length = count := by
    rw [List.length_take]
    omega
  rw [← hcount, Int.toNat_natCast]
  refine (logs_reachAll net base clientId (hosts.take count) []).bind fun reached first hfirst => ?_
  obtain ⟨fault | _, all⟩ := reached
  · refine (logs_conclude_error net fault all).mono fun result second hsecond horderly => ?_
    obtain ⟨⟨other, hother⟩, hresult⟩ := hsecond
    obtain ⟨horderly, horderly'⟩ := areOrderly_append.mp (horderly other hother)
    obtain ⟨front, host, before, made, gone, rfl, hstops⟩ := hfirst horderly
    obtain ⟨rfl, htally⟩ := hresult horderly'
    exact connects_of_stopsAt net hclientId hcount hstops htally
  · obtain ⟨made, rfl, hmade, htally⟩ := hfirst
    rw [hlength] at hmade
    subst hmade
    refine .pure fun _ => ?_
    rw [List.append_nil]
    exact .connected hcount htally

/-- However connecting ends, the engines were dialled in order, up to the first that could not be
reached. If there are no links then, every connection that was made was hung up exactly once, unless
the client id is too large for its announcement. -/
theorem connect_outcome (hclientId : 0 ≤ clientId) (hosts : List String) (base : Int)
    (engineCount : Option Int) (state : σ) :
    let left := net.recorded.connect hosts (.ok base) clientId engineCount (state, [])
    AreOrderly left.2.2 → Connects net hosts base clientId engineCount left.1 left.2.2 := by
  intro left horderly
  obtain ⟨calls, hcalls, hpost⟩ :=
    logs_connect net (show -2147483648 ≤ clientId by omega) hosts base engineCount (state, [])
  have hcalls : left.2.2 = calls := hcalls
  rw [hcalls] at horderly ⊢
  exact hpost fun _ _ => horderly

/-- The second of two engines refuses. -/
theorem connect_outcome_second_refused :
    let net : Network := ⟨[.accepted ⟨[], false, none, .complained "reset", 0, [], 0⟩], [], []⟩
    let left := Network.sockets.recorded.connect ["near", "far"] (.ok 20000) 7 none (net, [])
    0 ≤ (7 : Int) ∧ AreOrderly left.2.2 ∧ hangUps left.2.2 = [0] ∧
      Connects Network.sockets ["near", "far"] 20000 7 none left.1 left.2.2 := by
  intro net left
  have horderly : AreOrderly left.2.2 := by
    unfold AreOrderly
    decide +kernel
  exact ⟨by decide, horderly, by decide +kernel,
    connect_outcome Network.sockets (by decide) ["near", "far"] 20000 none net horderly⟩

/-- A client id of `2 ^ 31` is found out after the first connection is made, and leaves it open. -/
theorem connect_leaves_open :
    let net : Network := ⟨[.accepted ⟨[], false, none, .quiet, 0, [], 0⟩], [], []⟩
    let left := Network.sockets.recorded.connect ["127.0.0.1"] (.ok 20000) 2147483648 none (net, [])
    AreOrderly left.2.2 ∧ left.1 = .error (.misuse .announcementRange) ∧
      connections left.2.2 = [0] ∧ hangUps left.2.2 = [] := by
  intro net left
  have horderly : AreOrderly left.2.2 := by
    unfold AreOrderly
    decide +kernel
  exact ⟨horderly, rfl, by decide +kernel, by decide +kernel⟩

end Sockets
end TreeParty
