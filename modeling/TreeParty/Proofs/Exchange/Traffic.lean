import TreeParty.Proofs.Exchange.Run
/-!
# Traffic

What an onlooker sees of an exchange: who is sent a message of what length, and what comes from
whom, in order. A carrier is blind if nothing that it does depends on the content of the messages
that it is given. Exchanges that differ only in the content of what they send, in their notices and
in their bookkeeping are `Alike`; over a blind carrier they end alike and have the same traffic.
-/

set_option autoImplicit false

namespace TreeParty

variable {α β γ δ σ τ : Type}

/-! ## Events -/

inductive Event where
  | sent (engine length : Nat)
  | received (engine : Nat) (answer : Ending Bytes)

namespace Event

def lengthTo? (engine : Nat) : Event → Option Nat
  | sent receiver length => if receiver = engine then some length else none
  | received _ _ => none

def lengthsTo (engine : Nat) (events : List Event) : List Nat :=
  events.filterMap (lengthTo? engine)

theorem lengthsTo_append (engine : Nat) (events more : List Event) :
    lengthsTo engine (events ++ more) = lengthsTo engine events ++ lengthsTo engine more :=
  List.filterMap_append

theorem lengthsTo_received (engine sender : Nat) (answer : Ending Bytes) (events : List Event) :
    lengthsTo engine (events ++ [received sender answer]) = lengthsTo engine events := by
  rw [lengthsTo_append]
  exact List.append_nil _

theorem lengthsTo_sent (engine receiver length : Nat) :
    lengthsTo engine [sent receiver length] = if receiver = engine then [length] else [] := by
  by_cases h : receiver = engine
  · simp [lengthsTo, lengthTo?, h]
  · simp [lengthsTo, lengthTo?, h]

end Event

namespace Carrier

def recorded (carrier : Carrier (StateM σ)) : Carrier (StateM (σ × List Event)) where
  send engine payload := fun seen =>
    ((carrier.send engine payload seen.1).1, (carrier.send engine payload seen.1).2,
      seen.2 ++ [.sent engine payload.length])
  receive engine limit := fun seen =>
    ((carrier.receive engine limit seen.1).1, (carrier.receive engine limit seen.1).2,
      seen.2 ++ [.received engine (carrier.receive engine limit seen.1).1])
  note notice := fun seen => ((), (carrier.note notice seen.1).2, seen.2)

end Carrier

namespace Exchange

def traffic (carrier : Carrier (StateM σ)) (x : Exchange α) (progress : Progress) (state : σ) :
    List Event := (x.run carrier.recorded progress (state, [])).2.2

theorem run_recorded (carrier : Carrier (StateM σ)) (x : Exchange α) (progress : Progress)
    (state : σ) (events : List Event) :
    (x.run carrier.recorded progress (state, events)).1 = (x.run carrier progress state).1 ∧
      (x.run carrier.recorded progress (state, events)).2.1 =
        (x.run carrier progress state).2 := by
  induction x generalizing progress state events with
  | done a => exact ⟨rfl, rfl⟩
  | fail fault => exact ⟨rfl, rfl⟩
  | send engine payload next ih =>
    rw [run_send, run_send]
    simp only [Carrier.recorded]
    rcases carrier.send engine payload state with ⟨_ | _, state'⟩
    · exact ⟨rfl, rfl⟩
    · exact ih progress state' _
  | receive engine limit next ih =>
    rw [run_receive, run_receive]
    simp only [Carrier.recorded]
    rcases carrier.receive engine limit state with ⟨bytes | _ | _, state'⟩
    · exact ih bytes progress state' _
    · exact ⟨rfl, rfl⟩
    · exact ⟨rfl, rfl⟩
  | note notice next ih => exact ih progress (carrier.note notice state).2 events
  | advance change next ih => exact ih (change progress) state events

end Exchange

/-! ## Blind carriers -/

/-- Whether two steps give the same answer from states of one outline, and leave such states. -/
def Agree (outline : σ → τ) (x y : StateM σ α) : Prop :=
  ∀ state state', outline state' = outline state →
    (y state').1 = (x state).1 ∧ outline (y state').2 = outline (x state).2

theorem Agree.pure (outline : σ → τ) (a : α) :
    Agree outline (pure a : StateM σ α) (pure a) := fun _ _ h => ⟨rfl, h⟩

theorem Agree.bind {outline : σ → τ} {x y : StateM σ α} {f g : α → StateM σ β}
    (hxy : Agree outline x y) (hfg : ∀ a, Agree outline (f a) (g a)) :
    Agree outline (x >>= f) (y >>= g) := by
  intro state state' h
  obtain ⟨hanswer, hleft⟩ := hxy state state' h
  have hnext := hfg (x state).1 (x state).2 (y state').2 hleft
  show (g (y state').1 (y state').2).1 = (f (x state).1 (x state).2).1 ∧
    outline (g (y state').1 (y state').2).2 = outline (f (x state).1 (x state).2).2
  rw [hanswer]
  exact hnext

/-- Whether what a carrier does shows the same outline, whatever the messages are that it is
given. -/
structure Carrier.IsBlind (carrier : Carrier (StateM σ)) (outline : σ → τ) : Prop where
  send : ∀ (engine : Nat) {payload payload' : Bytes}, payload'.length = payload.length →
    Agree outline (carrier.send engine payload) (carrier.send engine payload')
  receive : ∀ (engine : Nat) (limit : Option Int),
    Agree outline (carrier.receive engine limit) (carrier.receive engine limit)
  note : ∀ (notice : Notice) (state : σ), outline (carrier.note notice state).2 = outline state

theorem Carrier.IsBlind.recorded {carrier : Carrier (StateM σ)} {outline : σ → τ}
    (h : carrier.IsBlind outline) :
    carrier.recorded.IsBlind fun seen => (outline seen.1, seen.2) := by
  constructor
  case send =>
    intro engine payload payload' hlength seen seen' hseen
    obtain ⟨houtline, hevents⟩ := Prod.mk.inj hseen
    obtain ⟨hanswer, hleft⟩ := h.send engine hlength seen.1 seen'.1 houtline
    refine ⟨hanswer, Prod.ext hleft ?_⟩
    simp only [Carrier.recorded]
    rw [hevents, hlength]
  case receive =>
    intro engine limit seen seen' hseen
    obtain ⟨houtline, hevents⟩ := Prod.mk.inj hseen
    obtain ⟨hanswer, hleft⟩ := h.receive engine limit seen.1 seen'.1 houtline
    refine ⟨hanswer, Prod.ext hleft ?_⟩
    simp only [Carrier.recorded]
    rw [hevents, hanswer]
  case note =>
    intro notice seen
    exact Prod.ext (h.note notice seen.1) rfl

/-! ## Exchanges that look alike -/

namespace Exchange

/-- Whether two exchanges do the same as far as it can be seen, and whether their values are
related. Notices and bookkeeping that leaves the count of inputs alone cannot be seen. -/
inductive Alike (post : α → β → Prop) : Exchange α → Exchange β → Prop where
  | done {a : α} {b : β} (h : post a b) : Alike post (.done a) (.done b)
  | fail (fault : Fault) : Alike post (.fail fault) (.fail fault)
  | send (engine : Nat) {payload payload' : Bytes} {x : Exchange α} {y : Exchange β}
    (hlength : payload'.length = payload.length) (h : Alike post x y) :
    Alike post (.send engine payload x) (.send engine payload' y)
  | receive (engine : Nat) (limit : Option Int) {f : Bytes → Exchange α} {g : Bytes → Exchange β}
    (h : ∀ bytes, Alike post (f bytes) (g bytes)) :
    Alike post (.receive engine limit f) (.receive engine limit g)
  | advance {change change' : Progress → Progress} {x : Exchange α} {y : Exchange β}
    (hchange : ∀ progress progress', progress'.inputsSent = progress.inputsSent →
      (change' progress').inputsSent = (change progress).inputsSent) (h : Alike post x y) :
    Alike post (.advance change x) (.advance change' y)
  | noteLeft (notice : Notice) {x : Exchange α} {y : Exchange β} (h : Alike post x y) :
    Alike post (.note notice x) y
  | noteRight (notice : Notice) {x : Exchange α} {y : Exchange β} (h : Alike post x y) :
    Alike post x (.note notice y)
  | advanceLeft {change : Progress → Progress} {x : Exchange α} {y : Exchange β}
    (hchange : ∀ progress, (change progress).inputsSent = progress.inputsSent)
    (h : Alike post x y) : Alike post (.advance change x) y
  | advanceRight {change : Progress → Progress} {x : Exchange α} {y : Exchange β}
    (hchange : ∀ progress, (change progress).inputsSent = progress.inputsSent)
    (h : Alike post x y) : Alike post x (.advance change y)

theorem Alike.bind {post : α → β → Prop} {post' : γ → δ → Prop} {x : Exchange α} {y : Exchange β}
    {f : α → Exchange γ} {g : β → Exchange δ} (hxy : Alike post x y)
    (hfg : ∀ a b, post a b → Alike post' (f a) (g b)) :
    Alike post' (x >>= f) (y >>= g) := by
  show Alike post' (x.bind f) (y.bind g)
  induction hxy with
  | done h => exact hfg _ _ h
  | fail fault => exact .fail fault
  | send engine hlength _ ih => exact .send engine hlength ih
  | receive engine limit _ ih => exact .receive engine limit ih
  | advance hchange _ ih => exact .advance hchange ih
  | noteLeft notice _ ih => exact .noteLeft notice ih
  | noteRight notice _ ih => exact .noteRight notice ih
  | advanceLeft hchange _ ih => exact .advanceLeft hchange ih
  | advanceRight hchange _ ih => exact .advanceRight hchange ih

theorem Alike.mono {post post' : α → β → Prop} {x : Exchange α} {y : Exchange β}
    (h : Alike post x y) (himp : ∀ a b, post a b → post' a b) : Alike post' x y := by
  have hboth : Alike post' (x >>= pure) (y >>= pure) := h.bind fun a b hab => .done (himp a b hab)
  rwa [bind_pure, bind_pure] at hboth

theorem Alike.sendAll (engines : Nat) {payload payload' : Bytes}
    (hlength : payload'.length = payload.length) :
    Alike (fun _ _ => True) (Exchange.sendAll engines payload)
      (Exchange.sendAll engines payload') := by
  unfold Exchange.sendAll
  induction List.range engines with
  | nil => exact .done trivial
  | cons engine rest ih => exact .send engine hlength ih

/-- Over a blind carrier exchanges that look alike end alike, with the same count of inputs and in
states of one outline. -/
theorem Alike.run {carrier : Carrier (StateM σ)} {outline : σ → τ} {x y : Exchange α}
    (h : Alike Eq x y) (hblind : carrier.IsBlind outline) {progress progress' : Progress}
    {state state' : σ} (hprogress : progress'.inputsSent = progress.inputsSent)
    (hstate : outline state' = outline state) :
    (y.run carrier progress' state').1.1 = (x.run carrier progress state).1.1 ∧
      (y.run carrier progress' state').1.2.inputsSent =
        (x.run carrier progress state).1.2.inputsSent ∧
      outline (y.run carrier progress' state').2 = outline (x.run carrier progress state).2 := by
  -- Both runs are kept at the same count of inputs and in states of one outline.
  induction h generalizing progress progress' state state' with
  | done h =>
    cases h
    exact ⟨rfl, hprogress, hstate⟩
  | fail fault => exact ⟨rfl, hprogress, hstate⟩
  | send engine hlength _ ih =>
    obtain ⟨hanswer, hleft⟩ := hblind.send engine hlength state state' hstate
    rw [run_send, run_send]
    revert hanswer hleft
    rcases carrier.send engine _ state with ⟨_ | _, between⟩ <;>
      rcases carrier.send engine _ state' with ⟨_ | _, between'⟩ <;>
      intro hanswer hleft <;> cases hanswer
    · exact ⟨rfl, hprogress, hleft⟩
    · exact ih hprogress hleft
  | receive engine limit _ ih =>
    obtain ⟨hanswer, hleft⟩ := hblind.receive engine limit state state' hstate
    rw [run_receive, run_receive]
    revert hanswer hleft
    rcases carrier.receive engine limit state with ⟨_ | _ | _, between⟩ <;>
      rcases carrier.receive engine limit state' with ⟨_ | _ | _, between'⟩ <;>
      intro hanswer hleft <;> cases hanswer
    · exact ih _ hprogress hleft
    · exact ⟨rfl, hprogress, hleft⟩
    · exact ⟨rfl, hprogress, hleft⟩
  | advance hchange _ ih => exact ih (hchange _ _ hprogress) hstate
  | noteLeft notice _ ih => exact ih hprogress (hstate.trans (hblind.note notice state).symm)
  | noteRight notice _ ih => exact ih hprogress ((hblind.note notice state').trans hstate)
  | advanceLeft hchange _ ih => exact ih (hprogress.trans (hchange progress).symm) hstate
  | advanceRight hchange _ ih => exact ih ((hchange progress').trans hprogress) hstate

/-- Over a blind carrier exchanges that look alike have the same traffic. -/
theorem Alike.traffic_eq {carrier : Carrier (StateM σ)} {outline : σ → τ} {x y : Exchange α}
    (h : Alike Eq x y) (hblind : carrier.IsBlind outline) (progress : Progress) (state : σ) :
    y.traffic carrier progress state = x.traffic carrier progress state := by
  obtain ⟨-, -, hseen⟩ := @Alike.run _ _ _ _ _ _ _ h hblind.recorded progress progress (state, [])
    (state, []) rfl rfl
  exact (Prod.mk.inj hseen).2

/-! ## Exchanges that only listen -/

/-- Whether an exchange sends nothing and counts no input, and what is known of its values. -/
inductive Listens (post : α → Prop) : Exchange α → Prop where
  | done {a : α} (h : post a) : Listens post (.done a)
  | fail (fault : Fault) : Listens post (.fail fault)
  | receive (engine : Nat) (limit : Option Int) {f : Bytes → Exchange α}
    (h : ∀ bytes, Listens post (f bytes)) : Listens post (.receive engine limit f)
  | note (notice : Notice) {x : Exchange α} (h : Listens post x) : Listens post (.note notice x)

theorem Listens.bind {post : α → Prop} {post' : β → Prop} {x : Exchange α} {f : α → Exchange β}
    (hx : Listens post x) (hf : ∀ a, post a → Listens post' (f a)) : Listens post' (x >>= f) := by
  show Listens post' (x.bind f)
  induction hx with
  | done h => exact hf _ h
  | fail fault => exact .fail fault
  | receive engine limit _ ih => exact .receive engine limit ih
  | note notice _ ih => exact .note notice ih

theorem Listens.mono {post post' : α → Prop} {x : Exchange α} (hx : Listens post x)
    (himp : ∀ a, post a → post' a) : Listens post' x := by
  have hboth : Listens post' (x >>= pure) := hx.bind fun a ha => .done (himp a ha)
  rwa [bind_pure] at hboth

theorem Listens.ofResult (result : Except Fault α) :
    Listens (fun a => result = .ok a) (Exchange.ofResult result) := by
  cases result with
  | ok a => exact .done rfl
  | error fault => exact .fail fault

theorem Listens.foldlM {items : List α} {f : β → α → Exchange β} {post : β → Prop}
    (hf : ∀ b, post b → ∀ a, Listens post (f b a)) {init : β} (hinit : post init) :
    Listens post (items.foldlM f init) := by
  induction items generalizing init with
  | nil => exact .done hinit
  | cons a rest ih =>
    rw [List.foldlM_cons]
    exact (hf init hinit a).bind fun b hb => ih hb

theorem Listens.alike {post : α → Prop} {x : Exchange α} (h : Listens post x) :
    Alike (fun a b => a = b ∧ post a) x x := by
  induction h with
  | done h => exact .done ⟨rfl, h⟩
  | fail fault => exact .fail fault
  | receive engine limit _ ih => exact .receive engine limit ih
  | note notice _ ih => exact .noteLeft notice (.noteRight notice ih)

/-! ## What an exchange delivers -/

/-- Whether an exchange that returns has a value as described, has counted some inputs and has sent
every engine messages of some lengths. -/
def Delivers (engines : Nat) (post : α → Prop) (count : Nat) (lengths : List Nat)
    (x : Exchange α) : Prop :=
  ∀ (σ : Type) (carrier : Carrier (StateM σ)) (progress progress' : Progress)
    (seen seen' : σ × List Event) (a : α),
    x.run carrier.recorded progress seen = ((.returned a, progress'), seen') →
      post a ∧ progress'.inputsSent = progress.inputsSent + count ∧
        ∀ engine < engines, Event.lengthsTo engine seen'.2 =
          Event.lengthsTo engine seen.2 ++ lengths

variable {engines : Nat} {post : α → Prop}

theorem Delivers.pure {a : α} (ha : post a) : Delivers engines post 0 [] (pure a) := by
  intro σ carrier progress progress' seen seen' b hrun
  cases hrun
  exact ⟨ha, rfl, fun _ _ => (List.append_nil _).symm⟩

theorem Delivers.fail (fault : Fault) (count : Nat) (lengths : List Nat) :
    Delivers engines post count lengths (.fail fault) := by
  intro σ carrier progress progress' seen seen' a hrun
  cases hrun

theorem Delivers.bind {post' : β → Prop} {count count' : Nat} {lengths lengths' : List Nat}
    {x : Exchange α} {f : α → Exchange β} (hx : Delivers engines post count lengths x)
    (hf : ∀ a, post a → Delivers engines post' count' lengths' (f a)) :
    Delivers engines post' (count + count') (lengths ++ lengths') (x >>= f) := by
  intro σ carrier progress progress' seen seen' b hrun
  obtain ⟨a, middle, between, hfirst, hsecond⟩ := run_bind_eq_returned hrun
  obtain ⟨ha, hcount, hlengths⟩ := hx σ carrier _ _ _ _ a hfirst
  obtain ⟨hb, hcount', hlengths'⟩ := hf a ha σ carrier _ _ _ _ b hsecond
  refine ⟨hb, by rw [hcount', hcount, Nat.add_assoc], fun engine hengine => ?_⟩
  rw [hlengths' engine hengine, hlengths engine hengine, List.append_assoc]

theorem Delivers.note {count : Nat} {lengths : List Nat} {x : Exchange α}
    (hx : Delivers engines post count lengths x) (notice : Notice) :
    Delivers engines post count lengths (.note notice x) :=
  fun σ carrier progress progress' seen seen' a hrun =>
    hx σ carrier progress progress' ((carrier.note notice seen.1).2, seen.2) seen' a hrun

theorem Delivers.advance {count : Nat} {lengths : List Nat} {x : Exchange α}
    (hx : Delivers engines post count lengths x) {change : Progress → Progress} {step : Nat}
    (hchange : ∀ progress, (change progress).inputsSent = progress.inputsSent + step) :
    Delivers engines post (step + count) lengths (.advance change x) := by
  intro σ carrier progress progress' seen seen' a hrun
  obtain ⟨ha, hcount, hlengths⟩ := hx σ carrier (change progress) progress' seen seen' a hrun
  exact ⟨ha, by rw [hcount, hchange, Nat.add_assoc], hlengths⟩

theorem lengthsTo_broadcast {carrier : Carrier (StateM σ)} {payload : Bytes} {receivers : List Nat}
    {progress progress' : Progress} {seen seen' : σ × List Event}
    (hrun : (receivers.foldr (fun engine next => Exchange.send engine payload next)
      (.done ())).run carrier.recorded progress seen = ((.returned (), progress'), seen'))
    (engine : Nat) : progress' = progress ∧ Event.lengthsTo engine seen'.2 =
      Event.lengthsTo engine seen.2 ++ List.replicate (receivers.count engine) payload.length := by
  induction receivers generalizing seen with
  | nil =>
    cases hrun
    exact ⟨rfl, (List.append_nil _).symm⟩
  | cons receiver rest ih =>
    rw [List.foldr_cons, run_send] at hrun
    simp only [Carrier.recorded] at ih hrun
    rcases hsend : carrier.send receiver payload seen.1 with ⟨_ | _, state⟩
    · rw [hsend] at hrun
      cases hrun
    · rw [hsend] at hrun
      obtain ⟨hprogress, hlengths⟩ := ih hrun
      refine ⟨hprogress, ?_⟩
      rw [hlengths, Event.lengthsTo_append, Event.lengthsTo_sent, List.append_assoc,
        List.count_cons, Nat.add_comm, ← List.replicate_append_replicate]
      by_cases hreceiver : receiver = engine
      · simp [hreceiver]
      · simp [hreceiver]

theorem Delivers.sendAll (engines : Nat) (payload : Bytes) :
    Delivers engines (fun _ => True) 0 [payload.length] (Exchange.sendAll engines payload) := by
  intro σ carrier progress progress' seen seen' _ hrun
  have hlengths := lengthsTo_broadcast hrun
  refine ⟨trivial, congrArg Progress.inputsSent (hlengths 0).1, fun engine hengine => ?_⟩
  have honce : (List.range engines).count engine = 1 :=
    List.nodup_range.count.trans (if_pos (List.mem_range.mpr hengine))
  rw [(hlengths engine).2, honce]
  rfl

theorem Delivers.traffic {count : Nat} {lengths : List Nat} {x : Exchange α}
    (hx : Delivers engines post count lengths x) {carrier : Carrier (StateM σ)}
    {progress : Progress} {state : σ} {a : α}
    (hreturned : (x.run carrier progress state).1.1 = .returned a) :
    post a ∧ (x.run carrier progress state).1.2.inputsSent = progress.inputsSent + count ∧
      ∀ engine < engines,
        Event.lengthsTo engine (x.traffic carrier progress state) = lengths := by
  obtain ⟨hrun, -⟩ := run_recorded carrier x progress state []
  rw [← hrun] at hreturned ⊢
  exact hx σ carrier progress _ (state, []) _ a (Prod.ext (Prod.ext hreturned rfl) rfl)

theorem Listens.delivers {x : Exchange α} (h : Listens post x) (engines : Nat) :
    Delivers engines post 0 [] x := by
  intro σ carrier progress progress' seen seen' a hrun
  induction h generalizing seen with
  | done h =>
    cases hrun
    exact ⟨h, rfl, fun _ _ => (List.append_nil _).symm⟩
  | fail fault => cases hrun
  | receive engine limit _ ih =>
    rw [run_receive] at hrun
    simp only [Carrier.recorded] at ih hrun
    rcases hreceive : carrier.receive engine limit seen.1 with ⟨bytes | fault | _, state⟩
    · rw [hreceive] at hrun
      have hrest := ih bytes _ hrun
      simp only [Event.lengthsTo_received] at hrest
      exact hrest
    · rw [hreceive] at hrun
      cases hrun
    · rw [hreceive] at hrun
      cases hrun
  | note notice _ ih => exact ih ((carrier.note notice seen.1).2, seen.2) hrun

theorem Listens.bind_delivers {post' : β → Prop} {count : Nat} {lengths : List Nat}
    {x : Exchange α} {f : α → Exchange β} (hx : Listens post x)
    (hf : ∀ a, post a → Delivers engines post' count lengths (f a)) :
    Delivers engines post' count lengths (x >>= f) := by
  have hboth := (hx.delivers engines).bind hf
  rwa [Nat.zero_add, List.nil_append] at hboth

end Exchange
end TreeParty
