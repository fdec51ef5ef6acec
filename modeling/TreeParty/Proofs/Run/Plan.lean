import TreeParty.Link.Network
import TreeParty.Run
/-!
# What is done at home

Everything before the first connection happens at home: it gives notices, but neither connects nor
touches a stream. `AtHome` says so of a step, together with what is known of its value.
-/

set_option autoImplicit false

namespace TreeParty
namespace Run

open CommandLine

variable {α β : Type}

/-- A step that neither connects nor touches a stream. If it succeeds, its value is as described. -/
def AtHome (x : ExceptT Fault (StateM Network) α) (post : α → Prop) : Prop :=
  ∀ net : Network, (x.run net).2.script = net.script ∧ (x.run net).2.contacts = net.contacts ∧
    ∀ a, (x.run net).1 = .ok a → post a

theorem AtHome.pure {a : α} {post : α → Prop} (ha : post a) : AtHome (pure a) post := by
  refine fun net => ⟨rfl, rfl, fun b hb => ?_⟩
  cases hb
  exact ha

theorem AtHome.ofResult (result : Except Fault α) :
    AtHome (liftM result) fun a => result = .ok a :=
  fun _ => ⟨rfl, rfl, fun _ h => h⟩

theorem AtHome.lift (a : α) : AtHome (liftM (Pure.pure a : StateM Network α)) fun b => b = a := by
  refine fun net => ⟨rfl, rfl, fun b hb => ?_⟩
  cases hb
  rfl

theorem AtHome.note (notice : Notice) :
    AtHome (liftM (Network.note notice)) fun _ => True :=
  fun _ => ⟨rfl, rfl, fun _ _ => trivial⟩

theorem run_bind (x : ExceptT Fault (StateM Network) α) (f : α → ExceptT Fault (StateM Network) β)
    (net : Network) :
    (x >>= f).run net = match x.run net with
      | (.ok a, net') => (f a).run net'
      | (.error fault, net') => (.error fault, net') := by
  show StateT.bind x.run (ExceptT.bindCont f) net = _
  unfold StateT.bind
  rcases x.run net with ⟨_ | _, net'⟩
  · rfl
  · rfl

theorem run_bind_of_ok {net net' : Network} {x : ExceptT Fault (StateM Network) α}
    {f : α → ExceptT Fault (StateM Network) β} {a : α} (hx : x.run net = (.ok a, net')) :
    (x >>= f).run net = (f a).run net' := by
  rw [run_bind, hx]

theorem run_bind_of_error {net : Network} {fault : Fault}
    {x : ExceptT Fault (StateM Network) α} {f : α → ExceptT Fault (StateM Network) β}
    (hx : (x.run net).1 = .error fault) :
    ((x >>= f).run net).1 = .error fault := by
  rw [run_bind]
  rcases hrun : x.run net with ⟨_ | a, net'⟩
  · rw [hrun] at hx
    exact congrArg _ (Except.error.inj hx)
  · rw [hrun] at hx
    cases hx

theorem run_ofResult {result : Except Fault α} {a : α} (h : result = .ok a) (net : Network) :
    (liftM result : ExceptT Fault (StateM Network) α).run net = (.ok a, net) := by
  rw [h]
  rfl

theorem AtHome.bind {x : ExceptT Fault (StateM Network) α}
    {f : α → ExceptT Fault (StateM Network) β} {post : α → Prop} {post' : β → Prop}
    (hx : AtHome x post) (hf : ∀ a, post a → AtHome (f a) post') : AtHome (x >>= f) post' := by
  intro net
  obtain ⟨hscript, hcontacts, hpost⟩ := hx net
  rw [run_bind]
  rcases hrun : x.run net with ⟨fault | a, net'⟩
  · rw [hrun] at hscript hcontacts
    refine ⟨hscript, hcontacts, fun b hb => ?_⟩
    cases hb
  · rw [hrun] at hscript hcontacts hpost
    obtain ⟨hscript', hcontacts', hpost'⟩ := hf a (hpost a rfl) net'
    exact ⟨hscript'.trans hscript, hcontacts'.trans hcontacts, hpost'⟩

theorem AtHome.mono {x : ExceptT Fault (StateM Network) α} {post post' : α → Prop}
    (hx : AtHome x post) (h : ∀ a, post a → post' a) : AtHome x post' := by
  intro net
  obtain ⟨hscript, hcontacts, hpost⟩ := hx net
  exact ⟨hscript, hcontacts, fun a ha => h a (hpost a ha)⟩

/-! ## Steps -/

theorem AtHome.forM {notices : List Notice} :
    AtHome (notices.forM fun notice => liftM (Network.note notice)) fun _ => True := by
  induction notices with
  | nil => exact AtHome.pure trivial
  | cons notice rest ih => exact (AtHome.note notice).bind fun _ _ => ih

theorem atHome_tell (report : Report α) :
    AtHome (tell Network.note report) fun a => report.result = .ok a :=
  AtHome.forM.bind fun _ _ => AtHome.ofResult report.result

variable {look : String → FileEntry} {options : Options}

theorem atHome_look (path : String) :
    AtHome (liftM (Pure.pure (look path) : StateM Network FileEntry)) fun _ => True :=
  (AtHome.lift (look path)).mono fun _ _ => trivial

theorem atHome_settings (hgiven : given options.settings = none) (before : Settings) :
    AtHome (settings (fun path => Pure.pure (look path)) options before) fun after =>
      after = before := by
  unfold settings
  rw [hgiven]
  exact AtHome.pure rfl

theorem engineCount_eq_ok {engines : Int} (h : engineCount options = .ok engines) :
    1 ≤ engines ∧ 0 ≤ options.clientId := by
  unfold engineCount at h
  cases hcount : options.engineCount with
  | none =>
    rw [hcount] at h
    cases h
  | some given =>
    rw [hcount] at h
    simp only at h
    by_cases hfew : given < 1
    · rw [if_pos hfew] at h
      cases h
    · rw [if_neg hfew] at h
      by_cases hnegative : options.clientId < 0
      · rw [if_pos hnegative] at h
        cases h
      · rw [if_neg hnegative] at h
        cases h
        omega

theorem atHome_fieldParams (settings : Settings) (engines : Int) :
    AtHome (fieldParams (fun path => Pure.pure (look path)) options settings engines)
      fun _ => True := by
  unfold fieldParams
  have hread : ∀ path : Path, AtHome (do
      let entry ← (liftM (Pure.pure (look path.text) : StateM Network FileEntry) :
        ExceptT Fault (StateM Network) FileEntry)
      liftM (FieldFile.ofEntry path entry)) fun _ => True := fun path =>
    (atHome_look path.text).bind fun entry _ =>
      (AtHome.ofResult (FieldFile.ofEntry path entry)).mono fun _ _ => trivial
  dsimp only
  split
  · next name _ =>
    have hpath : AtHome (Pure.pure (Path.ofText name)) fun _ => True := AtHome.pure trivial
    exact hpath.bind fun path _ => hread path
  · exact (AtHome.ofResult _).bind fun path _ => hread path

theorem atHome_trainingData (settings : Settings) (F : FieldParams) :
    AtHome (trainingData (fun path => Pure.pure (look path)) Network.note options settings F)
      fun data =>
        TrainingData.checkFits F settings.fixedPrecision data.samples.toGrid.cells = .ok () ∧
          TrainingData.checkFits F settings.fixedPrecision (data.labels.getD []) = .ok () := by
  unfold trainingData
  refine (AtHome.ofResult _).bind fun path _ => (atHome_look path).bind fun entry _ => ?_
  refine (atHome_tell _).bind fun table _ => (atHome_tell _).bind fun data _ => ?_
  refine (AtHome.ofResult _).bind fun _ hcells => (AtHome.ofResult _).bind fun _ hlabels => ?_
  exact AtHome.pure ⟨hcells, hlabels⟩

/-- What is known of a plan that was made without a settings file. -/
structure IsChecked (options : Options) (settings : Settings) (plan : SessionPlan) : Prop where
  clientId : plan.clientId = options.clientId
  nonneg : 0 ≤ options.clientId
  engineCount : 1 ≤ plan.engineCount
  shape : plan.samples.shape ≠ []
  cells : TrainingData.checkFits plan.field settings.fixedPrecision plan.samples.cells = .ok ()
  labels : TrainingData.checkFits plan.field settings.fixedPrecision (plan.labels.getD []) = .ok ()

theorem atHome_plan (hgiven : given options.settings = none) (before : Settings) :
    AtHome (plan (fun path => Pure.pure (look path)) Network.note options before)
      fun (settings, plan) => settings = before ∧ IsChecked options before plan := by
  unfold plan
  refine (atHome_settings hgiven before).bind fun settings hsettings => ?_
  refine (AtHome.ofResult _).bind fun engines hengines => ?_
  refine (atHome_fieldParams settings engines).bind fun F _ => ?_
  refine (atHome_trainingData settings F).bind fun data hdata => AtHome.pure ?_
  obtain ⟨hcount, hclient⟩ := engineCount_eq_ok hengines
  subst hsettings
  exact ⟨rfl, rfl, hclient, hcount, List.cons_ne_nil _ _, hdata.1, hdata.2⟩

theorem forM_note (notices : List Notice) (net : Network) :
    (notices.forM Network.note net).2 = { net with notices := net.notices ++ notices } := by
  induction notices generalizing net with
  | nil =>
    rw [List.append_nil]
    rfl
  | cons notice rest ih =>
    have hrest := ih { net with notices := net.notices ++ [notice] }
    rw [List.append_assoc] at hrest
    exact hrest

theorem withOptions_eq (look : String → StateM Network FileEntry) (options : Options)
    (before : Settings) (net : Network) :
    withOptions look Network.sockets options before net =
      match (Run.plan look Network.note options before).run net with
      | (.error fault, net') => (.failed fault, net')
      | (.ok (settings, plan), net') =>
        (.ofEnding (plan.execute settings Network.sockets net').1,
          (plan.execute settings Network.sockets net').2) := by
  unfold withOptions
  change StateT.bind (Run.plan look Network.note options before).run _ net = _
  unfold StateT.bind
  rcases (Run.plan look Network.note options before).run net with ⟨_ | ⟨settings, plan⟩, net'⟩
  · rfl
  · rfl

end Run
end TreeParty
