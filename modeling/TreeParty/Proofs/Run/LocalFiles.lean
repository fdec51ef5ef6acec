import TreeParty.Proofs.Json
import TreeParty.Proofs.Run.Completion
/-!
# Local files

A run reads settings, field parameters and samples from local files. Reading samples can fail only
as wrong configuration. The other two readers fail otherwise too: for a file that is not text, for a
path that no file can have, and for settings with a number of too many digits. A run that stops at
one of its files logs the fault and has its status, except in these cases.
-/

set_option autoImplicit false

namespace TreeParty

/-- Whether a result is a value or a fault of configuration. -/
def FailsAsConfiguration {α : Type} (result : Except Fault α) : Prop :=
  ∀ fault, result = .error fault → fault.sessionName? = some "ConfigurationError"

/-- Whether what a path leads to is text, if it is a file at all. -/
def FileEntry.IsLegible : FileEntry → Prop
  | .file content => (decodeText content).isSome = true
  | .unnameable => False
  | .directory | .missing => True

section

variable {α : Type}

theorem failsAsConfiguration_ok (a : α) : FailsAsConfiguration (.ok a) :=
  fun _ h => by cases h

theorem failsAsConfiguration_configuration (wrong : ConfigurationFault) :
    FailsAsConfiguration (.error (.configuration wrong) : Except Fault α) := by
  intro fault h
  cases h
  rfl

/-- A condition under which a reader fails as wrong configuration is exact if it fails by a misuse
otherwise. -/
theorem failsAsConfiguration_iff {sound : Prop} {result : Except Fault α}
    (horderly : sound → FailsAsConfiguration result)
    (hescape : ¬ sound → ∃ misuse, result = .error (.misuse misuse)) :
    FailsAsConfiguration result ↔ sound := by
  refine ⟨fun h => Classical.byContradiction fun hnot => ?_, horderly⟩
  obtain ⟨misuse, hresult⟩ := hescape hnot
  cases h _ hresult

end

/-! ## Field parameters and samples -/

namespace FieldFile

theorem ofWords_failsAsConfiguration (path : Path) (words : List String) :
    FailsAsConfiguration (ofWords path words) := by
  unfold ofWords
  split
  · split
    · unfold FieldParams.ofInts
      split
      · exact failsAsConfiguration_ok _
      · exact failsAsConfiguration_configuration _
    · exact failsAsConfiguration_configuration _
  · exact failsAsConfiguration_configuration _

theorem ofEntry_of_legible (path : Path) {entry : FileEntry} (h : entry.IsLegible) :
    FailsAsConfiguration (ofEntry path entry) := by
  cases entry with
  | file content =>
    obtain ⟨text, htext⟩ := Option.isSome_iff_exists.mp h
    simp only [ofEntry, read, htext]
    exact ofWords_failsAsConfiguration path _
  | unnameable => exact h.elim
  | directory => exact failsAsConfiguration_configuration _
  | missing => exact failsAsConfiguration_configuration _

theorem ofEntry_of_not_legible (path : Path) {entry : FileEntry} (h : ¬ entry.IsLegible) :
    ∃ misuse, ofEntry path entry = .error (.misuse misuse) := by
  cases entry with
  | file content =>
    have htext : decodeText content = none := Option.not_isSome_iff_eq_none.mp h
    refine ⟨.undecodable, ?_⟩
    simp only [ofEntry, read, htext]
  | unnameable => exact ⟨.pathContent, rfl⟩
  | directory => exact absurd trivial h
  | missing => exact absurd trivial h

end FieldFile

theorem DatasetFile.ofEntry_failsAsConfiguration (path : String) (entry : FileEntry) :
    FailsAsConfiguration (ofEntry path entry).result := by
  cases entry with
  | file content =>
    change FailsAsConfiguration (read path content).result
    unfold read
    split
    · exact failsAsConfiguration_configuration _
    · exact failsAsConfiguration_ok _
    · split
      · exact failsAsConfiguration_ok _
      · exact failsAsConfiguration_configuration _
  | unnameable => exact failsAsConfiguration_configuration _
  | directory => exact failsAsConfiguration_configuration _
  | missing => exact failsAsConfiguration_configuration _

/-! ## Settings -/

namespace SettingsFile

/-- Whether a file is refused for the length of a number in it. -/
def HasNumberTooLong : FileEntry → Prop
  | .file content =>
    ∃ document, decodeText content = some document ∧ Json.read document = .error .tooManyDigits
  | _ => False

theorem HasNumberTooLong.exists_digits {entry : FileEntry} (h : HasNumberTooLong entry) :
    ∃ content document, entry = .file content ∧ decodeText content = some document ∧
      Json.HasLongNumber document.toList := by
  cases entry with
  | file content =>
    obtain ⟨document, htext, hread⟩ := h
    exact ⟨content, document, rfl, htext, Json.hasLongNumber_of_read hread⟩
  | unnameable => exact h.elim
  | directory => exact h.elim
  | missing => exact h.elim

theorem load_error {path : String} {content : Bytes} {fault : Fault}
    (h : read path content = .error fault) (settings : Settings) :
    load path (.file content) settings = .error fault := by
  simp only [load, h]
  rfl

theorem load_of_legible (path : String) {entry : FileEntry} (settings : Settings)
    (hlegible : entry.IsLegible) (hshort : ¬ HasNumberTooLong entry) :
    FailsAsConfiguration (load path entry settings) := by
  cases entry with
  | file content =>
    obtain ⟨document, hdocument⟩ := Option.isSome_iff_exists.mp hlegible
    have hread : FailsAsConfiguration (read path content) := by
      simp only [read, hdocument]
      split
      · exact failsAsConfiguration_ok _
      · exact failsAsConfiguration_configuration _
      · exact failsAsConfiguration_configuration _
      · next hlong => exact absurd ⟨document, hdocument, hlong⟩ hshort
    cases hresult : read path content with
    | ok entries =>
      simp only [load, hresult]
      exact failsAsConfiguration_ok _
    | error fault =>
      have hfault := hread fault hresult
      rw [load_error hresult]
      intro _ heq
      cases heq
      exact hfault
  | unnameable => exact hlegible.elim
  | directory => exact failsAsConfiguration_configuration _
  | missing => exact failsAsConfiguration_configuration _

theorem load_of_not_legible (path : String) {entry : FileEntry} (settings : Settings)
    (h : ¬ (entry.IsLegible ∧ ¬ HasNumberTooLong entry)) :
    ∃ misuse, load path entry settings = .error (.misuse misuse) := by
  cases entry with
  | file content =>
    cases hdocument : decodeText content with
    | none =>
      refine ⟨.undecodable, load_error ?_ settings⟩
      simp only [read, hdocument]
    | some document =>
      have hlegible : (FileEntry.file content).IsLegible := by
        simp [FileEntry.IsLegible, hdocument]
      obtain ⟨other, hother, hlong⟩ := Classical.byContradiction fun hnot => h ⟨hlegible, hnot⟩
      rw [hdocument] at hother
      cases hother
      refine ⟨.tooManyDigits, load_error ?_ settings⟩
      simp only [read, hdocument, hlong]
  | unnameable => exact ⟨.pathContent, rfl⟩
  | directory => exact absurd ⟨trivial, id⟩ h
  | missing => exact absurd ⟨trivial, id⟩ h

end SettingsFile

/-! ## The run -/

namespace Run

open CommandLine

variable {look : String → FileEntry} {options : Options} {before : Settings} {entry : FileEntry}
variable {fault : Fault}

def settingsAt (look : String → FileEntry) (options : Options) (before : Settings) :
    Except Fault Settings :=
  match given options.settings with
  | some path => SettingsFile.load path (look path) before
  | none => .ok before

def paramsPath (options : Options) (settings : Settings) (engines : Int) : Except Fault Path :=
  match given options.paramsFile with
  | some path => .ok (Path.ofText path)
  | none => FieldFile.path settings engines options.prepDirectory

/-- The entries of files at which a run stops, and the faults. What comes before is in order. -/
inductive StopsAtFile (look : String → FileEntry) (options : Options) (before : Settings) :
    FileEntry → Fault → Prop where
  | settings {fault : Fault} {path : String} (hgiven : given options.settings = some path)
      (hload : SettingsFile.load path (look path) before = .error fault) :
      StopsAtFile look options before (look path) fault
  | params {fault : Fault} {after : Settings} {engines : Int} {path : Path}
      (hload : settingsAt look options before = .ok after)
      (hengines : engineCount options = .ok engines)
      (hpath : paramsPath options after engines = .ok path)
      (hread : FieldFile.ofEntry path (look path.text) = .error fault) :
      StopsAtFile look options before (look path.text) fault
  | samples {fault : Fault} {after : Settings} {engines : Int} {path : Path} {F : FieldParams}
      {name : String} (hload : settingsAt look options before = .ok after)
      (hengines : engineCount options = .ok engines)
      (hpath : paramsPath options after engines = .ok path)
      (hread : FieldFile.ofEntry path (look path.text) = .ok F)
      (hname : datasetPath options after = .ok name)
      (hrows : (DatasetFile.ofEntry name (look name)).result = .error fault) :
      StopsAtFile look options before (look name) fault

theorem StopsAtFile.fault_cases (hstops : StopsAtFile look options before entry fault) :
    fault.sessionName? = some "ConfigurationError" ∨
      (∃ misuse, fault = .misuse misuse) ∧
        (¬ entry.IsLegible ∨ SettingsFile.HasNumberTooLong entry) := by
  cases hstops with
  | @settings _ path _ hload =>
    by_cases hsound : (look path).IsLegible ∧ ¬ SettingsFile.HasNumberTooLong (look path)
    · exact .inl (SettingsFile.load_of_legible path before hsound.1 hsound.2 _ hload)
    · obtain ⟨misuse, hmisuse⟩ := SettingsFile.load_of_not_legible path before hsound
      rw [hload] at hmisuse
      cases hmisuse
      refine .inr ⟨⟨misuse, rfl⟩, ?_⟩
      rwa [not_and_or, not_not] at hsound
  | @params _ _ _ path _ _ _ hread =>
    by_cases hsound : (look path.text).IsLegible
    · exact .inl (FieldFile.ofEntry_of_legible path hsound _ hread)
    · obtain ⟨misuse, hmisuse⟩ := FieldFile.ofEntry_of_not_legible path hsound
      rw [hread] at hmisuse
      cases hmisuse
      exact .inr ⟨⟨misuse, rfl⟩, .inl hsound⟩
  | @samples _ _ _ _ _ name _ _ _ _ _ hrows =>
    exact .inl (DatasetFile.ofEntry_failsAsConfiguration name _ _ hrows)

/-! ### Steps -/

variable {α : Type} {net net' : Network}

theorem run_forM_note (notices : List Notice) (net : Network) :
    (notices.forM fun notice =>
      (liftM (Network.note notice) : ExceptT Fault (StateM Network) Unit)).run net =
        (.ok (), { net with notices := net.notices ++ notices }) := by
  induction notices generalizing net with
  | nil =>
    rw [List.append_nil]
    rfl
  | cons notice rest ih =>
    have hrest := ih { net with notices := net.notices ++ [notice] }
    rw [List.append_assoc] at hrest
    exact hrest

theorem run_tell (report : Report α) (net : Network) :
    (tell Network.note report).run net =
      (report.result, { net with notices := net.notices ++ report.notices }) := by
  unfold tell
  rw [run_bind_of_ok (run_forM_note _ _)]
  rfl

theorem run_settings (net : Network) :
    (settings (fun path => (pure (look path) : StateM Network FileEntry)) options before).run net =
      (settingsAt look options before, net) := by
  unfold settings settingsAt
  cases given options.settings with
  | none => rfl
  | some path => rfl

theorem run_fieldParams {after : Settings} {engines : Int} {path : Path}
    (hpath : paramsPath options after engines = .ok path) (net : Network) :
    (fieldParams (fun path => (pure (look path) : StateM Network FileEntry)) options after
      engines).run net = (FieldFile.ofEntry path (look path.text), net) := by
  unfold paramsPath at hpath
  unfold fieldParams
  cases hgiven : given options.paramsFile with
  | none =>
    rw [hgiven] at hpath
    simp only [hpath]
    rfl
  | some text =>
    rw [hgiven] at hpath
    cases hpath
    rfl

theorem run_trainingData_of_error {after : Settings} {F : FieldParams} {name : String}
    (hname : datasetPath options after = .ok name)
    (hrows : (DatasetFile.ofEntry name (look name)).result = .error fault) (net : Network) :
    ((trainingData (fun path => pure (look path)) Network.note options after F).run net).1 =
      .error fault := by
  unfold trainingData
  rw [run_bind_of_ok (run_ofResult hname net)]
  have hlook : (liftM (pure (look name) : StateM Network FileEntry) :
      ExceptT Fault (StateM Network) FileEntry).run net = (.ok (look name), net) := rfl
  rw [run_bind_of_ok hlook]
  refine run_bind_of_error ?_
  rw [run_tell]
  exact hrows

theorem run_plan_of_stopsAtFile (hstops : StopsAtFile look options before entry fault)
    (net : Network) :
    ((plan (fun path => pure (look path)) Network.note options before).run net).1 =
      .error fault := by
  have hsettings := @run_settings look options before net
  cases hstops with
  | settings hgiven hload =>
    refine run_bind_of_error ?_
    rw [hsettings, settingsAt, hgiven]
    exact hload
  | params hload hengines hpath hread =>
    rw [hload] at hsettings
    unfold plan
    rw [run_bind_of_ok hsettings, run_bind_of_ok (run_ofResult hengines net)]
    refine run_bind_of_error ?_
    rw [run_fieldParams hpath]
    exact hread
  | samples hload hengines hpath hread hname hrows =>
    rw [hload] at hsettings
    have hparams := @run_fieldParams look options _ _ _ hpath net
    rw [hread] at hparams
    unfold plan
    rw [run_bind_of_ok hsettings, run_bind_of_ok (run_ofResult hengines net),
      run_bind_of_ok hparams]
    exact run_bind_of_error (run_trainingData_of_error hname hrows net)

theorem atHome_plan_of_files (look : String → FileEntry) (options : Options) (before : Settings) :
    AtHome (plan (fun path => pure (look path)) Network.note options before) fun _ => True := by
  have hsettings : AtHome (settings (fun path => pure (look path)) options before)
      fun _ => True := fun net => by
    rw [run_settings]
    exact ⟨rfl, rfl, fun _ _ => trivial⟩
  refine hsettings.bind fun after _ => (AtHome.ofResult _).bind fun engines _ => ?_
  refine (atHome_fieldParams after engines).bind fun F _ => ?_
  exact (atHome_trainingData after F).bind fun data _ => AtHome.pure trivial

/-! ### The end of a run -/

theorem execute_of_plan_error {look : String → StateM Network FileEntry}
    (hplan : (plan look Network.note options before).run net = (.error fault, net')) :
    execute look Network.sockets (.run options) before net =
      (.failed fault, { net' with notices := net'.notices ++ (Outcome.failed fault).notices }) := by
  have hrun := withOptions_eq look options before net
  rw [hplan] at hrun
  refine Prod.ext ?_ ?_
  · rw [execute_fst, hrun]
  · rw [execute_snd, hrun]

theorem status_of_configuration (h : fault.sessionName? = some "ConfigurationError") :
    (Outcome.failed fault).status = some 1 := by
  cases fault with
  | misuse misuse => cases h
  | _ => rfl

/-- Samples fail as wrong configuration always, field parameters if their file is legible, and
settings if besides no number in it is too long, which takes many digits in a row. A run that stops
at a file connects to nobody, and it logs the fault and has its status unless the file is not
legible or has a number too long. -/
theorem localFiles_fail_as_configuration (entry : FileEntry) :
    (∀ path, FailsAsConfiguration (FieldFile.ofEntry path entry) ↔ entry.IsLegible) ∧
    (∀ path, FailsAsConfiguration (DatasetFile.ofEntry path entry).result) ∧
    (∀ path settings, FailsAsConfiguration (SettingsFile.load path entry settings) ↔
      entry.IsLegible ∧ ¬ SettingsFile.HasNumberTooLong entry) ∧
    (SettingsFile.HasNumberTooLong entry → ∃ content document, entry = .file content ∧
      decodeText content = some document ∧ Json.HasLongNumber document.toList) ∧
    ∀ look options before fault net, StopsAtFile look options before entry fault →
      let made := execute (fun path => pure (look path)) Network.sockets (.run options) before net
      made.1 = .failed fault ∧ made.2.contacts = net.contacts ∧
        (made.1.status = some 1 ∧
            made.2.notices.getLast? = some (.fatal "ConfigurationError" fault.message) ∨
          made.1.status = none ∧
            (¬ entry.IsLegible ∨ SettingsFile.HasNumberTooLong entry)) := by
  refine ⟨fun path => ?_, fun path => DatasetFile.ofEntry_failsAsConfiguration path entry,
    fun path settings => ?_, SettingsFile.HasNumberTooLong.exists_digits,
    fun look options before fault net hstops => ?_⟩
  · exact failsAsConfiguration_iff (FieldFile.ofEntry_of_legible path)
      (FieldFile.ofEntry_of_not_legible path)
  · exact failsAsConfiguration_iff
      (fun hsound => SettingsFile.load_of_legible path settings hsound.1 hsound.2)
      (SettingsFile.load_of_not_legible path settings)
  · have hplan := run_plan_of_stopsAtFile hstops net
    obtain ⟨-, hcontacts, -⟩ := atHome_plan_of_files look options before net
    rw [execute_of_plan_error (Prod.ext hplan rfl)]
    refine ⟨rfl, hcontacts, ?_⟩
    obtain hname | ⟨⟨misuse, rfl⟩, hunsound⟩ := hstops.fault_cases
    · refine .inl ⟨status_of_configuration hname, ?_⟩
      simp only [Outcome.notices, hname, List.getLast?_concat]
    · exact .inr ⟨rfl, hunsound⟩

/-- A parameters file with one word ends a run with its status and a last notice. -/
theorem localFiles_fail_as_configuration_one_word :
    (execute (fun path => pure (twoSamples [53, 50, 49] path)) Network.sockets
        (.run (twoSamplesOptions 1)) .default ⟨[], [], []⟩).1.status = some 1 ∧
      (execute (fun path => pure (twoSamples [53, 50, 49] path)) Network.sockets
        (.run (twoSamplesOptions 1)) .default ⟨[], [], []⟩).2.notices.getLast? =
          some (.fatal "ConfigurationError"
            "Field parameters file p must hold a prime and a gf2n degree") := by
  have hstops : StopsAtFile (twoSamples [53, 50, 49]) (twoSamplesOptions 1) .default
      (twoSamples [53, 50, 49] (Path.ofText "p").text)
      (.configuration (.parametersIncomplete "p")) := .params rfl rfl rfl rfl
  obtain ⟨-, -, -, hlong, hrun⟩ := localFiles_fail_as_configuration (.file [53, 50, 49])
  obtain ⟨-, -, hlogged | ⟨-, hillegible | htoo⟩⟩ := hrun _ _ _ _ ⟨[], [], []⟩ hstops
  · exact hlogged
  · exact absurd (by decide +kernel : (decodeText [53, 50, 49]).isSome = true) hillegible
  · obtain ⟨content, document, hcontent, htext, digits, hinfix, hmany, -⟩ := hlong htoo
    cases hcontent
    have hdocument : some document = some "521" := htext.symm.trans (by decide +kernel)
    cases hdocument
    have hfew : digits.length ≤ 3 := hinfix.length_le
    exact absurd (Nat.lt_of_lt_of_le hmany hfew) (by decide)

/-- Field parameters and settings that are not text are no fault of configuration, and the run has
no status. -/
theorem localFiles_escape :
    ¬ FailsAsConfiguration (FieldFile.ofEntry (.ofText "p") (.file [255])) ∧
      ¬ FailsAsConfiguration (SettingsFile.load "c" (.file [123, 34, 255, 34, 125]) .default) ∧
      (execute (fun path => pure (twoSamples [255] path)) Network.sockets
        (.run (twoSamplesOptions 1)) .default ⟨[], [], []⟩).1.status = none := by
  have hparams : ¬ (FileEntry.file [255]).IsLegible :=
    (by decide +kernel : ¬ (decodeText [255]).isSome = true)
  have hsettings : ¬ (FileEntry.file [123, 34, 255, 34, 125]).IsLegible :=
    (by decide +kernel : ¬ (decodeText [123, 34, 255, 34, 125]).isSome = true)
  refine ⟨?_, ?_, by decide +kernel⟩
  · obtain ⟨misuse, hmisuse⟩ := FieldFile.ofEntry_of_not_legible (.ofText "p") hparams
    exact fun h => by cases h _ hmisuse
  · obtain ⟨misuse, hmisuse⟩ := SettingsFile.load_of_not_legible "c" .default
      fun h => hsettings h.1
    exact fun h => by cases h _ hmisuse

end Run
end TreeParty
