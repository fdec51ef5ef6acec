import TreeParty.Proofs.Link.Connect
import TreeParty.Proofs.Link.Contacts
import TreeParty.Proofs.Run.Plan
import TreeParty.Proofs.Session.Honest
import Mathlib
/-!
# Runs that complete

The checks at home look at the samples and labels as they are. They do not look at the client id,
which is announced in four bytes, nor at the counts and sentinels of the split vectors. With honest
engines these alone decide whether a run that has begun to connect completes.
-/

set_option autoImplicit false

namespace TreeParty

/-! ## The usual settings -/

namespace Settings

open Binary64

theorem fixedPrecision_default : default.fixedPrecision = .places (8 : Nat) := rfl

theorem splitLimit_default : default.splitLimit = .whole (8 : Nat) := rfl

theorem splitSentinel_default : default.splitSentinel = .ok (ofDecimal true 1 0) := rfl

theorem portBase_default : default.portBase = .ok 20000 := rfl

theorem ofDecimal_whole (negative : Bool) (digits : Nat) :
    ofDecimal negative digits 0 = round negative (digits * unitsPerOne) 1 := by
  have hclipped : max (-((digits.log2 : Int) / 3 + 1 + 400)) (min 0 400) = 0 := by omega
  have hpower : Nat.pow 10 (0 : Int).toNat = 1 := rfl
  unfold ofDecimal
  simp only [hclipped]
  rw [if_pos (Int.le_refl 0), hpower, Nat.mul_one]

theorem sentinel_units :
    (ofDecimal true 1 0).isFinite = true ∧ (ofDecimal true 1 0).units.natAbs = 1 * unitsPerOne := by
  obtain ⟨h, hround⟩ := round_whole (show 1 ≤ Nat.pow 2 53 by decide) true
  rw [ofDecimal_whole, hround]
  exact ⟨rfl, natAbs_units_finite _ _ _⟩

end Settings

/-! ## Outcomes -/

namespace Outcome

theorem status_failed_ne_zero (fault : Fault) : (failed fault).status ≠ some 0 := by
  intro h
  cases fault <;> cases h

theorem status_ofEnding_iff (s : Session) (left : Ending Int × Progress) :
    (ofEnding (SessionResult.ofEnding s left)).status = some 0 ↔
      ∃ index, left.1 = .returned index := by
  obtain ⟨index | fault | _, progress⟩ := left
  · exact ⟨fun _ => ⟨index, rfl⟩, fun _ => rfl⟩
  · constructor
    · intro h
      exact absurd h (status_failed_ne_zero fault)
    · rintro ⟨index, hindex⟩
      cases hindex
  · constructor
    · intro h
      cases h
    · rintro ⟨index, hindex⟩
      cases hindex

end Outcome

/-! ## The session of a plan -/

namespace SessionPlan

open Binary64 FixedPoint Session

variable {options : CommandLine.Options} {plan : SessionPlan}

/-- With honest engines the session of a checked plan does not wait, and it returns exactly if
there is room for the counts and sentinels of its split vectors. -/
theorem session_run_iff (hchecked : Run.IsChecked options .default plan) {room : MailRoom}
    {engines : Nat} (hopen : room.IsOpen) (hengines : engines = room.boxes.length)
    (hhonest : (plan.session .default engines).IsHonest room.boxes) :
    let left := MailRoom.run (plan.session .default engines).run ⟨0, []⟩ room
    left.1.1 ≠ .waiting ∧ ((∃ index, left.1.1 = .returned index) ↔
      HasRoom plan.field 8 8 plan.samples.columns) := by
  have hplaces : 8 < 1024 := by decide
  have hcells : ∀ x ∈ plan.samples.cells, Fits plan.field 8 x :=
    fits_of_checkFits hchecked.cells
  have hlabels : ∀ x ∈ plan.labels.getD [], Fits plan.field 8 x :=
    fits_of_checkFits hchecked.labels
  obtain ⟨hfinite, hunits⟩ := Settings.sentinel_units
  obtain ⟨vectors, hvectors, hall⟩ := @featureSplits_eq_ok (plan.session .default engines) 8
    (ofDecimal true 1 0) (fun x hx => (hcells x hx).isFinite)
    Settings.splitLimit_default Settings.splitSentinel_default
  obtain ⟨hending, hreturns⟩ :=
    run_of_isHonest hopen hengines hchecked.shape hvectors hhonest ⟨0, []⟩
  have hcolumns : ∀ column ∈ plan.samples.columns, ∀ x ∈ column, Fits plan.field 8 x :=
    fun column hcolumn x hx => hcells x (mem_cells_of_mem_columns hcolumn hx)
  have haccepted := @accepted_schedule_iff (plan.session .default engines) 8 vectors
    Settings.fixedPrecision_default hcells hlabels
  have hroom := vectors_fit_iff hplaces (by decide) (by decide) (by decide) hfinite hunits hall
    hcolumns
  exact ⟨hending, hreturns.trans (haccepted.trans hroom)⟩

/-! ## Over a network -/

/-- Streams of engines that are honest towards a session: they work, and bring what honest engines
have to say. -/
def AreHonest (s : Session) (streams : List ByteStream) : Prop :=
  ∃ boxes, Mailbox.OpenFrom 0 boxes ∧ List.Forall₂ ByteStream.Carries streams boxes ∧
    s.IsHonest boxes

def zerosStream (F : FieldParams) (count : Nat) : ByteStream where
  incoming := ((zeros count).map (numbersMessage F)).flatMap Frame.encode
  reset := false
  failingFlush := none
  settling := .quiet

theorem carries_zerosStream {F : FieldParams}
    (hshort : 3 * F.elementBytes < Nat.pow 256 Frame.headerBytes) (count : Nat) :
    (zerosStream F count).Carries (zerosBox F count) := by
  refine ⟨rfl, rfl, (zeros count).map (numbersMessage F), [], ?_, ?_, ?_⟩
  · rw [List.map_map]
    rfl
  · intro payload hpayload
    obtain ⟨numbers, hnumbers, rfl⟩ := List.mem_map.mp hpayload
    have hfew : numbers.length ≤ 3 := by
      rcases List.mem_append.mp hnumbers with htriple | hresult
      · rw [List.eq_of_mem_replicate htriple]
        exact Nat.le_refl 3
      · rw [List.mem_singleton.mp hresult]
        exact Nat.le_of_ble_eq_true rfl
    rw [numbersMessage, length_packElements, List.length_map]
    exact Nat.lt_of_le_of_lt (Nat.mul_le_mul_right _ hfew) hshort
  · rw [List.append_nil]
    rfl

theorem areHonest_zerosStream {s : Session} (hplain : s.authenticated = false)
    (hshort : 3 * s.client.field.elementBytes < Nat.pow 256 Frame.headerBytes) :
    AreHonest s [zerosStream s.client.field s.exchanges] := by
  refine ⟨[zerosBox s.client.field s.exchanges], ?_, ?_, isHonest_zeros hplain⟩
  · exact Mailbox.openFrom_cons.mpr ⟨⟨rfl, rfl⟩, Mailbox.openFrom_nil 1⟩
  · exact List.Forall₂.cons (carries_zerosStream hshort _) List.Forall₂.nil

variable {net : Network} {engines : Nat}

theorem runOver_fst (plan : SessionPlan) (settings : Settings) (net : Network) (engines : Nat) :
    (plan.runOver settings Network.sockets (Network.links engines) net).1 =
      SessionResult.ofEnding (plan.session settings engines)
        ((plan.session settings engines).run.run
          (Link.carrier (Network.links engines) Network.note) ⟨0, []⟩ net).1 := by
  have hlength : (Network.links engines).length = engines := by simp [Network.links]
  unfold runOver
  rw [hlength]
  rfl

theorem grows_runOver (plan : SessionPlan) (settings : Settings) (engines : Nat) :
    Network.Grows (plan.runOver settings Network.sockets (Network.links engines)) := by
  have hkeeps : ∀ link ∈ Network.links engines, Network.Keeps link := by
    intro link hlink
    obtain ⟨place, -, rfl⟩ := List.mem_map.mp hlink
    exact Network.keeps_link place place
  unfold runOver
  refine Network.Grows.bind (Network.grows_run hkeeps _ _) fun ending => ?_
  exact Network.Grows.bind (Network.grows_closeAll hkeeps) fun _ => Network.Grows.pure _

theorem runOver_status_iff (hchecked : Run.IsChecked options .default plan)
    {boxes : List Mailbox} (hmatches : net.Matches boxes) (hengines : engines = boxes.length)
    (hhonest : (plan.session .default engines).IsHonest boxes) :
    (Outcome.ofEnding
        (plan.runOver .default Network.sockets (Network.links engines) net).1).status = some 0 ↔
      HasRoom plan.field 8 8 plan.samples.columns := by
  have hopen : MailRoom.IsOpen ⟨boxes, []⟩ := hmatches.isOpen
  obtain ⟨hending, hreturns⟩ := session_run_iff hchecked hopen hengines hhonest
  unfold MailRoom.run at hending hreturns
  subst hengines
  have hsame := @Network.run_of_matches net ⟨boxes, []⟩ _ _ hmatches rfl
    (plan.session .default boxes.length).run ⟨0, []⟩ hending
  rw [runOver_fst, Outcome.status_ofEnding_iff, hsame]
  exact hreturns

/-! ## Connecting -/

def hostNames (plan : SessionPlan) (settings : Settings) : List String :=
  plan.hosts.getD (settings.defaultHosts plan.engineCount)

theorem execute_of_connect {settings : Settings} {base : Int} {net' : Network}
    {links : List (Link (StateM Network))}
    (hbase : plan.portBase.elim settings.portBase .ok = .ok base)
    (hconnect : Network.sockets.connect (plan.hostNames settings) (.ok base) plan.clientId
      (some plan.engineCount) net = (.ok links, net')) :
    plan.execute settings Network.sockets net =
      plan.runOver settings Network.sockets links net' := by
  unfold hostNames at hconnect
  unfold execute
  simp only [hbase, Bind.bind, StateT.bind, hconnect]

theorem execute_of_connect_error {settings : Settings} {base : Int} {net' : Network} {fault : Fault}
    (hbase : plan.portBase.elim settings.portBase .ok = .ok base)
    (hconnect : Network.sockets.connect (plan.hostNames settings) (.ok base) plan.clientId
      (some plan.engineCount) net = (.error fault, net')) :
    plan.execute settings Network.sockets net = (.failed fault, net') := by
  unfold hostNames at hconnect
  unfold execute
  simp only [hbase, Bind.bind, StateT.bind, hconnect]
  rfl

theorem exists_base (plan : SessionPlan) :
    ∃ base, plan.portBase.elim Settings.default.portBase .ok = .ok base := by
  cases plan.portBase with
  | none => exact ⟨20000, Settings.portBase_default⟩
  | some port => exact ⟨port, rfl⟩

theorem connect_of_length {count : Nat} {engineCount : Int} (hone : 1 ≤ engineCount)
    (hcount : (count : Int) = engineCount) (hosts : List String) (base : Except Fault Int)
    (clientId : Int) (net : Network) :
    Network.sockets.connect hosts base clientId (some engineCount) net =
      if hosts.length < count then
        (.error (.configuration (.fewHosts engineCount hosts.length)), net)
      else Network.sockets.openLinks base clientId (hosts.take count) 0 [] net := by
  have hwanted : engineCount.toNat = count := by omega
  unfold Sockets.connect
  rw [Option.getD_some, if_neg (by omega), hwanted, ← hcount]
  simp only [Int.ofNat_lt]
  split
  · rfl
  · rfl

/-- With honest engines, hosts enough and a client id that can be announced, a checked plan becomes
a session over links that carry what the engines have to say. -/
theorem execute_of_areHonest (hchecked : Run.IsChecked options .default plan)
    {streams : List ByteStream} {more : List Attempt}
    (hhonest : AreHonest (plan.session .default streams.length) streams)
    (hcount : (streams.length : Int) = plan.engineCount)
    (hscript : net.script = streams.map .accepted ++ more) (hcontacts : net.contacts = [])
    (henough : streams.length ≤ (plan.hostNames .default).length)
    (hfits : plan.clientId ≤ 2147483647) :
    ∃ net' boxes, plan.execute .default Network.sockets net =
        plan.runOver .default Network.sockets (Network.links streams.length) net' ∧
      net'.Matches boxes ∧ streams.length = boxes.length ∧
      (plan.session .default streams.length).IsHonest boxes := by
  obtain ⟨base, hbase⟩ := exists_base plan
  have hnonneg := hchecked.nonneg
  rw [← hchecked.clientId] at hnonneg
  obtain ⟨bytes, hannounce⟩ := Frame.announcement_of_le (by omega) hfits
  obtain ⟨boxes, hopen, hcarries, hboxes⟩ := hhonest
  have hconnect := connect_of_length hchecked.engineCount hcount (plan.hostNames .default)
    (.ok base) plan.clientId net
  rw [if_neg (Nat.not_lt.mpr henough)] at hconnect
  have htaken := List.length_take_of_le henough
  obtain ⟨net', hlinks, hmatches⟩ := @Network.openLinks_of_carries net plan.clientId streams boxes
    [] _ more bytes hcarries hannounce htaken hscript (by rw [hcontacts]; rfl)
    ⟨nofun, nofun⟩ hopen base []
  rw [List.length_nil, ← List.range_eq_range', List.nil_append] at hlinks
  have hrun := execute_of_connect hbase (hconnect.trans hlinks)
  exact ⟨net', boxes, hrun, hmatches, hcarries.length_eq, hboxes⟩

/-- A checked plan that gets as far as connecting completes with honest engines exactly if the
client id can be announced and there is room for counts and sentinels. -/
theorem execute_status_iff (hchecked : Run.IsChecked options .default plan)
    {streams : List ByteStream} {more : List Attempt}
    (hhonest : AreHonest (plan.session .default streams.length) streams)
    (hcount : (streams.length : Int) = plan.engineCount)
    (hscript : net.script = streams.map .accepted ++ more) (hcontacts : net.contacts = [])
    (hattempt : (plan.execute .default Network.sockets net).2.contacts ≠ []) :
    (Outcome.ofEnding (plan.execute .default Network.sockets net).1).status = some 0 ↔
      plan.clientId ≤ 2147483647 ∧ HasRoom plan.field 8 8 plan.samples.columns := by
  obtain ⟨base, hbase⟩ := exists_base plan
  have hconnect := connect_of_length hchecked.engineCount hcount (plan.hostNames .default)
    (.ok base) plan.clientId net
  have henough : streams.length ≤ (plan.hostNames .default).length := by
    refine Nat.le_of_not_lt fun hfew => ?_
    rw [if_pos hfew] at hconnect
    rw [execute_of_connect_error hbase hconnect] at hattempt
    exact hattempt hcontacts
  by_cases hfits : plan.clientId ≤ 2147483647
  · obtain ⟨net', boxes, hrun, hmatches, hengines, hboxes⟩ :=
      execute_of_areHonest hchecked hhonest hcount hscript hcontacts henough hfits
    rw [hrun]
    have hstatus := runOver_status_iff hchecked hmatches hengines hboxes
    exact hstatus.trans ⟨fun h => ⟨hfits, h⟩, fun h => h.2⟩
  · have hlarge : 2147483647 < plan.clientId := by omega
    have hone := hchecked.engineCount
    obtain ⟨stream, rest, hfirst⟩ : ∃ stream rest, net.script = .accepted stream :: rest := by
      cases streams with
      | nil => exact absurd hcount (by rw [List.length_nil]; omega)
      | cons stream rest => exact ⟨stream, _, hscript⟩
    have hnonempty : (plan.hostNames .default).take streams.length ≠ [] := by
      apply List.ne_nil_of_length_pos
      rw [List.length_take_of_le henough]
      omega
    have hrange := Network.openLinks_of_announcement_range hfirst hnonempty hlarge base 0 []
    rw [if_neg (Nat.not_lt.mpr henough)] at hconnect
    have hrefused := execute_of_connect_error hbase (hconnect.trans (Prod.ext hrange rfl))
    rw [hrefused]
    exact ⟨fun h => absurd h (Outcome.status_failed_ne_zero _), fun h => absurd h.1 hfits⟩

theorem contacts_execute_ne_nil (hchecked : Run.IsChecked options .default plan)
    {streams : List ByteStream} {more : List Attempt}
    (hhonest : AreHonest (plan.session .default streams.length) streams)
    (hcount : (streams.length : Int) = plan.engineCount)
    (hscript : net.script = streams.map .accepted ++ more) (hcontacts : net.contacts = [])
    (henough : streams.length ≤ (plan.hostNames .default).length)
    (hfits : plan.clientId ≤ 2147483647) :
    (plan.execute .default Network.sockets net).2.contacts ≠ [] := by
  obtain ⟨net', boxes, hrun, hmatches, hengines, -⟩ :=
    execute_of_areHonest hchecked hhonest hcount hscript hcontacts henough hfits
  have hone := hchecked.engineCount
  have hfirst : 0 < boxes.length := by omega
  obtain ⟨host, port, stream, hcontact, -⟩ :=
    hmatches.carried 0 _ (List.getElem?_eq_getElem hfirst)
  have hsome : 0 < net'.contacts.length := (List.getElem?_eq_some_iff.mp hcontact).1
  rw [hrun]
  exact List.ne_nil_of_length_pos (Nat.lt_of_lt_of_le hsome (grows_runOver plan _ _ net'))

end SessionPlan

/-! ## The run -/

namespace Run

open CommandLine

variable {look : String → FileEntry} {options : Options} {settings : Settings} {plan : SessionPlan}

theorem execute_fst (look : String → StateM Network FileEntry) (options : Options)
    (before : Settings) (net : Network) :
    (execute look Network.sockets (.run options) before net).1 =
      (withOptions look Network.sockets options before net).1 := rfl

theorem execute_snd (look : String → StateM Network FileEntry) (options : Options)
    (before : Settings) (net : Network) :
    (execute look Network.sockets (.run options) before net).2 =
      { (withOptions look Network.sockets options before net).2 with
        notices := (withOptions look Network.sockets options before net).2.notices ++
          (withOptions look Network.sockets options before net).1.notices } :=
  forM_note _ _

theorem contacts_execute (look : String → StateM Network FileEntry) (options : Options)
    (before : Settings) (net : Network) :
    (execute look Network.sockets (.run options) before net).2.contacts =
      (withOptions look Network.sockets options before net).2.contacts := by
  rw [execute_snd]

theorem withOptions_of_plan {look : String → StateM Network FileEntry} {before : Settings}
    {net net' : Network}
    (hplan : (Run.plan look Network.note options before).run net = (.ok (settings, plan), net')) :
    withOptions look Network.sockets options before net =
      (.ofEnding (plan.execute settings Network.sockets net').1,
        (plan.execute settings Network.sockets net').2) := by
  rw [withOptions_eq, hplan]

/-- A plan that was made without a settings file is checked, and is carried out on a network that
differs in its notices only. -/
theorem execute_of_plan {net : Network} (hgiven : given options.settings = none)
    (hplan : ((Run.plan (fun path => pure (look path)) Network.note options .default).run net).1 =
      .ok (settings, plan)) :
    settings = .default ∧ IsChecked options .default plan ∧
      ∃ net' : Network, net'.script = net.script ∧ net'.contacts = net.contacts ∧
        (execute (fun path => pure (look path)) Network.sockets (.run options) .default net).1 =
          .ofEnding (plan.execute .default Network.sockets net').1 ∧
        (execute (fun path => pure (look path)) Network.sockets (.run options) .default
          net).2.contacts = (plan.execute .default Network.sockets net').2.contacts := by
  obtain ⟨hscript, hcontacts, hknown⟩ := atHome_plan hgiven .default net
  obtain ⟨hsettings, hchecked⟩ := hknown _ hplan
  refine ⟨hsettings, hchecked, _, hscript, hcontacts, ?_⟩
  have hrun := withOptions_of_plan (Prod.ext hplan rfl)
  rw [hsettings] at hrun
  rw [execute_fst, contacts_execute, hrun]
  exact ⟨rfl, rfl⟩

/-- Without a settings file, and with honest engines, a run that gets as far as the first attempt to
connect completes exactly if the client id fits its announcement and, for every feature, the number
of splits and the sentinel fit the field. -/
theorem execute_completes_iff {streams : List ByteStream} {more : List Attempt}
    {notices : List Notice} (hgiven : given options.settings = none)
    (hplan : ((Run.plan (fun path => pure (look path)) Network.note options .default).run
      ⟨streams.map .accepted ++ more, [], notices⟩).1 = .ok (settings, plan))
    (hcount : (streams.length : Int) = plan.engineCount)
    (hhonest : SessionPlan.AreHonest (plan.session settings streams.length) streams)
    (hattempt : (execute (fun path => pure (look path)) Network.sockets (.run options) .default
      ⟨streams.map .accepted ++ more, [], notices⟩).2.contacts ≠ []) :
    (execute (fun path => pure (look path)) Network.sockets (.run options) .default
        ⟨streams.map .accepted ++ more, [], notices⟩).1.status = some 0 ↔
      options.clientId ≤ 2147483647 ∧ ∀ column ∈ plan.samples.columns,
        256 * max 1 (min 8 ((Column.distinctValues column).length - 1)) ≤ plan.field.prime / 2 := by
  obtain ⟨rfl, hchecked, net', hscript, hcontacts, hending, hmade⟩ := execute_of_plan hgiven hplan
  rw [hmade] at hattempt
  rw [hending]
  have hstatus := SessionPlan.execute_status_iff hchecked hhonest hcount hscript hcontacts hattempt
  rw [hchecked.clientId] at hstatus
  refine hstatus.trans (and_congr_right fun _ => forall₂_congr fun column _ => ?_)
  rw [Nat.mul_comm]
  rfl

/-! ## Two samples of one feature, and one engine with zeros -/

def twoSamples (params : Bytes) (path : String) : FileEntry :=
  .file (if path = "p" then params else [48, 10, 48, 10])

def twoSamplesOptions (clientId : Int) : Options where
  clientId := clientId
  engineCount := some 1
  dataset := some "s"
  dataDirectory := some "d"
  paramsFile := some "p"

def zerosNetwork (F : FieldParams) (count : Nat) : Network :=
  ⟨[SessionPlan.zerosStream F count].map .accepted ++ [], [], []⟩

theorem exists_ok_of_check {ε α : Type} {result : Except ε α} {check : α → Bool}
    (h : result.toOption.any check = true) : ∃ a, result = .ok a ∧ check a = true := by
  cases result with
  | error fault => cases h
  | ok a => exact ⟨a, rfl, h⟩

theorem field_eq {F G : FieldParams} (hprime : F.prime = G.prime)
    (hdegree : F.gf2nDegree = G.gf2nDegree) : F = G := by
  cases F
  cases G
  cases hprime
  cases hdegree
  rfl

def asksFor (F : FieldParams) (count : Nat) (plan : SessionPlan) : Bool :=
  plan.engineCount == 1 && plan.field.prime == F.prime && plan.field.gf2nDegree == F.gf2nDegree &&
    !plan.authenticated && (plan.session .default 1).exchanges == count

theorem areHonest_of_asksFor {F : FieldParams} {count : Nat} (h : asksFor F count plan = true)
    (hshort : 3 * F.elementBytes < Nat.pow 256 Frame.headerBytes) :
    (([SessionPlan.zerosStream F count].length : Nat) : Int) = plan.engineCount ∧
      SessionPlan.AreHonest (plan.session .default 1) [SessionPlan.zerosStream F count] := by
  simp only [asksFor, Bool.and_eq_true, beq_iff_eq, Bool.not_eq_true'] at h
  obtain ⟨⟨⟨⟨hengines, hprime⟩, hdegree⟩, hplain⟩, hexchanges⟩ := h
  have hfield : (plan.session .default 1).client.field = F := field_eq hprime hdegree
  have hzeros := @SessionPlan.areHonest_zerosStream (plan.session .default 1) hplain
    (by rwa [hfield])
  rw [hexchanges, hfield] at hzeros
  exact ⟨hengines.symm, hzeros⟩

/-- A run in a field of 521 residues completes. -/
theorem execute_completes_iff_two_samples :
    (execute (fun path => pure (twoSamples [53, 50, 49, 32, 52, 48] path)) Network.sockets
      (.run (twoSamplesOptions 1)) .default (zerosNetwork ⟨521, 40, by decide⟩ 26)).1.status =
        some 0 := by
  obtain ⟨⟨settings, plan⟩, hplan, hcheck⟩ := @exists_ok_of_check _ _
    ((Run.plan (fun path => pure (twoSamples [53, 50, 49, 32, 52, 48] path)) Network.note
      (twoSamplesOptions 1) .default).run (zerosNetwork ⟨521, 40, by decide⟩ 26)).1
    (fun known => asksFor ⟨521, 40, by decide⟩ 26 known.2 &&
      (known.2.hostNames .default).length == 1 && known.2.samples.columns.all fun column =>
        256 * max 1 (min 8 ((Column.distinctValues column).length - 1)) ≤ known.2.field.prime / 2)
    (by decide +kernel)
  simp only [Bool.and_eq_true, beq_iff_eq, List.all_eq_true, decide_eq_true_eq] at hcheck
  obtain ⟨⟨hasks, hhosts⟩, hroom⟩ := hcheck
  obtain ⟨rfl, hchecked, net', hscript, hcontacts, -, hmade⟩ := execute_of_plan rfl hplan
  obtain ⟨hcount, hhonest⟩ := areHonest_of_asksFor hasks (by decide)
  have hfits : (twoSamplesOptions 1).clientId ≤ 2147483647 := by decide
  have hattempt := SessionPlan.contacts_execute_ne_nil hchecked hhonest hcount hscript hcontacts
    (Nat.le_of_eq hhosts.symm) (by rw [hchecked.clientId]; exact hfits)
  rw [← hmade] at hattempt
  unfold zerosNetwork at hplan hattempt ⊢
  exact (execute_completes_iff rfl hplan hcount hhonest hattempt).mpr ⟨hfits, hroom⟩

/-- Whether a run fails although it has begun to connect and its one engine is honest. -/
def FailsLate (look : String → FileEntry) (options : Options) (F : FieldParams) (count : Nat) :
    Prop :=
  ∃ plan, ((Run.plan (fun path => pure (look path)) Network.note options .default).run
      (zerosNetwork F count)).1 = .ok (.default, plan) ∧ 1 = plan.engineCount ∧
    SessionPlan.AreHonest (plan.session .default 1) [SessionPlan.zerosStream F count] ∧
    (execute (fun path => pure (look path)) Network.sockets (.run options) .default
      (zerosNetwork F count)).2.contacts ≠ [] ∧
    (execute (fun path => pure (look path)) Network.sockets (.run options) .default
      (zerosNetwork F count)).1.status ≠ some 0

theorem failsLate_of_checks {look : String → FileEntry} {F : FieldParams} {count : Nat}
    (hgiven : given options.settings = none)
    (hshort : 3 * F.elementBytes < Nat.pow 256 Frame.headerBytes)
    (hplan : (((Run.plan (fun path => pure (look path)) Network.note options .default).run
      (zerosNetwork F count)).1.toOption.any fun known => asksFor F count known.2) = true)
    (hattempt : (execute (fun path => pure (look path)) Network.sockets (.run options) .default
      (zerosNetwork F count)).2.contacts.isEmpty = false)
    (hstatus : (execute (fun path => pure (look path)) Network.sockets (.run options) .default
      (zerosNetwork F count)).1.status ≠ some 0) : FailsLate look options F count := by
  obtain ⟨⟨settings, plan⟩, hplan, hcheck⟩ := exists_ok_of_check hplan
  obtain ⟨rfl, -, -⟩ := execute_of_plan hgiven hplan
  obtain ⟨hcount, hhonest⟩ := areHonest_of_asksFor hcheck hshort
  refine ⟨plan, hplan, hcount, hhonest, ?_, hstatus⟩
  exact List.isEmpty_eq_false_iff.mp hattempt

/-- A client id of `2 ^ 31` is found out only when it is announced, and in a field of 101 residues
the sentinel only when it is sent. -/
theorem execute_fails_late :
    FailsLate (twoSamples [53, 50, 49, 32, 52, 48]) (twoSamplesOptions 2147483648)
        ⟨521, 40, by decide⟩ 26 ∧
      FailsLate (twoSamples [49, 48, 49, 32, 52, 48]) (twoSamplesOptions 1)
        ⟨101, 40, by decide⟩ 26 := by
  constructor
  · apply failsLate_of_checks rfl
    · decide
    · decide +kernel
    · decide +kernel
    · decide +kernel
  · apply failsLate_of_checks rfl
    · decide
    · decide +kernel
    · decide +kernel
    · decide +kernel

end Run
end TreeParty
