import TreeParty.Proofs.Link.Outline
import TreeParty.Proofs.Session.Fit
import TreeParty.Proofs.Session.Length
/-!
# The traffic of a session

Sessions of one form look alike: against the same engines they take the same messages, send messages
of the same lengths in the same order and end in the same way. A session that returns has sent every
engine one element for each number of its schedule.
-/

set_option autoImplicit false

namespace TreeParty
namespace Session

open Client Exchange

/-- Whether all numbers that a session sends can be encoded and fit the field. -/
def IsEncodable (s : Session) : Prop :=
  ∀ vectors, s.featureSplits.result = .ok vectors →
    ∀ entry ∈ s.schedule vectors, (entry.accepted? s.client).isSome

/-- Two sessions that were run over the same links, as far as it can be seen: how they end, how many
numbers they count, what they leave behind, and what they send and receive in order. -/
structure SameTraffic {σ τ : Type} (carrier : Carrier (StateM σ)) (outline : σ → τ)
    (progress : Progress) (state : σ) (form : Form) (s s' : Session) : Prop where
  ending : (s'.run.run carrier progress state).1.1 = (s.run.run carrier progress state).1.1
  inputsSent : (s'.run.run carrier progress state).1.2.inputsSent =
    (s.run.run carrier progress state).1.2.inputsSent
  left : outline (s'.run.run carrier progress state).2 =
    outline (s.run.run carrier progress state).2
  traffic : s'.run.traffic carrier progress state = s.run.traffic carrier progress state
  returned : ∀ index, (s.run.run carrier progress state).1.1 = .returned index →
    (s.run.run carrier progress state).1.2.inputsSent = progress.inputsSent + form.inputs ∧
      ∀ engine < s.client.engines,
        Event.lengthsTo engine (s.run.traffic carrier progress state) =
          List.replicate form.inputs s.client.field.elementBytes

variable {s s' : Session} {form : Form}

theorem HasForm.performs (h : s.HasForm form) :
    ∃ vectors, s.featureSplits.result = .ok vectors ∧
      Performs s.client () s.sendPhases (s.schedule vectors) ∧
      (s.schedule vectors).length = form.inputs := by
  obtain ⟨vectors, hvectors, hcount, hlengths⟩ := h.featureSplits_eq_ok
  have hshape : s.samples.shape ≠ [] := by simp [h.shape]
  exact ⟨vectors, hvectors, performs_sendPhases hshape hvectors,
    h.length_schedule hcount hlengths⟩

theorem receiveIndex_congr (hclient : s'.client = s.client)
    (hauthenticated : s'.authenticated = s.authenticated) :
    s'.receiveIndex = s.receiveIndex := by
  unfold receiveIndex
  rw [hclient, hauthenticated]

theorem run_alike (hclient : s'.client = s.client)
    (hauthenticated : s'.authenticated = s.authenticated) (hform : s.HasForm form)
    (hform' : s'.HasForm form) (hencodable : s.IsEncodable) (hencodable' : s'.IsEncodable) :
    Alike Eq s.run s'.run := by
  obtain ⟨vectors, hvectors, hperforms, hlength⟩ := hform.performs
  obtain ⟨vectors', hvectors', hperforms', hlength'⟩ := hform'.performs
  have haccepted' := hencodable' vectors' hvectors'
  rw [hclient] at hperforms' haccepted'
  rw [run_eq_sendPhases, run_eq_sendPhases, receiveIndex_congr hclient hauthenticated]
  refine (hperforms.alike hperforms' (hlength'.trans hlength.symm)
    (hencodable vectors hvectors) haccepted').bind fun _ _ _ => ?_
  exact (listens_receiveIndex s).alike.mono fun _ _ h => h.1

theorem delivers_run (hform : s.HasForm form) (hencodable : s.IsEncodable) :
    Delivers s.client.engines (fun _ => True) form.inputs
      (List.replicate form.inputs s.client.field.elementBytes) s.run := by
  obtain ⟨vectors, hvectors, hperforms, hlength⟩ := hform.performs
  have hphases := hperforms.delivers (hencodable vectors hvectors)
  have hboth := hphases.bind fun _ _ => (listens_receiveIndex s).delivers s.client.engines
  rw [Nat.add_zero, List.append_nil, hlength] at hboth
  rw [run_eq_sendPhases]
  exact hboth

theorem sameTraffic_of_isBlind {σ τ : Type} {carrier : Carrier (StateM σ)} {outline : σ → τ}
    (hblind : carrier.IsBlind outline) (hclient : s'.client = s.client)
    (hauthenticated : s'.authenticated = s.authenticated) (hform : s.HasForm form)
    (hform' : s'.HasForm form) (hencodable : s.IsEncodable) (hencodable' : s'.IsEncodable)
    (progress : Progress) (state : σ) :
    SameTraffic carrier outline progress state form s s' := by
  have halike := run_alike hclient hauthenticated hform hform' hencodable hencodable'
  obtain ⟨hending, hinputs, hleft⟩ := halike.run hblind (Eq.refl progress.inputsSent)
    (Eq.refl (outline state))
  refine ⟨hending, hinputs, hleft, halike.traffic_eq hblind progress state, fun index hindex => ?_⟩
  exact ((delivers_run hform hencodable).traffic hindex).2

/-- Sessions of one form whose numbers can all be encoded cannot be told apart by their traffic,
over mailboxes or over byte streams. -/
theorem run_sameTraffic (hclient : s'.client = s.client)
    (hauthenticated : s'.authenticated = s.authenticated) (hform : s.HasForm form)
    (hform' : s'.HasForm form) (hencodable : s.IsEncodable) (hencodable' : s'.IsEncodable)
    (engines : Nat) (progress : Progress) :
    (∀ room, SameTraffic (Link.carrier (MailRoom.links engines) MailRoom.note) MailRoom.outline
      progress room form s s') ∧
    ∀ net, SameTraffic (Link.carrier (Network.links engines) Network.note) Network.outline
      progress net form s s' :=
  ⟨sameTraffic_of_isBlind (MailRoom.carrier_isBlind engines) hclient hauthenticated hform hform'
    hencodable hencodable' progress,
  sameTraffic_of_isBlind (Network.carrier_isBlind engines) hclient hauthenticated hform hform'
    hencodable hencodable' progress⟩

/-! ## Encodable sessions -/

/-- Samples and labels that fit are enough if the split limit and the sentinel fit as well. -/
theorem HasForm.isEncodable (hform : s.HasForm form) {places : Nat} {filler : Binary64}
    (hprecision : s.client.precision = .places places) (hplaces : places < 1024)
    (hpos : 0 < places) (hlimit : 0 < form.limit)
    (hsmall : form.limit * Nat.pow 2 places < Nat.pow 2 52)
    (hroom : form.limit * Nat.pow 2 places ≤ s.client.field.prime / 2)
    (hsentinel : s.splitSentinel = .ok filler) (hfinite : filler.isFinite = true)
    (hfiller : filler.units.natAbs = 1 * unitsPerOne)
    (hcells : ∀ x ∈ s.samples.cells, FixedPoint.Fits s.client.field places x)
    (hlabels : ∀ x ∈ s.labels.getD [], FixedPoint.Fits s.client.field places x) :
    s.IsEncodable := by
  intro vectors hvectors
  obtain ⟨computed, hcomputed, hall⟩ :=
    Session.featureSplits_eq_ok hform.finiteSamples hform.splitLimit hsentinel
  rw [hvectors] at hcomputed
  cases hcomputed
  have hcolumns : ∀ column ∈ s.samples.columns, ∀ x ∈ column,
      FixedPoint.Fits s.client.field places x := fun column hcolumn x hx =>
    hcells x (mem_cells_of_mem_columns hcolumn hx)
  have hcounts : HasRoom s.client.field places form.limit s.samples.columns := fun column _ =>
    (Nat.mul_le_mul_right _ (Nat.max_le.mpr
      ⟨hlimit, SplitParams.splitCount_le form.limit column⟩)).trans hroom
  exact (accepted_schedule_iff hprecision hcells hlabels).mpr
    ((vectors_fit_iff hplaces hpos hlimit hsmall hfinite hfiller hall hcolumns).mpr hcounts)

/-- A constant feature and one with two values, with the labels in one order and in the other. -/
theorem run_sameTraffic_two_samples :
    let one : Binary64 := .finite false unitsPerOne (by decide +kernel)
    let client : Client := ⟨.thirteen, 1, .places 1⟩
    let s : Session :=
      ⟨client, ⟨[2, 1], [.zero, .zero], rfl⟩, some [.zero, one], false, .whole 1, .ok one⟩
    let s' : Session :=
      ⟨client, ⟨[2, 1], [.zero, one], rfl⟩, some [one, .zero], false, .whole 1, .ok one⟩
    let form : Form := ⟨2, 1, 1, some (2, 2)⟩
    s.HasForm form ∧ s'.HasForm form ∧ s.IsEncodable ∧ s'.IsEncodable ∧ form.inputs = 14 ∧
      ∀ room, SameTraffic (Link.carrier (MailRoom.links 1) MailRoom.note) MailRoom.outline
        ⟨0, []⟩ room form s s' := by
  intro one client s s' form
  have hfinite : ∀ x ∈ [Binary64.zero, one], x.isFinite = true := by
    simp [Binary64.zero, one, Binary64.isFinite]
  have hunits : one.units.natAbs = 1 * unitsPerOne := by decide +kernel
  have hone : FixedPoint.Fits .thirteen 1 one :=
    (FixedPoint.fits_whole (by decide) rfl hunits (by decide)).mpr (by decide)
  have hzero : FixedPoint.Fits .thirteen 1 .zero := hone.of_le rfl (Nat.zero_le _)
  have hlabels : Indicator.distinctCount [.zero, one] = 2 := by decide +kernel
  have hlabels' : Indicator.distinctCount [one, .zero] = 2 := by decide +kernel
  have hform : s.HasForm form := by
    constructor
    case shape => rfl
    case finiteSamples => simp [s, Binary64.zero, Binary64.isFinite]
    case labelling => exact congrArg (fun count => some (2, count)) hlabels
    case finiteLabels =>
      rintro _ ⟨⟩
      exact hfinite
    case splitLimit => rfl
    case splitSentinel => exact ⟨one, rfl⟩
  have hform' : s'.HasForm form := by
    constructor
    case shape => rfl
    case finiteSamples => exact hfinite
    case labelling => exact congrArg (fun count => some (2, count)) hlabels'
    case finiteLabels =>
      rintro _ ⟨⟩
      simp [one, Binary64.zero, Binary64.isFinite]
    case splitLimit => rfl
    case splitSentinel => exact ⟨one, rfl⟩
  have hencodable : s.IsEncodable :=
    @HasForm.isEncodable s form hform 1 one rfl (by decide) (by decide) (by decide) (by decide)
      (by decide) rfl rfl hunits (by simp [s, client, hzero]) (by simp [s, client, hzero, hone])
  have hencodable' : s'.IsEncodable :=
    @HasForm.isEncodable s' form hform' 1 one rfl (by decide) (by decide) (by decide) (by decide)
      (by decide) rfl rfl hunits (by simp [s', client, hzero, hone])
      (by simp [s', client, hzero, hone])
  exact ⟨hform, hform', hencodable, hencodable', by decide,
    (@run_sameTraffic s s' form rfl rfl hform hform' hencodable hencodable' 1 ⟨0, []⟩).1⟩

end Session
end TreeParty
