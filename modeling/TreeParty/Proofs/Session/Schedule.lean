import TreeParty.Session
import TreeParty.Proofs.Client.Traffic
import TreeParty.Proofs.Column.Splits
import Mathlib
/-!
# The schedule of a session

`schedule` lists the numbers of a session in the order in which the engines read them. Whatever the
engines send and however the session ends, every engine has received the same masked prefix of it.
-/

set_option autoImplicit false

namespace TreeParty
namespace Session

open Client Mailbox

def labelEntries : Option (List Binary64) → List Entry
  | none => []
  | some labels => labels.map .real ++ (Indicator.ofLabels labels).flatten.map .bit

def indicatorEntries (column vector : List Binary64) : List Entry :=
  (Indicator.left column vector).flatten.map .bit ++
    (Indicator.right column vector).flatten.map .bit

def schedule (s : Session) (vectors : List (List Binary64)) : List Entry :=
  s.samples.cells.map .real ++ (labelEntries s.labels ++
    (vectors.flatMap (·.map .real) ++
      (s.samples.columns.zip vectors).flatMap fun (column, vector) =>
        indicatorEntries column vector))

variable {s : Session}

/-! ## Phases -/

theorem performs_values (s : Session) (values : List Binary64) :
    Performs s.client () (s.sendValues values) (values.map .real) := by
  rw [List.map_eq_flatMap]
  exact Performs.forM fun x _ => .exchange s.client (.real x)

theorem performs_bits (s : Session) (rows : BitRows) :
    Performs s.client () (s.sendBits rows) (rows.flatten.map .bit) := by
  rw [List.map_eq_flatMap]
  exact Performs.forM fun b _ => .exchange s.client (.bit b)

theorem performs_samples (hshape : s.samples.shape ≠ []) :
    Performs s.client () s.sendSamples (s.samples.cells.map .real) := by
  have hrows : s.samples.shape.isEmpty = false := by simpa using hshape
  unfold sendSamples
  rw [hrows, ← List.append_nil (s.samples.cells.map Entry.real)]
  exact (performs_values s s.samples.cells).bind .done

theorem performs_labels (s : Session) :
    Performs s.client () (if s.labels.isSome then s.sendLabels else pure ())
      (labelEntries s.labels) := by
  unfold sendLabels
  cases s.labels with
  | none => exact .done
  | some labels =>
    exact (performs_values s labels).bind (performs_bits s (Indicator.ofLabels labels))

theorem performs_computeSplits {vectors : List (List Binary64)}
    (hvectors : s.featureSplits.result = .ok vectors) :
    Performs s.client vectors s.computeSplits [] :=
  (Performs.ofReport hvectors).bind (.advance (fun _ => rfl) .done)

theorem performs_splits (s : Session) (vectors : List (List Binary64)) :
    Performs s.client () (s.sendSplits vectors) (vectors.flatMap (·.map .real)) :=
  Performs.forM fun vector _ => performs_values s vector

theorem performs_indicators (s : Session) (vectors : List (List Binary64)) :
    Performs s.client () (s.sendIndicators vectors)
      ((s.samples.columns.zip vectors).flatMap fun (column, vector) =>
        indicatorEntries column vector) :=
  Performs.forM fun (column, vector) _ =>
    (performs_bits s (Indicator.left column vector)).bind
      (performs_bits s (Indicator.right column vector))

def sendPhases (s : Session) : Exchange Unit :=
  s.sendSamples >>= fun _ => (if s.labels.isSome then s.sendLabels else pure ()) >>= fun _ =>
    s.computeSplits >>= fun vectors => s.sendSplits vectors >>= fun _ => s.sendIndicators vectors

theorem run_eq_sendPhases (s : Session) : s.run = s.sendPhases >>= fun _ => s.receiveIndex := by
  unfold run sendPhases
  cases s.labels.isSome <;> simp

theorem performs_sendPhases {vectors : List (List Binary64)} (hshape : s.samples.shape ≠ [])
    (hvectors : s.featureSplits.result = .ok vectors) :
    Performs s.client () s.sendPhases (s.schedule vectors) :=
  (performs_samples hshape).bind <| (performs_labels s).bind <|
    (performs_computeSplits hvectors).bind <|
      (performs_splits s vectors).bind (performs_indicators s vectors)

/-! ## The result -/

/-- An exchange that leaves what was sent as it is. -/
def IsQuiet {α : Type} (x : Exchange α) (room : MailRoom) : Prop :=
  ∀ progress, (MailRoom.run x progress room).1.2 = progress ∧
    (MailRoom.run x progress room).2.boxes.map outbox = room.boxes.map outbox

theorem isQuiet_of_listens {α : Type} {post : α → Prop} {x : Exchange α} (hx : x.Listens post)
    (room : MailRoom) : IsQuiet x room := by
  intro progress
  unfold MailRoom.run
  generalize room.boxes.length = engines
  induction hx generalizing room with
  | done _ => exact ⟨rfl, rfl⟩
  | fail fault => exact ⟨rfl, rfl⟩
  | receive engine limit _ ih =>
    have houtbox := MailRoom.map_outbox_receive engines engine limit room
    rw [Exchange.run_receive]
    revert houtbox
    rcases (Link.carrier (MailRoom.links engines) MailRoom.note).receive engine limit room with
      ⟨bytes | _ | _, between⟩
    · intro houtbox
      obtain ⟨hprogress, hrest⟩ := ih bytes between
      exact ⟨hprogress, hrest.trans houtbox⟩
    · exact fun houtbox => ⟨rfl, houtbox⟩
    · exact fun houtbox => ⟨rfl, houtbox⟩
  | note notice _ ih => exact ih ⟨room.boxes, room.notices ++ [notice]⟩

theorem listens_receiveIndex (s : Session) : s.receiveIndex.Listens fun _ => True := by
  unfold receiveIndex
  split
  · exact (listens_receiveOpening s.client).bind fun _ _ => .done trivial
  · exact Client.listens_receiveIndex s.client

theorem run_receiveIndex_after (s : Session) (x : Exchange Unit) (room : MailRoom)
    (progress : Progress) :
    let left := MailRoom.run (x >>= fun _ => s.receiveIndex) progress room
    let before := MailRoom.run x progress room
    left.1.2 = before.1.2 ∧ left.2.boxes.map outbox = before.2.boxes.map outbox ∧
      ∀ index, left.1.1 = .returned index → before.1.1 = .returned () := by
  dsimp only
  rw [MailRoom.run_bind]
  rcases MailRoom.run x progress room with ⟨⟨a | fault | _, middle⟩, between⟩
  · obtain ⟨hprogress, houtbox⟩ := isQuiet_of_listens (listens_receiveIndex s) between middle
    exact ⟨hprogress, houtbox, fun _ _ => rfl⟩
  · refine ⟨rfl, rfl, fun index h => ?_⟩
    cases h
  · refine ⟨rfl, rfl, fun index h => ?_⟩
    cases h

/-! ## The whole session -/

theorem mem_cells_of_mem_columns {g : Grid} {column : List Binary64} {x : Binary64}
    (hcolumn : column ∈ g.columns) (hx : x ∈ column) : x ∈ g.cells := by
  obtain ⟨j, -, rfl⟩ := List.mem_map.mp hcolumn
  unfold Grid.column at hx
  split at hx
  · obtain ⟨i, -, hcell⟩ := List.mem_filterMap.mp hx
    exact List.mem_of_getElem? hcell
  · exact absurd hx List.not_mem_nil

theorem featureSplits_eq_ok {limit : Nat} {filler : Binary64}
    (hfinite : ∀ x ∈ s.samples.cells, x.isFinite = true) (hlimit : s.splitLimit = .whole limit)
    (hfiller : s.splitSentinel = .ok filler) :
    ∃ vectors, s.featureSplits.result = .ok vectors ∧
      List.Forall₂ (SplitParams.IsVector limit filler) s.samples.columns vectors := by
  unfold featureSplits
  rw [hlimit, hfiller]
  exact Report.mapM_result fun column hcolumn =>
    SplitParams.vectorReport_eq_ok limit filler fun x hx =>
      hfinite x (mem_cells_of_mem_columns hcolumn hx)

theorem lengths_of_isVector {rows features limit : Nat} {filler : Binary64}
    {vectors : List (List Binary64)} (hshape : s.samples.shape = [rows, features])
    (hall : List.Forall₂ (SplitParams.IsVector limit filler) s.samples.columns vectors) :
    vectors.length = features ∧ ∀ vector ∈ vectors, vector.length = limit + 1 := by
  have hfeatures : s.samples.columns.length = features := by
    simp [Grid.columns, Grid.featureCount, hshape]
  refine ⟨by rw [← hall.length_eq, hfeatures], fun vector hvector => ?_⟩
  obtain ⟨i, hi, rfl⟩ := List.mem_iff_getElem.mp hvector
  exact (hall.get (by rw [hall.length_eq]; exact hi) hi).length_eq

/-- Every engine of a session receives the same frames, and they mask the first numbers of the
schedule, up to the first that is refused at most. A session that returns has sent them all. -/
theorem run_sends_masked_numbers {room : MailRoom} {rows features limit : Nat} {filler : Binary64}
    (hopen : room.IsOpen) (hengines : s.client.engines = room.boxes.length)
    (hshape : s.samples.shape = [rows, features])
    (hfinite : ∀ x ∈ s.samples.cells, x.isFinite = true) (hlimit : s.splitLimit = .whole limit)
    (hfiller : s.splitSentinel = .ok filler) (progress : Progress) :
    let left := MailRoom.run s.run progress room
    ∃ vectors, s.featureSplits.result = .ok vectors ∧
      vectors.length = features ∧ (∀ vector ∈ vectors, vector.length = limit + 1) ∧
      ∃ k ≤ (accepted s.client (s.schedule vectors)).length,
        left.1.2.inputsSent = progress.inputsSent + k ∧
        left.2.boxes.map outbox = room.boxes.map (fun box => box.outbox ++
          ((accepted s.client (s.schedule vectors)).take k).mapIdx fun i n =>
            packElements [Residue.ofInt s.client.field n +
              summed s.client.field (room.boxes.map (message i)) 0]) ∧
        (∀ i < k, ∀ box ∈ room.boxes, box.Offers s.client.field 3 i) ∧
        ∀ index, left.1.1 = .returned index → k = (s.schedule vectors).length := by
  obtain ⟨vectors, hvectors, hall⟩ := featureSplits_eq_ok hfinite hlimit hfiller
  have hrows : s.samples.shape ≠ [] := by simp [hshape]
  obtain ⟨hcount, hlengths⟩ := lengths_of_isVector hshape hall
  refine ⟨vectors, hvectors, hcount, hlengths, ?_⟩
  obtain ⟨numbers, hprefix, hsent, hdone, -⟩ :=
    (performs_sendPhases hrows hvectors).sends progress room hopen hengines
  obtain ⟨hprogress, houtbox, hreturned⟩ := run_receiveIndex_after s s.sendPhases room progress
  have hnumbers := List.prefix_iff_eq_take.mp hprefix
  rw [run_eq_sendPhases]
  refine ⟨numbers.length, hprefix.length_le, ?_, ?_, hsent.offered, ?_⟩
  · rw [hprogress]
    exact hsent.inputsSent
  · rw [houtbox, ← hnumbers]
    exact hsent.outboxes
  · intro index hindex
    exact (hdone () (hreturned index hindex)).2.1

/-- One sample and its label, one engine, and triples for two of the numbers: these two are sent. -/
theorem run_sends_masked_numbers_one_sample :
    let s : Session :=
      ⟨⟨.thirteen, 1, .places 0⟩, ⟨[1, 1], [.zero], rfl⟩, some [.ofNat 1], false, .whole 1,
        .ok .zero⟩
    let room : MailRoom := ⟨holding .thirteen [[[3, 4, 12], [5, 2, 10]]], []⟩
    ∃ vectors, s.featureSplits.result = .ok vectors ∧ vectors.length = 1 ∧
      2 ≤ (accepted s.client (s.schedule vectors)).length ∧
      (MailRoom.run s.run ⟨0, []⟩ room).1.2.inputsSent = 2 ∧
      (MailRoom.run s.run ⟨0, []⟩ room).2.boxes.map outbox =
        room.boxes.map (fun box => box.outbox ++
          ((accepted s.client (s.schedule vectors)).take 2).mapIdx fun i n =>
            packElements [Residue.ofInt .thirteen n +
              summed .thirteen (room.boxes.map (message i)) 0]) ∧
      (MailRoom.run s.run ⟨0, []⟩ room).2.boxes.map outbox =
        [[packElements [Residue.ofInt .thirteen 3], packElements [Residue.ofInt .thirteen 6]]] := by
  intro s room
  have hopen : room.IsOpen := isOpen_holding _ _ _
  have hfinite : ∀ x ∈ s.samples.cells, x.isFinite = true := by
    intro x hx
    rw [List.mem_singleton.mp hx]
    rfl
  obtain ⟨vectors, hvectors, hlength, -, k, hk, hsent, houtbox, -⟩ :=
    @run_sends_masked_numbers s room 1 1 1 .zero hopen rfl rfl hfinite rfl rfl ⟨0, []⟩
  have htwo : (MailRoom.run s.run ⟨0, []⟩ room).1.2.inputsSent = 2 := by decide +kernel
  obtain rfl : 2 = k := by
    rw [htwo, Nat.zero_add] at hsent
    exact hsent
  exact ⟨vectors, hvectors, hlength, hk, htwo, houtbox, by decide +kernel⟩

end Session
end TreeParty
