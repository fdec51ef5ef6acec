import TreeParty.Proofs.Client.Operations
import Mathlib
/-!
# Numbers sent one by one

A session sends its numbers one in each exchange. `Sends` says of an exchange which numbers it is
meant to send. However it ends, what it did send is a masked prefix of those that the encoding
accepts; if it returns, it has sent them all. Exchanges that send one after the other send the
numbers of both.
-/

set_option autoImplicit false

namespace TreeParty

namespace Mailbox

theorem offers_serve {F : FieldParams} {count place taken : Nat} {frames : List Bytes}
    {box : Mailbox} :
    (box.serve taken frames).Offers F count place ↔ box.Offers F count (taken + place) := by
  simp [Offers, serve]

end Mailbox

namespace Client

open Mailbox

/-- A number that travels by itself. -/
inductive Entry where
  | real (x : Binary64)
  | bit (b : Bool)

namespace Entry

/-- The whole number that stands for an entry: a real value in fixed point, a bit as it is. -/
def number (client : Client) : Entry → Except Fault Int
  | real x => FixedPoint.encode client.precision x
  | bit b => .ok (if b then 1 else 0)

def accepted? (client : Client) (entry : Entry) : Option Int :=
  match entry.number client with
  | .ok n => if client.field.prime / 2 < n.natAbs then none else some n
  | .error _ => none

def exchange (client : Client) : Entry → Exchange Unit
  | real x => client.sendReals [x]
  | bit b => client.sendInts [if b then 1 else 0]

end Entry

def accepted (client : Client) : List Entry → List Int
  | [] => []
  | entry :: rest =>
    match entry.accepted? client with
    | some n => n :: accepted client rest
    | none => []

/-- The frames that mask numbers one by one, each by the first element of the next message of every
engine. -/
def maskedFrames (F : FieldParams) (boxes : List Mailbox) (numbers : List Int) : List Bytes :=
  numbers.mapIdx fun i n => packElements [Residue.ofInt F n + summed F (boxes.map (message i)) 0]

variable {client : Client} {α β : Type}

/-! ## Accepted numbers -/

theorem length_accepted_le (entries : List Entry) :
    (accepted client entries).length ≤ entries.length := by
  induction entries with
  | nil => exact Nat.le_refl 0
  | cons entry rest ih =>
    rw [accepted]
    cases entry.accepted? client with
    | none => exact Nat.zero_le _
    | some n => exact Nat.succ_le_succ ih

theorem accepted_prefix_append (entries more : List Entry) :
    accepted client entries <+: accepted client (entries ++ more) := by
  induction entries with
  | nil => exact List.nil_prefix
  | cons entry rest ih =>
    rw [List.cons_append, accepted, accepted]
    cases entry.accepted? client with
    | none => exact List.nil_prefix
    | some n => exact List.cons_prefix_cons.mpr ⟨rfl, ih⟩

theorem accepted_append_of_length {entries : List Entry}
    (h : (accepted client entries).length = entries.length) (more : List Entry) :
    accepted client (entries ++ more) = accepted client entries ++ accepted client more := by
  induction entries with
  | nil => rfl
  | cons entry rest ih =>
    rw [accepted] at h
    rw [List.cons_append, accepted, accepted]
    cases hentry : entry.accepted? client with
    | none =>
      rw [hentry] at h
      cases h
    | some n =>
      rw [hentry] at h
      rw [ih (Nat.succ_injective h)]
      rfl

theorem isSome_of_length_accepted {entries : List Entry}
    (h : (accepted client entries).length = entries.length) :
    ∀ entry ∈ entries, (entry.accepted? client).isSome := by
  induction entries with
  | nil => exact fun entry hentry => absurd hentry List.not_mem_nil
  | cons entry rest ih =>
    rw [accepted] at h
    cases hentry : entry.accepted? client with
    | none =>
      rw [hentry] at h
      cases h
    | some n =>
      rw [hentry] at h
      intro other hother
      rcases List.mem_cons.mp hother with rfl | hmem
      · rw [hentry]
        rfl
      · exact ih (Nat.succ_injective h) other hmem

/-! ## Frames -/

theorem maskedFrames_append (F : FieldParams) (boxes : List Mailbox) (numbers more : List Int)
    (frames : List Bytes) :
    maskedFrames F boxes (numbers ++ more) =
      maskedFrames F boxes numbers ++
        maskedFrames F (boxes.map (serve numbers.length frames)) more := by
  simp only [maskedFrames, List.mapIdx_append, List.map_map]
  congr 2
  funext i n
  have hmessage : message i ∘ serve numbers.length frames = message (i + numbers.length) := by
    funext box
    rw [Function.comp_apply, message_serve, Nat.add_comm]
  rw [hmessage]

/-! ## What an exchange sends -/

/-- Some numbers were sent from one state to the end of a run, each masked by the next triple. -/
structure Sent (client : Client) (numbers : List Int) (before : Progress × MailRoom)
    (left : (Ending α × Progress) × MailRoom) : Prop where
  inputsSent : left.1.2.inputsSent = before.1.inputsSent + numbers.length
  outboxes : left.2.boxes.map outbox =
    before.2.boxes.map fun box => box.outbox ++ maskedFrames client.field before.2.boxes numbers
  offered : ∀ i < numbers.length, ∀ box ∈ before.2.boxes, box.Offers client.field 3 i

/-- Whether all engines have shares of consistent triples for a number of exchanges. -/
def IsServed (F : FieldParams) (boxes : List Mailbox) (count : Nat) : Prop :=
  ∀ i < count, (∀ box ∈ boxes, box.Offers F 3 i) ∧ Triple.Agrees F (boxes.map (message i)) 0

/-- However the exchange ends, it has sent a prefix of the accepted numbers of some entries. If it
returns, it has sent them all and taken one item of every engine for each. If the engines serve it
and every number is accepted, it does return. -/
def Sends (client : Client) (x : Exchange α) (entries : List Entry) (post : α → Prop) : Prop :=
  ∀ progress room, room.IsOpen → client.engines = room.boxes.length →
    ∃ numbers, numbers <+: accepted client entries ∧
      Sent client numbers (progress, room) (MailRoom.run x progress room) ∧
      (∀ a, (MailRoom.run x progress room).1.1 = .returned a →
        post a ∧ numbers.length = entries.length ∧
          (MailRoom.run x progress room).2.boxes =
            room.boxes.map (serve numbers.length (maskedFrames client.field room.boxes numbers))) ∧
      (IsServed client.field room.boxes entries.length →
        (MailRoom.run x progress room).1.1 ≠ .waiting ∧
        ((∀ entry ∈ entries, (entry.accepted? client).isSome) →
          ∃ a, (MailRoom.run x progress room).1.1 = .returned a))

theorem IsServed.mono {F : FieldParams} {boxes : List Mailbox} {count count' : Nat}
    (h : IsServed F boxes count) (hle : count' ≤ count) : IsServed F boxes count' :=
  fun i hi => h i (Nat.lt_of_lt_of_le hi hle)

theorem message_comp_serve (taken place : Nat) (frames : List Bytes) :
    message place ∘ serve taken frames = message (taken + place) :=
  funext fun box => message_serve taken place frames box

theorem IsServed.serve {F : FieldParams} {boxes : List Mailbox} {taken count : Nat}
    (h : IsServed F boxes (taken + count)) (frames : List Bytes) :
    IsServed F (boxes.map (serve taken frames)) count := by
  intro i hi
  obtain ⟨hoffers, hagrees⟩ := h (taken + i) (Nat.add_lt_add_left hi taken)
  refine ⟨?_, ?_⟩
  · intro box hbox
    obtain ⟨old, hold, rfl⟩ := List.mem_map.mp hbox
    exact offers_serve.mpr (hoffers old hold)
  · rwa [List.map_map, message_comp_serve]

theorem isOpen_of_served {room between : MailRoom} {taken : Nat} {frames : List Bytes}
    (hopen : room.IsOpen) (hboxes : between.boxes = room.boxes.map (Mailbox.serve taken frames)) :
    between.IsOpen ∧ between.boxes.length = room.boxes.length := by
  unfold MailRoom.IsOpen
  rw [hboxes]
  constructor
  · exact hopen.map (fun _ => rfl) fun _ => rfl
  · exact List.length_map _

theorem sent_nil {progress progress' : Progress} {room room' : MailRoom}
    (hsent : progress'.inputsSent = progress.inputsSent)
    (houtbox : room'.boxes.map outbox = room.boxes.map outbox) (ending : Ending α) :
    Sent client [] (progress, room) ((ending, progress'), room') := by
  refine ⟨hsent, ?_, fun i hi => absurd hi (Nat.not_lt_zero i)⟩
  rw [houtbox]
  simp [maskedFrames]

/-- A run that did not return sent the same, whatever was to follow. -/
theorem Sent.stopped {numbers : List Int} {before : Progress × MailRoom}
    {left : (Ending α × Progress) × MailRoom} (h : Sent client numbers before left)
    (ending : Ending β) : Sent client numbers before ((ending, left.1.2), left.2) :=
  ⟨h.inputsSent, h.outboxes, h.offered⟩

theorem Sent.append {numbers more : List Int} {before between : Progress × MailRoom}
    {ending : Ending α} {left : (Ending β × Progress) × MailRoom}
    (hfirst : Sent client numbers before ((ending, between.1), between.2))
    (hboxes : between.2.boxes = before.2.boxes.map
      (serve numbers.length (maskedFrames client.field before.2.boxes numbers)))
    (hsecond : Sent client more between left) : Sent client (numbers ++ more) before left := by
  have hframes := maskedFrames_append client.field before.2.boxes numbers more
    (maskedFrames client.field before.2.boxes numbers)
  constructor
  case inputsSent =>
    have hsent : between.1.inputsSent = before.1.inputsSent + numbers.length := hfirst.inputsSent
    rw [hsecond.inputsSent, hsent, List.length_append, Nat.add_assoc]
  case outboxes =>
    have hserved : ∀ box : Mailbox,
        (box.serve numbers.length (maskedFrames client.field before.2.boxes numbers)).outbox =
          box.outbox ++ maskedFrames client.field before.2.boxes numbers := fun _ => rfl
    rw [hsecond.outboxes, hframes, ← hboxes]
    simp only [hboxes, List.map_map, Function.comp_def, hserved, List.append_assoc]
  case offered =>
    intro i hi box hbox
    by_cases hlt : i < numbers.length
    · exact hfirst.offered i hlt box hbox
    · have hplace : numbers.length + (i - numbers.length) = i := by omega
      have hmem : box.serve numbers.length (maskedFrames client.field before.2.boxes numbers) ∈
          between.2.boxes := by
        rw [hboxes]
        exact List.mem_map_of_mem hbox
      rw [List.length_append] at hi
      have hoffers := hsecond.offered (i - numbers.length) (by omega) _ hmem
      rwa [offers_serve, hplace] at hoffers

theorem Sends.pure {a : α} {post : α → Prop} (ha : post a) : Sends client (pure a) [] post := by
  intro progress room _ _
  refine ⟨[], List.nil_prefix, sent_nil rfl rfl _, ?_, ?_⟩
  · intro b hb
    cases hb
    have hserve : serve 0 [] = id := funext serve_zero_nil
    exact ⟨ha, rfl, by simp [maskedFrames, hserve]⟩
  · intro _
    exact ⟨Ending.returned_ne_waiting a, fun _ => ⟨a, rfl⟩⟩

theorem Sends.bind {x : Exchange α} {f : α → Exchange β} {entries more : List Entry}
    {post : α → Prop} {post' : β → Prop} (hx : Sends client x entries post)
    (hf : ∀ a, post a → Sends client (f a) more post') :
    Sends client (x >>= f) (entries ++ more) post' := by
  intro progress room hopen hengines
  obtain ⟨numbers, hprefix, hsent, hdone, hserved⟩ := hx progress room hopen hengines
  have hfirst : IsServed client.field room.boxes (entries ++ more).length →
      IsServed client.field room.boxes entries.length := fun h =>
    h.mono (by rw [List.length_append]; exact Nat.le_add_right _ _)
  have hprefix' := hprefix.trans (accepted_prefix_append entries more)
  rw [MailRoom.run_bind]
  rcases hrun : MailRoom.run x progress room with ⟨⟨a | fault | _, middle⟩, between⟩
  · rw [hrun] at hsent hdone hserved
    obtain ⟨hpost, hlength, hboxes⟩ := hdone a rfl
    have hboxes : between.boxes = room.boxes.map
      (serve numbers.length (maskedFrames client.field room.boxes numbers)) := hboxes
    -- All numbers of the first part are sent, so that none of them was refused.
    have hcomplete : numbers = accepted client entries := by
      apply hprefix.eq_of_length_le
      rw [hlength]
      exact length_accepted_le entries
    obtain ⟨hopen', hlength'⟩ := isOpen_of_served hopen hboxes
    obtain ⟨rest, hrest, hsent', hdone', hserved'⟩ :=
      hf a hpost middle between hopen' (hengines.trans hlength'.symm)
    refine ⟨numbers ++ rest, ?_, hsent.append hboxes hsent', ?_, ?_⟩
    · rw [accepted_append_of_length (by rw [← hcomplete, hlength]), ← hcomplete]
      exact (List.prefix_append_right_inj numbers).mpr hrest
    · intro b hb
      obtain ⟨hpost', hlength', hboxes'⟩ := hdone' b hb
      refine ⟨hpost', by rw [List.length_append, List.length_append, hlength, hlength'], ?_⟩
      rw [maskedFrames_append client.field room.boxes numbers rest
        (maskedFrames client.field room.boxes numbers), ← hboxes]
      apply hboxes'.trans
      rw [hboxes, List.map_map]
      apply List.map_congr_left
      intro box _
      rw [Function.comp_apply, serve_serve, List.length_append]
    · intro h
      rw [List.length_append, ← hlength] at h
      have hrest' := h.serve (maskedFrames client.field room.boxes numbers)
      rw [← hboxes] at hrest'
      obtain ⟨hending, hreturns⟩ := hserved' hrest'
      exact ⟨hending, fun hall => hreturns fun entry hentry =>
        hall entry (List.mem_append_right entries hentry)⟩
  · rw [hrun] at hsent hserved
    refine ⟨numbers, hprefix', hsent.stopped (.failed fault), ?_, ?_⟩
    · intro b hb
      cases hb
    · intro h
      obtain ⟨-, hreturns⟩ := hserved (hfirst h)
      refine ⟨Ending.failed_ne_waiting fault, fun hall => ?_⟩
      obtain ⟨a, ha⟩ := hreturns fun entry hentry => hall entry (List.mem_append_left more hentry)
      cases ha
  · rw [hrun] at hsent hserved
    refine ⟨numbers, hprefix', hsent.stopped .waiting, ?_, ?_⟩
    · intro b hb
      cases hb
    · intro h
      exact absurd rfl (hserved (hfirst h)).1

/-! ## One number -/

namespace Entry

def residue (client : Client) (entry : Entry) : Except Fault (Residue client.field) := do
  Residue.ofSigned client.field (← entry.number client)

theorem exchange_eq (entry : Entry) :
    entry.exchange client = Exchange.ofResult (entry.residue client) >>= fun value =>
      client.sendElements (elements [value]) := by
  cases entry with
  | real x =>
    have hresidue : (real x).residue client = client.encodeReal x := rfl
    have hsend : (real x).exchange client =
        Exchange.ofResult ([x].mapM client.encodeReal) >>= fun values =>
          client.sendElements (elements values) := rfl
    rw [hresidue, hsend]
    cases hencode : client.encodeReal x <;> simp [hencode] <;> rfl
  | bit b =>
    have hresidue : (bit b).residue client =
      Residue.ofSigned client.field (if b then 1 else 0) := rfl
    have hsend : (bit b).exchange client =
        Exchange.ofResult ([if b then 1 else 0].mapM (Residue.ofSigned client.field)) >>=
          fun values => client.sendElements (elements values) := rfl
    rw [hresidue, hsend]
    cases hencode : Residue.ofSigned client.field (if b then 1 else 0) <;> simp [hencode] <;> rfl

theorem residue_eq_ok {entry : Entry} {value : Residue client.field}
    (h : entry.residue client = .ok value) :
    ∃ n, entry.accepted? client = some n ∧ value = Residue.ofInt client.field n := by
  unfold residue at h
  unfold accepted?
  cases hnumber : entry.number client with
  | error fault =>
    rw [hnumber] at h
    cases h
  | ok n =>
    rw [hnumber] at h
    change Residue.ofSigned client.field n = .ok value at h
    unfold Residue.ofSigned at h
    by_cases hlarge : client.field.prime / 2 < n.natAbs
    · rw [if_pos hlarge] at h
      cases h
    · rw [if_neg hlarge] at h
      cases h
      exact ⟨n, if_neg hlarge, rfl⟩

theorem residue_of_accepted {entry : Entry} {n : Int} (h : entry.accepted? client = some n) :
    entry.residue client = .ok (Residue.ofInt client.field n) := by
  unfold accepted? at h
  unfold residue
  cases hnumber : entry.number client with
  | error fault =>
    rw [hnumber] at h
    cases h
  | ok number =>
    rw [hnumber] at h
    change (if client.field.prime / 2 < number.natAbs then none else some number) = some n at h
    by_cases hlarge : client.field.prime / 2 < number.natAbs
    · rw [if_pos hlarge] at h
      cases h
    · rw [if_neg hlarge] at h
      cases h
      exact if_neg hlarge

end Entry

theorem sends_entry (client : Client) (entry : Entry) :
    Sends client (entry.exchange client) [entry] fun _ => True := by
  intro progress room hopen hengines
  rw [entry.exchange_eq, MailRoom.run_bind, MailRoom.run_ofResult]
  cases hresidue : entry.residue client with
  | error fault =>
    refine ⟨[], List.nil_prefix, sent_nil rfl rfl _, ?_, ?_⟩
    · intro a ha
      cases ha
    · intro _
      refine ⟨Ending.failed_ne_waiting fault, fun hall => ?_⟩
      obtain ⟨n, hn⟩ := Option.isSome_iff_exists.mp (hall entry (List.mem_singleton.mpr rfl))
      rw [entry.residue_of_accepted hn] at hresidue
      cases hresidue
  | ok value =>
    obtain ⟨n, haccepted, rfl⟩ := entry.residue_eq_ok hresidue
    have hnumbers : accepted client [entry] = [n] := by simp [accepted, haccepted]
    have hvalues : [Residue.ofInt client.field n] ≠ [] := List.cons_ne_nil _ _
    simp only [Ending.ofResult, Exchange.goOn]
    by_cases hgood : (∀ box ∈ room.boxes, box.Offers client.field 3 0) ∧
        ∀ i < 1, Triple.Agrees client.field (room.boxes.map (message 0)) i
    · obtain ⟨hoffers, hagrees⟩ := hgood
      have hrun := run_sendElements_of_agrees hopen hengines hvalues hoffers hagrees progress
      rw [hrun, hnumbers]
      refine ⟨[n], List.prefix_refl [n], ⟨rfl, ?_, ?_⟩, fun _ _ => ⟨trivial, rfl, ?_⟩,
        fun _ => ⟨Ending.returned_ne_waiting (), fun _ => ⟨(), rfl⟩⟩⟩
      · rw [List.map_map]
        rfl
      · intro i hi box hbox
        have hzero : i = 0 := Nat.lt_one_iff.mp hi
        rw [hzero]
        exact hoffers box hbox
      · exact List.map_congr_left fun box _ => rfl
    · obtain ⟨ending, boxes, notices, hrun, hending, houtbox⟩ :=
        run_sendElements_of_refused hopen hengines hvalues hgood progress
      rw [hrun]
      refine ⟨[], List.nil_prefix, sent_nil rfl houtbox _, fun _ h => absurd h hending,
        fun hserved => ?_⟩
      obtain ⟨hoffers, hagrees⟩ := hserved 0 Nat.one_pos
      exact absurd ⟨hoffers, fun i hi => Nat.lt_one_iff.mp hi ▸ hagrees⟩ hgood

/-! ## Numbers one after the other -/

/-- Whether an exchange sends the numbers of some entries one by one, besides notices and
bookkeeping, and then returns a value. -/
inductive Performs (client : Client) (a : α) : Exchange α → List Entry → Prop where
  | done : Performs client a (.done a) []
  | note (notice : Notice) {x : Exchange α} {entries : List Entry}
    (h : Performs client a x entries) : Performs client a (.note notice x) entries
  | advance {change : Progress → Progress} {x : Exchange α} {entries : List Entry}
    (hchange : ∀ progress, (change progress).inputsSent = progress.inputsSent)
    (h : Performs client a x entries) : Performs client a (.advance change x) entries
  | entry (entry : Entry) {x : Exchange α} {entries : List Entry}
    (h : Performs client a x entries) :
    Performs client a (entry.exchange client >>= fun _ => x) (entry :: entries)

theorem Performs.bind {a : α} {b : β} {x : Exchange α} {f : α → Exchange β}
    {entries more : List Entry} (hx : Performs client a x entries)
    (hf : Performs client b (f a) more) : Performs client b (x >>= f) (entries ++ more) := by
  induction hx with
  | done => exact hf
  | note notice _ ih => exact .note notice ih
  | advance hchange _ ih => exact .advance hchange ih
  | entry entry _ ih =>
    rw [bind_assoc, List.cons_append]
    exact .entry entry ih

theorem Performs.exchange (client : Client) (entry : Entry) :
    Performs client () (entry.exchange client) [entry] := by
  have hentry : Performs client () (entry.exchange client >>= fun _ => .done ()) [entry] :=
    .entry entry .done
  have hunit : (entry.exchange client >>= fun _ => .done ()) = entry.exchange client := bind_pure _
  rwa [hunit] at hentry

theorem Performs.forM {items : List α} {f : α → Exchange Unit} {g : α → List Entry}
    (h : ∀ a ∈ items, Performs client () (f a) (g a)) :
    Performs client () (items.forM f) (items.flatMap g) := by
  induction items with
  | nil => exact .done
  | cons a rest ih =>
    rw [List.flatMap_cons]
    exact (h a List.mem_cons_self).bind (ih fun b hb => h b (List.mem_cons_of_mem a hb))

theorem Performs.ofReport {report : Report α} {a : α} (h : report.result = .ok a) :
    Performs client a (Exchange.ofReport report) [] := by
  unfold Exchange.ofReport
  rw [h]
  induction report.notices with
  | nil => exact .done
  | cons notice _ ih => exact .note notice ih

/-- An exchange sends the numbers that it performs. -/
theorem Performs.sends {a : α} {x : Exchange α} {entries : List Entry}
    (hx : Performs client a x entries) : Sends client x entries (· = a) := by
  induction hx with
  | done => exact Sends.pure rfl
  | note notice _ ih =>
    intro progress room hopen hengines
    obtain ⟨numbers, hprefix, hsent, hdone⟩ :=
      ih progress ⟨room.boxes, room.notices ++ [notice]⟩ hopen hengines
    exact ⟨numbers, hprefix, ⟨hsent.inputsSent, hsent.outboxes, hsent.offered⟩, hdone⟩
  | @advance change x entries hchange _ ih =>
    intro progress room hopen hengines
    obtain ⟨numbers, hprefix, hsent, hdone⟩ := ih (change progress) room hopen hengines
    have hcount := hsent.inputsSent
    rw [hchange] at hcount
    exact ⟨numbers, hprefix, ⟨hcount, hsent.outboxes, hsent.offered⟩, hdone⟩
  | entry entry _ ih => exact (sends_entry client entry).bind fun _ _ => ih

end Client
end TreeParty
