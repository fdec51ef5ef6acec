import TreeParty.Proofs.Exchange.Traffic
import TreeParty.Proofs.Client.Numbers
/-!
# The traffic of a client

What can be seen of a client does not depend on the values that it sends, but only on how many there
are: gathering the triples is the same for all values, and what is sent is as long for all of them.
-/

set_option autoImplicit false

namespace TreeParty
namespace Client

open Exchange

variable {client : Client} {F : FieldParams}

/-! ## Listening -/

theorem length_of_unpackElements {buffer : Bytes} {count offset : Int} {xs : List (Residue F)}
    (h : unpackElements F buffer count offset = .ok xs) : xs.length = count.toNat := by
  unfold unpackElements at h
  dsimp only at h
  split at h
  · cases h
  · rw [length_of_mapM_eq_ok h, List.length_range]

theorem listens_receiveShares (client : Client) (engine count : Nat) :
    Listens (fun shares => shares.length = count) (client.receiveShares engine count) := by
  unfold receiveShares
  refine .receive engine _ fun buffer => ?_
  show Listens _ (if _ then _ else _)
  split
  · next hlength =>
    have hread := Listens.ofResult (unpackElements client.field buffer count 0)
    exact hread.mono fun shares hshares => length_of_unpackElements hshares
  · exact .fail _

theorem listens_shareLoop {β : Type} (client : Client) (count : Nat) {expected : Nat}
    {step : List β → List (Residue client.field) → List β}
    (hstep : ∀ sums shares, sums.length = expected → shares.length = count →
      (step sums shares).length = expected)
    {init : List β} (hinit : init.length = expected) :
    Listens (fun sums => sums.length = expected)
      ((List.range client.engines).foldlM (fun sums engine => do
        let shares ← client.receiveShares engine count
        return step sums shares) init) :=
  Listens.foldlM (fun sums hsums engine => (listens_receiveShares client engine count).bind
    fun shares hshares => .done (hstep sums shares hsums hshares)) hinit

theorem listens_gatherTriples (client : Client) (count : Nat) :
    Listens (fun triples => triples.length = count) (client.gatherTriples count) := by
  refine listens_shareLoop client (3 * count) (fun sums shares hsums hshares => ?_)
    List.length_replicate
  rw [List.length_zipWith, Triple.length_ofShares, hsums, hshares]
  omega

theorem listens_sumShares (client : Client) (count : Nat) :
    Listens (fun sums => sums.length = count) (client.sumShares count) := by
  refine listens_shareLoop client count (fun sums shares hsums hshares => ?_)
    List.length_replicate
  rw [List.length_zipWith, hsums, hshares, Nat.min_self]

theorem listens_receiveOpening (client : Client) :
    Listens (fun _ => True) client.receiveOpening := by
  unfold receiveOpening
  refine (listens_sumShares client 3).bind fun sums _ => ?_
  split
  · dsimp only
    split
    · exact .done trivial
    · exact .note _ (.fail _)
  · exact .fail _

theorem listens_receiveIndex (client : Client) : Listens (fun _ => True) client.receiveIndex := by
  unfold receiveIndex
  refine (listens_receiveShares client 0 1).bind fun shares _ => ?_
  split
  · exact .done trivial
  · exact .fail _

/-! ## Sending -/

theorem alike_sendElements {values values' : List (Residue client.field)}
    (hlength : values'.length = values.length) :
    Alike (fun _ _ => True) (client.sendElements (elements values))
      (client.sendElements (elements values')) := by
  by_cases hvalues : values = []
  · subst hvalues
    rw [List.length_eq_zero_iff.mp hlength]
    exact .done trivial
  have hvalues' : values' ≠ [] := by
    rw [ne_eq, ← List.length_eq_zero_iff, hlength, List.length_eq_zero_iff]
    exact hvalues
  rw [sendElements_of_ne_nil hvalues, sendElements_of_ne_nil hvalues', hlength]
  refine (listens_gatherTriples client values.length).alike.bind ?_
  rintro triples _ ⟨rfl, htriples⟩
  split
  · exact .noteLeft _ (.noteRight _ (.fail _))
  · rw [mask_elements, mask_elements]
    refine (Alike.sendAll client.engines ?_).bind fun _ _ _ => ?_
    · rw [length_packElements, length_packElements, List.length_zipWith, List.length_zipWith,
        hlength]
    · exact .advance (fun progress progress' h => congrArg (· + values.length) h) (.done trivial)

theorem delivers_sendElements {values : List (Residue client.field)} (hvalues : values ≠ []) :
    Delivers client.engines (fun _ => True) values.length
      [values.length * client.field.elementBytes] (client.sendElements (elements values)) := by
  rw [sendElements_of_ne_nil hvalues]
  refine (listens_gatherTriples client values.length).bind_delivers fun triples htriples => ?_
  split
  · exact (Delivers.fail _ _ _).note _
  · rw [mask_elements]
    have hsent := Delivers.sendAll client.engines
      (packElements (values.zipWith (fun v t => v + t.a) triples))
    rw [length_packElements, List.length_zipWith, htriples, Nat.min_self] at hsent
    have hcounted : Delivers client.engines (fun _ => True) values.length []
        (.advance (fun p => { p with inputsSent := p.inputsSent + values.length }) (.done ())) :=
      (Delivers.pure trivial).advance fun _ => rfl
    have hboth := hsent.bind fun _ _ => hcounted
    rw [Nat.zero_add] at hboth
    exact hboth

/-! ## One number -/

theorem Entry.exchange_of_accepted {entry : Entry} {n : Int}
    (h : entry.accepted? client = some n) :
    entry.exchange client = client.sendElements (elements [Residue.ofInt client.field n]) := by
  rw [entry.exchange_eq, entry.residue_of_accepted h]
  rfl

theorem alike_entry {entry entry' : Entry} (h : (entry.accepted? client).isSome)
    (h' : (entry'.accepted? client).isSome) :
    Alike (fun _ _ => True) (entry.exchange client) (entry'.exchange client) := by
  obtain ⟨n, hn⟩ := Option.isSome_iff_exists.mp h
  obtain ⟨n', hn'⟩ := Option.isSome_iff_exists.mp h'
  rw [entry.exchange_of_accepted hn, entry'.exchange_of_accepted hn']
  exact alike_sendElements rfl

theorem delivers_entry {entry : Entry} (h : (entry.accepted? client).isSome) :
    Delivers client.engines (fun _ => True) 1 [client.field.elementBytes]
      (entry.exchange client) := by
  obtain ⟨n, hn⟩ := Option.isSome_iff_exists.mp h
  rw [entry.exchange_of_accepted hn]
  have hsent := delivers_sendElements (List.cons_ne_nil (Residue.ofInt client.field n) [])
  rwa [List.length_singleton, Nat.one_mul] at hsent

/-! ## Numbers one after the other -/

variable {α β : Type} {a : α} {b : β} {x : Exchange α} {y : Exchange β}
  {entries entries' : List Entry}

theorem Performs.alike (hx : Performs client a x entries) (hy : Performs client b y entries')
    (hlength : entries'.length = entries.length)
    (haccepted : ∀ entry ∈ entries, (entry.accepted? client).isSome)
    (haccepted' : ∀ entry ∈ entries', (entry.accepted? client).isSome) :
    Alike (fun left right => left = a ∧ right = b) x y := by
  -- What cannot be seen is passed by on either side until both are at a number, or at the end.
  induction hx generalizing y entries' with
  | done =>
    induction hy with
    | done => exact .done ⟨rfl, rfl⟩
    | note notice _ ih => exact .noteRight notice (ih hlength haccepted')
    | advance hchange _ ih => exact .advanceRight hchange (ih hlength haccepted')
    | entry entry _ _ => cases hlength
  | note notice _ ih => exact .noteLeft notice (ih hy hlength haccepted haccepted')
  | advance hchange _ ih => exact .advanceLeft hchange (ih hy hlength haccepted haccepted')
  | entry entry _ ih =>
    induction hy with
    | done => cases hlength
    | note notice _ ih' => exact .noteRight notice (ih' hlength haccepted')
    | advance hchange _ ih' => exact .advanceRight hchange (ih' hlength haccepted')
    | entry entry' hrest' _ =>
      obtain ⟨hentry, hrest⟩ := List.forall_mem_cons.mp haccepted
      obtain ⟨hentry', hrest''⟩ := List.forall_mem_cons.mp haccepted'
      exact (alike_entry hentry hentry').bind fun _ _ _ =>
        ih hrest' (Nat.succ_injective hlength) hrest hrest''

/-- An exchange that returns has counted every number and sent every engine one element for it. -/
theorem Performs.delivers (hx : Performs client a x entries)
    (haccepted : ∀ entry ∈ entries, (entry.accepted? client).isSome) :
    Delivers client.engines (· = a) entries.length
      (List.replicate entries.length client.field.elementBytes) x := by
  induction hx with
  | done => exact .pure rfl
  | note notice _ ih => exact (ih haccepted).note notice
  | @advance change x entries hchange _ ih =>
    have hkept : ∀ progress, (change progress).inputsSent = progress.inputsSent + 0 := hchange
    have hrest := (ih haccepted).advance hkept
    rwa [Nat.zero_add] at hrest
  | @entry entry x entries _ ih =>
    obtain ⟨hentry, hrest⟩ := List.forall_mem_cons.mp haccepted
    have hboth := (delivers_entry hentry).bind fun _ _ => ih hrest
    rwa [Nat.add_comm] at hboth

end Client
end TreeParty
