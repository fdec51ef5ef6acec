import TreeParty.Proofs.Link.Stream
import Mathlib
/-!
# Framing is self-delimiting

Calls that receive, one after the other, take the messages off a stream one frame at a time.
Wherever the stream ends they return the messages whose frames came through whole; the next call
fails, and nothing of a frame that was cut is ever returned. A header that announces too much is
refused with nothing behind it taken.
-/

set_option autoImplicit false

namespace TreeParty

namespace Frame

/-! ## Frames before a cut -/

def encodeAll (payloads : List Bytes) : Bytes := payloads.flatMap encode

theorem encodeAll_append (payloads more : List Bytes) :
    encodeAll (payloads ++ more) = encodeAll payloads ++ encodeAll more :=
  List.flatMap_append

theorem length_encodeAll_take_mono (payloads : List Bytes) {count more : Nat} (h : count ≤ more) :
    (encodeAll (payloads.take count)).length ≤ (encodeAll (payloads.take more)).length := by
  obtain ⟨gap, rfl⟩ := Nat.exists_eq_add_of_le h
  rw [List.take_add, encodeAll_append, List.length_append]
  exact Nat.le_add_right _ _

/-- The frames that end before a cut are the first ones, up to some number. -/
theorem exists_whole (payloads : List Bytes) (cut : Nat) :
    ∃ whole ≤ payloads.length, (encodeAll (payloads.take whole)).length ≤ cut ∧
      ∀ i < payloads.length, i < whole ↔ (encodeAll (payloads.take (i + 1))).length ≤ cut := by
  let ends : Nat → Prop := fun count => (encodeAll (payloads.take count)).length ≤ cut
  have hzero : ends 0 := Nat.zero_le cut
  have hwhole : ends (Nat.findGreatest ends payloads.length) :=
    Nat.findGreatest_spec (Nat.zero_le payloads.length) hzero
  refine ⟨Nat.findGreatest ends payloads.length, Nat.findGreatest_le payloads.length, hwhole,
    fun i hi => ⟨fun hlt => ?_, fun hends => ?_⟩⟩
  · exact Nat.le_trans (length_encodeAll_take_mono payloads hlt) hwhole
  · exact Nat.le_findGreatest hi hends

theorem take_encodeAll {payloads : List Bytes} {cut whole : Nat}
    (hends : (encodeAll (payloads.take whole)).length ≤ cut) :
    (encodeAll payloads).take cut = encodeAll (payloads.take whole) ++
      (encodeAll (payloads.drop whole)).take (cut - (encodeAll (payloads.take whole)).length) := by
  have hsplit : encodeAll payloads =
      encodeAll (payloads.take whole) ++ encodeAll (payloads.drop whole) := by
    rw [← encodeAll_append, List.take_append_drop]
  rw [hsplit, List.take_append, List.take_of_length_le hends]

theorem receipt_of_end {payloads : List Bytes} {whole cut : Nat} {limit : Option Int}
    (hshort : ∀ payload ∈ payloads, payload.length < Nat.pow 256 headerBytes)
    (hends : (encodeAll (payloads.take whole)).length ≤ cut)
    (hnext : ∀ i < payloads.length, i < whole ↔ (encodeAll (payloads.take (i + 1))).length ≤ cut)
    (hadmits : ∀ payload, payloads[whole]? = some payload → Admits limit payload.length)
    (engine : Int) :
    receipt engine limit ((encodeAll (payloads.drop whole)).take
        (cut - (encodeAll (payloads.take whole)).length)) =
      (.failed (.transport (.midMessage engine)), []) := by
  by_cases hlast : payloads.length ≤ whole
  · rw [List.drop_eq_nil_of_le hlast]
    exact receipt_of_lt (by simp [encodeAll, headerBytes]) engine limit
  · have hlt : whole < payloads.length := Nat.lt_of_not_le hlast
    have hcut : cut < (encodeAll (payloads.take (whole + 1))).length :=
      Nat.lt_of_not_le fun hle => Nat.lt_irrefl whole ((hnext whole hlt).mpr hle)
    rw [List.take_succ_eq_append_getElem hlt, encodeAll_append, List.length_append] at hcut
    have hsingle : encodeAll [payloads[whole]] = encode payloads[whole] := List.append_nil _
    have hframe : cut - (encodeAll (payloads.take whole)).length <
        (encode payloads[whole]).length := by
      rw [← hsingle]
      omega
    have hfirst : (encodeAll (payloads.drop whole)).take
          (cut - (encodeAll (payloads.take whole)).length) =
        (encode payloads[whole]).take (cut - (encodeAll (payloads.take whole)).length) := by
      rw [List.drop_eq_getElem_cons hlt]
      exact List.take_append_of_le_length (Nat.le_of_lt hframe)
    rw [hfirst]
    exact receipt_of_cut (hshort _ (List.getElem_mem hlt))
      (hadmits _ (List.getElem?_eq_getElem hlt)) hframe engine

end Frame

namespace Network

/-! ## Successive calls -/

variable {net : Network} {handle : Nat} {stream : ByteStream}

def bringing (net : Network) (handle : Nat) (host : String) (port : Int) (stream : ByteStream)
    (bytes : Bytes) : Network :=
  net.withStream handle host port { stream with incoming := bytes }

theorem receive_bringing (hhandle : handle < net.contacts.length) (hreset : stream.reset = false)
    (host : String) (port engine : Int) (limit : Option Int) (bytes : Bytes) :
    (sockets.link engine handle).receive limit (net.bringing handle host port stream bytes) =
      ((Frame.receipt engine limit bytes).1,
        net.bringing handle host port stream (Frame.receipt engine limit bytes).2) :=
  @receive_withStream net handle { stream with incoming := bytes } hhandle hreset host port engine
    limit

theorem mapM_receive_bringing (hhandle : handle < net.contacts.length)
    (hreset : stream.reset = false) {limits : List (Option Int)} {payloads : List Bytes}
    (hlimits :
      List.Forall₂ (fun limit payload => Frame.Admits limit payload.length) limits payloads)
    (hshort : ∀ payload ∈ payloads, payload.length < Nat.pow 256 Frame.headerBytes)
    (left : Bytes) (host : String) (port engine : Int) :
    limits.mapM (sockets.link engine handle).receive
        (net.bringing handle host port stream (Frame.encodeAll payloads ++ left)) =
      (payloads.map .returned, net.bringing handle host port stream left) := by
  induction hlimits with
  | nil => rfl
  | @cons limit payload limits payloads hadmits hrest ih =>
    have hframes : Frame.encodeAll (payload :: payloads) ++ left =
        Frame.encode payload ++ (Frame.encodeAll payloads ++ left) := List.append_assoc _ _ _
    have hfirst := receive_bringing hhandle hreset host port engine limit
      (Frame.encode payload ++ (Frame.encodeAll payloads ++ left))
    rw [Frame.receipt_of_admits (hshort payload List.mem_cons_self) hadmits] at hfirst
    have hnext := ih fun other hother => hshort other (List.mem_cons_of_mem payload hother)
    simp only [List.mapM_cons, Bind.bind, StateT.bind]
    rw [hframes, hfirst]
    simp only
    rw [hnext]
    rfl

/-- What the calls on a link that receive make of the bytes that its stream brings. -/
structure IsSelfDelimiting (link : Link (StateM Network)) (bringing : Bytes → Network) : Prop where
  whole : ∀ (payloads : List Bytes) (limits : List (Option Int)),
    (∀ payload ∈ payloads, payload.length < Nat.pow 256 Frame.headerBytes) →
    List.Forall₂ (fun limit payload => Frame.Admits limit payload.length) limits payloads →
      limits.mapM link.receive (bringing (Frame.encodeAll payloads)) =
        (payloads.map .returned, bringing [])
  ended : ∀ limit, ∃ fault, link.receive limit (bringing []) =
    (.failed (.transport fault), bringing [])
  /-- `left` is what the calls that return leave of a cut stream; it gives no message. -/
  cut : ∀ (payloads : List Bytes) (limits : List (Option Int)) (cut : Nat),
    (∀ payload ∈ payloads, payload.length < Nat.pow 256 Frame.headerBytes) →
    List.Forall₂ (fun limit payload => Frame.Admits limit payload.length) limits payloads →
      ∃ whole ≤ payloads.length, ∃ left,
        (∀ i < payloads.length,
          i < whole ↔ (Frame.encodeAll (payloads.take (i + 1))).length ≤ cut) ∧
        (limits.take whole).mapM link.receive (bringing ((Frame.encodeAll payloads).take cut)) =
          ((payloads.take whole).map .returned, bringing left) ∧
        ∀ limit, (∀ payload, payloads[whole]? = some payload → Frame.Admits limit payload.length) →
          ∃ fault, link.receive limit (bringing left) = (.failed (.transport fault), bringing [])
  oversized : ∀ (header rest : Bytes) (bound : Int), header.length = Frame.headerBytes →
    bound < Bytes.toNat header →
      ∃ fault, link.receive (some bound) (bringing (header ++ rest)) =
        (.failed (.wire fault), bringing rest)

theorem link_isSelfDelimiting (hhandle : handle < net.contacts.length)
    (hreset : stream.reset = false) (host : String) (port engine : Int) :
    IsSelfDelimiting (sockets.link engine handle) (net.bringing handle host port stream) := by
  have hreceive := receive_bringing hhandle hreset host port engine
  constructor
  case whole =>
    intro payloads limits hshort hlimits
    have hcalls := mapM_receive_bringing hhandle hreset hlimits hshort [] host port engine
    rwa [List.append_nil] at hcalls
  case ended =>
    intro limit
    refine ⟨.midMessage engine, ?_⟩
    rw [hreceive, Frame.receipt_of_lt (by decide)]
  case cut =>
    intro payloads limits cut hshort hlimits
    obtain ⟨whole, hle, hends, hnext⟩ := Frame.exists_whole payloads cut
    have hcalls := mapM_receive_bringing hhandle hreset (List.forall₂_take whole hlimits)
      (fun payload hpayload => hshort payload (List.mem_of_mem_take hpayload))
      ((Frame.encodeAll (payloads.drop whole)).take
        (cut - (Frame.encodeAll (payloads.take whole)).length)) host port engine
    rw [← Frame.take_encodeAll hends] at hcalls
    refine ⟨whole, hle, _, hnext, hcalls, fun limit hadmits => ⟨.midMessage engine, ?_⟩⟩
    rw [hreceive, Frame.receipt_of_end hshort hends hnext hadmits]
  case oversized =>
    intro header rest bound hheader hlong
    have hrefused : ¬ Frame.Admits (some bound) (Bytes.toNat header) :=
      fun h => Int.not_le.mpr hlong (Frame.admits_some.mp h)
    obtain ⟨limit, hreceipt⟩ := Frame.receipt_of_not_admits hheader hrefused engine rest
    refine ⟨.oversized engine (Bytes.toNat header) limit, ?_⟩
    rw [hreceive, hreceipt]

/-- Three messages are cut after 20 of 27 bytes, in the header of the third. -/
theorem link_isSelfDelimiting_three_messages :
    0 < (⟨[], [⟨"localhost", 20000, .refused⟩], []⟩ : Network).contacts.length ∧
      (⟨[], false, none, .quiet, 0, [], 0⟩ : ByteStream).reset = false ∧
      IsSelfDelimiting (sockets.link 0 0) (bringing ⟨[], [⟨"localhost", 20000, .refused⟩], []⟩ 0
        "localhost" 20000 ⟨[], false, none, .quiet, 0, [], 0⟩) ∧
      (([some 2, none, some 1].mapM (sockets.link 0 0).receive (bringing
          ⟨[], [⟨"localhost", 20000, .refused⟩], []⟩ 0 "localhost" 20000
          ⟨[], false, none, .quiet, 0, [], 0⟩
          ((Frame.encodeAll [[7, 9], [], [5]]).take 20))).1 =
        [.returned [7, 9], .returned [], .failed (.transport (.midMessage 0))]) := by
  refine ⟨by decide, rfl, ?_, ?_⟩
  · exact link_isSelfDelimiting (by decide) rfl "localhost" 20000 0
  · cbv

end Network
end TreeParty
