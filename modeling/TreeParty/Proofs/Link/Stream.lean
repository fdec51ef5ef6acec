import TreeParty.Link.Network
/-!
# One byte stream

`Frame.receipt` says what one call that receives gets from the bytes that a stream still brings, and
which bytes it leaves. Over a stream that works a call receives just that, and a call that sends
appends one frame to what was written. Whatever else there is in the network stays as it is.
-/

set_option autoImplicit false

namespace TreeParty

/-! ## Frames -/

namespace Frame

theorem length_encode (payload : Bytes) :
    (encode payload).length = headerBytes + payload.length := by simp [encode]

def Admits (limit : Option Int) (length : Nat) : Prop :=
  ∀ bound, limit = some bound → (length : Int) ≤ bound

theorem admits_none (length : Nat) : Admits none length := by
  intro bound hbound
  cases hbound

theorem admits_some {bound : Int} {length : Nat} : Admits (some bound) length ↔ length ≤ bound := by
  constructor
  · exact fun h => h bound rfl
  · intro h other hother
    cases hother
    exact h

theorem checkLength_of_admits {limit : Option Int} {length : Nat} (h : Admits limit length)
    (engine : Int) : checkLength engine length limit = .ok () := by
  cases limit with
  | none => rfl
  | some bound => exact if_neg (Int.not_lt.mpr (admits_some.mp h))

theorem checkLength_of_not_admits {limit : Option Int} {length : Nat} (h : ¬ Admits limit length)
    (engine : Int) :
    ∃ bound, checkLength engine length limit = .error (.wire (.oversized engine length bound)) := by
  cases limit with
  | none => exact absurd (admits_none length) h
  | some bound => exact ⟨bound, if_pos (Int.not_le.mp fun hle => h (admits_some.mpr hle))⟩

/-! ## What a call receives -/

/-- What a call that receives gets from the bytes that a stream still brings, and the bytes that it
leaves. Bytes that are too few for a header or for the message are used up. -/
def receipt (engine : Int) (limit : Option Int) (bytes : Bytes) : Ending Bytes × Bytes :=
  if bytes.length < headerBytes then (.failed (.transport (.midMessage engine)), [])
  else
    let length := Bytes.toNat (bytes.take headerBytes)
    let rest := bytes.drop headerBytes
    match checkLength engine length limit with
    | .error fault => (.failed fault, rest)
    | .ok () =>
      if rest.length < length then (.failed (.transport (.midMessage engine)), [])
      else (.returned (rest.take length), rest.drop length)

variable {limit : Option Int} {bytes header rest payload : Bytes}

theorem receipt_of_lt (h : bytes.length < headerBytes) (engine : Int) (limit : Option Int) :
    receipt engine limit bytes = (.failed (.transport (.midMessage engine)), []) := if_pos h

theorem receipt_append (hheader : header.length = headerBytes) (engine : Int) (limit : Option Int)
    (rest : Bytes) :
    receipt engine limit (header ++ rest) =
      match checkLength engine (Bytes.toNat header) limit with
      | .error fault => (.failed fault, rest)
      | .ok () =>
        if rest.length < Bytes.toNat header then (.failed (.transport (.midMessage engine)), [])
        else (.returned (rest.take (Bytes.toNat header)), rest.drop (Bytes.toNat header)) := by
  have hlong : ¬ (header ++ rest).length < headerBytes := by
    rw [List.length_append]
    omega
  rw [receipt, if_neg hlong, List.take_left' hheader, List.drop_left' hheader]

theorem receipt_of_not_admits (hheader : header.length = headerBytes)
    (hlong : ¬ Admits limit (Bytes.toNat header)) (engine : Int) (rest : Bytes) :
    ∃ bound, receipt engine limit (header ++ rest) =
      (.failed (.wire (.oversized engine (Bytes.toNat header) bound)), rest) := by
  obtain ⟨bound, hcheck⟩ := checkLength_of_not_admits hlong engine
  refine ⟨bound, ?_⟩
  rw [receipt_append hheader, hcheck]

theorem toNat_header (hshort : payload.length < Nat.pow 256 headerBytes) :
    Bytes.toNat (Bytes.ofNat headerBytes payload.length) = payload.length :=
  Bytes.toNat_ofNat hshort

theorem receipt_encode (hshort : payload.length < Nat.pow 256 headerBytes) (engine : Int)
    (limit : Option Int) (left : Bytes) :
    receipt engine limit (encode payload ++ left) =
      match checkLength engine payload.length limit with
      | .error fault => (.failed fault, payload ++ left)
      | .ok () => (.returned payload, left) := by
  have henough : ¬ (payload ++ left).length < payload.length := by
    rw [List.length_append]
    omega
  rw [encode, List.append_assoc, receipt_append (Bytes.length_ofNat _ _), toNat_header hshort]
  simp only [if_neg henough, List.take_left, List.drop_left]

theorem receipt_of_admits (hshort : payload.length < Nat.pow 256 headerBytes)
    (hadmits : Admits limit payload.length) (engine : Int) (left : Bytes) :
    receipt engine limit (encode payload ++ left) = (.returned payload, left) := by
  rw [receipt_encode hshort, checkLength_of_admits hadmits]

/-- A frame that was cut is no message, wherever the cut is. -/
theorem receipt_of_cut (hshort : payload.length < Nat.pow 256 headerBytes)
    (hadmits : Admits limit payload.length) {cut : Nat} (hcut : cut < (encode payload).length)
    (engine : Int) :
    receipt engine limit ((encode payload).take cut) =
      (.failed (.transport (.midMessage engine)), []) := by
  have hheader : (Bytes.ofNat headerBytes payload.length).length = headerBytes :=
    Bytes.length_ofNat _ _
  rw [length_encode] at hcut
  by_cases hbefore : cut < headerBytes
  · apply receipt_of_lt
    rw [List.length_take, length_encode]
    omega
  · have hsplit : (encode payload).take cut =
        Bytes.ofNat headerBytes payload.length ++ payload.take (cut - headerBytes) := by
      rw [encode, List.take_append, hheader, List.take_of_length_le (by omega)]
    have hmissing : (payload.take (cut - headerBytes)).length < payload.length := by
      rw [List.length_take]
      omega
    rw [hsplit, receipt_append hheader, toNat_header hshort, checkLength_of_admits hadmits]
    exact if_pos hmissing

end Frame

/-! ## A stream among the contacts -/

def ByteStream.transmitted (stream : ByteStream) (bytes : Bytes) : ByteStream :=
  { stream with written := stream.written ++ bytes, flushes := stream.flushes + 1 }

namespace Network

variable {net : Network} {handle : Nat} {host : String} {port : Int} {stream : ByteStream}

def withStream (net : Network) (handle : Nat) (host : String) (port : Int) (stream : ByteStream) :
    Network :=
  { net with contacts := net.contacts.set handle ⟨host, port, .accepted stream⟩ }

theorem withStream_of_contact
    (hcontact : net.contacts[handle]? = some ⟨host, port, .accepted stream⟩) :
    net.withStream handle host port stream = net := by
  obtain ⟨hlt, hitem⟩ := List.getElem?_eq_some_iff.mp hcontact
  rw [withStream, ← hitem, List.set_getElem_self]

theorem contact_withStream (hhandle : handle < net.contacts.length) (host : String) (port : Int)
    (stream : ByteStream) :
    (net.withStream handle host port stream).contacts[handle]? =
      some ⟨host, port, .accepted stream⟩ :=
  List.getElem?_set_self hhandle

theorem onStream_of_contact {α : Type}
    (hcontact : net.contacts[handle]? = some ⟨host, port, .accepted stream⟩) (missing : α)
    (act : StateM ByteStream α) :
    onStream handle missing act net =
      ((act stream).1, net.withStream handle host port (act stream).2) := by
  unfold onStream
  rw [hcontact]
  rfl

theorem onStream_withStream {α : Type} (hhandle : handle < net.contacts.length) (host : String)
    (port : Int) (stream : ByteStream) (missing : α) (act : StateM ByteStream α) :
    onStream handle missing act (net.withStream handle host port stream) =
      ((act stream).1, net.withStream handle host port (act stream).2) := by
  rw [onStream_of_contact (contact_withStream hhandle host port stream)]
  simp only [withStream, List.set_set]

theorem take_withStream (hhandle : handle < net.contacts.length) (hreset : stream.reset = false)
    (host : String) (port : Int) (count : Nat) :
    sockets.take handle count (net.withStream handle host port stream) =
      if stream.incoming.length < count then
        (.ended, net.withStream handle host port { stream with incoming := [] })
      else (.bytes (stream.incoming.take count),
        net.withStream handle host port
          { stream with incoming := stream.incoming.drop count }) := by
  have hact := onStream_withStream hhandle host port stream (.broken "not connected")
    (ByteStream.take count)
  have hworks : ¬ stream.reset = true := by
    rw [hreset]
    exact Bool.false_ne_true
  simp only [sockets, hact, ByteStream.take, if_neg hworks]
  split <;> rfl

theorem transmit_withStream (hhandle : handle < net.contacts.length)
    (hflush : stream.failingFlush = none) (host : String) (port : Int) (bytes : Bytes) :
    sockets.transmit handle bytes (net.withStream handle host port stream) =
      (none, net.withStream handle host port (stream.transmitted bytes)) := by
  have hact := onStream_withStream hhandle host port stream (some "not connected")
    (ByteStream.transmit bytes)
  have hflushed : ¬ stream.failingFlush = some (stream.flushes + 1) := by
    rw [hflush]
    exact (Option.some_ne_none _).symm
  simp only [ByteStream.transmit, if_neg hflushed] at hact
  exact hact

/-! ## One call -/

theorem receive_withStream (hhandle : handle < net.contacts.length) (hreset : stream.reset = false)
    (host : String) (port engine : Int) (limit : Option Int) :
    (sockets.link engine handle).receive limit (net.withStream handle host port stream) =
      ((Frame.receipt engine limit stream.incoming).1, net.withStream handle host port
        { stream with incoming := (Frame.receipt engine limit stream.incoming).2 }) := by
  have hheader := take_withStream hhandle hreset host port Frame.headerBytes
  have hrest := @take_withStream net handle
    { stream with incoming := stream.incoming.drop Frame.headerBytes } hhandle hreset host port
    (Bytes.toNat (stream.incoming.take Frame.headerBytes))
  simp only [Sockets.link, Frame.reading, Sockets.read, Bind.bind, StateT.bind, Frame.receipt]
  rw [hheader]
  by_cases hshort : stream.incoming.length < Frame.headerBytes
  · simp only [if_pos hshort]
    rfl
  · simp only [if_neg hshort]
    cases hcheck : Frame.checkLength engine
        (Bytes.toNat (stream.incoming.take Frame.headerBytes)) limit with
    | error fault => rfl
    | ok =>
      simp only [Sockets.read, Bind.bind, StateT.bind]
      rw [hrest]
      by_cases hcut : (stream.incoming.drop Frame.headerBytes).length <
          Bytes.toNat (stream.incoming.take Frame.headerBytes)
      · simp only [if_pos hcut]
        rfl
      · simp only [if_neg hcut]
        rfl

theorem send_withStream (hhandle : handle < net.contacts.length)
    (hflush : stream.failingFlush = none) (host : String) (port engine : Int) (payload : Bytes) :
    (sockets.link engine handle).send payload (net.withStream handle host port stream) =
      (.ok (), net.withStream handle host port (stream.transmitted (Frame.encode payload))) := by
  have hact := transmit_withStream hhandle hflush host port (Frame.encode payload)
  simp only [Sockets.link, Bind.bind, StateT.bind, hact]
  rfl

end Network
end TreeParty
