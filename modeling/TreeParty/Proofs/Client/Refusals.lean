import TreeParty.Proofs.Client.Operations
import TreeParty.Proofs.Field.Signed
import TreeParty.Proofs.FixedPoint.Nearest
import TreeParty.Proofs.FixedPoint.Order
/-!
# Values that cannot be sent

A client takes all numbers of a call into the field before it turns to any engine. So a call with a
number that has no residue fails for the first such number and leaves everything as it was: every
inbox and outbox, the notices, and the count of what was sent.
-/

set_option autoImplicit false

namespace TreeParty
namespace Client

variable {client : Client}

/-- A number as it is given to a client: a real value to be encoded, or a whole number. -/
inductive Given where
  | real (x : Binary64)
  | whole (n : Int)

namespace Given

def number (client : Client) : Given → Except Fault Int
  | real x => FixedPoint.encode client.precision x
  | whole n => .ok n

def residue (client : Client) (given : Given) : Except Fault (Residue client.field) := do
  Residue.ofSigned client.field (← given.number client)

end Given

def Operation.given : Operation client → List Given
  | reals values => values.map .real
  | ints values => values.map .whole
  | publicNumbers treeType splitCount classCount =>
    [.whole treeType, .whole splitCount, .whole classCount]
  | _ => []

inductive Refused (client : Client) : Given → Fault → Prop where
  | notFinite {x : Binary64} (hx : x.isFinite = false) :
    Refused client (.real x) (.misuse (.notFinite x))
  /-- The power of two is too large for a double. -/
  | noFactor {x : Binary64} (hx : x.isFinite = true)
    (hscale : client.precision.scale = .error (.misuse .tooLarge)) :
    Refused client (.real x) (.misuse .tooLarge)
  | infiniteProduct {x factor : Binary64} {negative : Bool} (hx : x.isFinite = true)
    (hscale : client.precision.scale = .ok factor) (hproduct : x.mul factor = .inf negative) :
    Refused client (.real x) (.misuse (.notWhole .infinite))
  | noProduct {x factor : Binary64} (hx : x.isFinite = true)
    (hscale : client.precision.scale = .ok factor) (hproduct : x.mul factor = .nan) :
    Refused client (.real x) (.misuse (.notWhole .nan))
  | outside {given : Given} {n : Int} (hnumber : given.number client = .ok n)
    (hout : client.field.prime / 2 < n.natAbs) :
    Refused client given (.misuse (.signedRange n))
  /-- The setting of the precision is no number at all. -/
  | unusable {x : Binary64} {setting : Value} (hx : x.isFinite = true)
    (hprecision : client.precision = .unusable setting) :
    Refused client (.real x) (.misuse .settingKind)

/-- Whether a fault is about a number and not about a setting: the number is not finite, or too
large for a double or for the field. -/
def IsAboutNumber : Fault → Prop
  | .misuse (.notFinite _) | .misuse .tooLarge | .misuse (.notWhole _) | .misuse (.signedRange _) =>
    True
  | _ => False

theorem Refused.isAboutNumber {given : Given} {fault : Fault} (h : Refused client given fault) :
    IsAboutNumber fault ∨ ∃ setting, client.precision = .unusable setting := by
  cases h with
  | unusable hx hprecision => exact .inr ⟨_, hprecision⟩
  | notFinite | noFactor | infiniteProduct | noProduct | outside => exact .inl trivial

/-! ## Every reason, and no other -/

theorem Given.residue_of_number {given : Given} {n : Int} (h : given.number client = .ok n) :
    given.residue client = Residue.ofSigned client.field n := by
  rw [residue, h]
  rfl

theorem Given.residue_of_fault {given : Given} {fault : Fault}
    (h : given.number client = .error fault) : given.residue client = .error fault := by
  rw [residue, h]
  rfl

theorem refused_of_encode {x : Binary64} {fault : Fault}
    (h : FixedPoint.encode client.precision x = .error fault) :
    Refused client (.real x) fault := by
  cases hx : x.isFinite with
  | false =>
    rw [FixedPoint.encode_of_not_isFinite hx] at h
    cases h
    exact .notFinite hx
  | true =>
    cases hscale : client.precision.scale with
    | error reason =>
      rw [FixedPoint.encode_of_scale_error hx hscale] at h
      cases h
      rcases FixedPoint.scale_eq_error hscale with rfl | ⟨setting, hprecision, rfl⟩
      · exact .noFactor hx hscale
      · exact .unusable hx hprecision
    | ok factor =>
      rw [FixedPoint.encode_of_scale hx hscale] at h
      cases hproduct : x.mul factor with
      | nan =>
        rw [hproduct, Binary64.nearest_nan] at h
        cases h
        exact .noProduct hx hscale hproduct
      | inf negative =>
        rw [hproduct, Binary64.nearest_inf] at h
        cases h
        exact .infiniteProduct hx hscale hproduct
      | finite negative u hu =>
        have hfinite : (Binary64.finite negative u hu).isFinite = true := rfl
        obtain ⟨n, hn⟩ := FixedPoint.exists_nearest hfinite
        rw [hproduct, hn] at h
        cases h

theorem encode_of_product {x factor : Binary64} {reason : Binary64.NotWhole}
    (hx : x.isFinite = true) (hscale : client.precision.scale = .ok factor)
    (hnearest : (x.mul factor).nearest = .error reason) :
    (Given.real x).number client = .error (.misuse (.notWhole reason)) := by
  rw [Given.number, FixedPoint.encode_of_scale hx hscale, hnearest]

/-- A number is refused exactly where taking it into the field fails. -/
theorem refused_iff {given : Given} {fault : Fault} :
    Refused client given fault ↔ given.residue client = .error fault := by
  constructor
  · intro h
    cases h with
    | notFinite hx => exact Given.residue_of_fault (FixedPoint.encode_of_not_isFinite hx)
    | noFactor hx hscale =>
      exact Given.residue_of_fault (FixedPoint.encode_of_scale_error hx hscale)
    | infiniteProduct hx hscale hproduct =>
      apply Given.residue_of_fault
      apply encode_of_product hx hscale
      rw [hproduct, Binary64.nearest_inf]
    | noProduct hx hscale hproduct =>
      apply Given.residue_of_fault
      apply encode_of_product hx hscale
      rw [hproduct, Binary64.nearest_nan]
    | outside hnumber hout => rw [Given.residue_of_number hnumber, Residue.ofSigned_of_lt hout]
    | unusable hx hprecision =>
      apply Given.residue_of_fault
      apply FixedPoint.encode_of_scale_error hx
      rw [hprecision]
      rfl
  · intro h
    cases hnumber : given.number client with
    | ok n =>
      rw [Given.residue_of_number hnumber] at h
      by_cases hle : n.natAbs ≤ client.field.prime / 2
      · rw [Residue.ofSigned_of_le hle] at h
        cases h
      · have hout := Nat.lt_of_not_le hle
        rw [Residue.ofSigned_of_lt hout] at h
        cases h
        exact .outside hnumber hout
    | error reason =>
      rw [Given.residue_of_fault hnumber] at h
      cases h
      cases given with
      | real x => exact refused_of_encode hnumber
      | whole n => cases hnumber

/-! ## Operations -/

/-- An operation takes all its numbers into the field first. -/
theorem Operation.exchange_eq_bind {op : Operation client} (hgiven : op.given ≠ []) :
    ∃ next : List (Residue client.field) → Exchange Unit,
      op.exchange = Exchange.ofResult (op.given.mapM (Given.residue client)) >>= next := by
  cases op with
  | reals values =>
    rw [given, List.mapM_map]
    exact ⟨_, rfl⟩
  | ints values =>
    rw [given, List.mapM_map]
    exact ⟨_, rfl⟩
  | publicNumbers treeType splitCount classCount => exact ⟨_, rfl⟩
  | inputs values => exact absurd rfl hgiven
  | result size => exact absurd rfl hgiven
  | opening => exact absurd rfl hgiven
  | index => exact absurd rfl hgiven

/-- A call with a number that is refused fails for the first such number and changes nothing,
whatever the engines have sent and whether they can be reached or not. -/
theorem refusal_changes_nothing {op : Operation client}
    (hrefused : ∃ given ∈ op.given, ∃ fault, Refused client given fault) (progress : Progress)
    (room : MailRoom) :
    ∃ front given rest fault, op.given = front ++ given :: rest ∧
      (∀ earlier ∈ front, ∀ reason, ¬ Refused client earlier reason) ∧
      Refused client given fault ∧
      (IsAboutNumber fault ∨ ∃ setting, client.precision = .unusable setting) ∧
      MailRoom.run op.exchange progress room = ((.failed fault, progress), room) := by
  have hsome : op.given ≠ [] := by
    obtain ⟨given, hgiven, -⟩ := hrefused
    exact List.ne_nil_of_mem hgiven
  obtain ⟨next, hexchange⟩ := Operation.exchange_eq_bind hsome
  simp only [refused_iff] at hrefused
  obtain ⟨fault, hfault⟩ := exists_mapM_eq_error hrefused
  obtain ⟨front, given, rest, hsplit, hfront, hgiven⟩ := exists_of_mapM_eq_error hfault
  have hfirst : Refused client given fault := refused_iff.mpr hgiven
  refine ⟨front, given, rest, fault, hsplit, ?_, hfirst, hfirst.isAboutNumber, ?_⟩
  · intro earlier hearlier reason hreason
    obtain ⟨residue, hresidue⟩ := hfront earlier hearlier
    rw [refused_iff, hresidue] at hreason
    cases hreason
  · rw [hexchange, MailRoom.run_bind, MailRoom.run_ofResult, hfault]
    rfl

/-- Half the modulus is 6, so 7 is the first of these numbers that does not fit. -/
theorem refusal_changes_nothing_two_engines :
    (∃ front given rest fault,
      (Operation.ints [-6, 7, 9] : Operation ⟨.thirteen, 2, .places 8⟩).given =
        front ++ given :: rest ∧
      (∀ earlier ∈ front, ∀ reason, ¬ Refused ⟨.thirteen, 2, .places 8⟩ earlier reason) ∧
      Refused ⟨.thirteen, 2, .places 8⟩ given fault ∧
      (IsAboutNumber fault ∨ ∃ setting, Precision.places 8 = .unusable setting) ∧
      MailRoom.run (sendInts ⟨.thirteen, 2, .places 8⟩ [-6, 7, 9]) ⟨3, []⟩
          ⟨Mailbox.holding .thirteen [[[1, 2, 3]], [[4, 4, 1]]], []⟩ =
        ((.failed fault, ⟨3, []⟩), ⟨Mailbox.holding .thirteen [[[1, 2, 3]], [[4, 4, 1]]], []⟩)) ∧
      MailRoom.run (sendInts ⟨.thirteen, 2, .places 8⟩ [-6, 7, 9]) ⟨3, []⟩
          ⟨Mailbox.holding .thirteen [[[1, 2, 3]], [[4, 4, 1]]], []⟩ =
        ((.failed (.misuse (.signedRange 7)), ⟨3, []⟩),
          ⟨Mailbox.holding .thirteen [[[1, 2, 3]], [[4, 4, 1]]], []⟩) := by
  have hrefused : Refused ⟨.thirteen, 2, .places 8⟩ (.whole 7) (.misuse (.signedRange 7)) :=
    .outside rfl (by decide)
  have hmem : Given.whole 7 ∈
      (Operation.ints [-6, 7, 9] : Operation ⟨.thirteen, 2, .places 8⟩).given := by
    simp [Operation.given]
  exact ⟨refusal_changes_nothing ⟨_, hmem, _, hrefused⟩ _ _, rfl⟩

end Client
end TreeParty
