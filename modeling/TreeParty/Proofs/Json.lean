import TreeParty.Json
import Mathlib.Data.List.TakeDrop
import Mathlib.Data.List.TakeWhile
/-!
# What is left of a document

Every reader of a part of a document leaves a suffix of the text that it was given, and finds a
number too long only if the text has too many digits in a row. `ReadsIn` says both of one result;
the readers of values, items and members keep it by induction on their fuel.
-/

set_option autoImplicit false

namespace TreeParty
namespace Json

variable {α β : Type}

/-- Whether a text has more digits in a row than a whole number may have. -/
def HasLongNumber (cs : List Char) : Prop :=
  ∃ digits, digits <:+: cs ∧ digitLimit < digits.length ∧ ∀ c ∈ digits, isDigit c = true

theorem HasLongNumber.mono {cs cs' : List Char} (h : HasLongNumber cs') (hsuffix : cs' <:+ cs) :
    HasLongNumber cs := by
  obtain ⟨digits, hinfix, hlong, hdigits⟩ := h
  exact ⟨digits, hinfix.trans hsuffix.isInfix, hlong, hdigits⟩

/-- Whether a reader leaves a suffix of a text, or refuses it rightly. -/
def ReadsIn (cs : List Char) : Except Defect (α × List Char) → Prop
  | .ok (_, rest) => rest <:+ cs
  | .error .malformed => True
  | .error .tooManyDigits => HasLongNumber cs

theorem ReadsIn.mono {cs cs' : List Char} {result : Except Defect (α × List Char)}
    (h : ReadsIn cs' result) (hsuffix : cs' <:+ cs) : ReadsIn cs result := by
  match result, h with
  | .ok (_, _), h => exact h.trans hsuffix
  | .error .malformed, _ => exact trivial
  | .error .tooManyDigits, h => exact HasLongNumber.mono h hsuffix

theorem ReadsIn.bind {cs : List Char} {result : Except Defect (α × List Char)}
    {next : α × List Char → Except Defect (β × List Char)} (h : ReadsIn cs result)
    (hnext : ∀ a rest, result = .ok (a, rest) → ReadsIn rest (next (a, rest))) :
    ReadsIn cs (result >>= next) := by
  match result, h with
  | .ok (a, rest), h => exact (hnext a rest rfl).mono h
  | .error .malformed, _ => exact trivial
  | .error .tooManyDigits, h => exact h

/-! ## Blanks, words and numbers -/

theorem skipBlanks_suffix (cs : List Char) : skipBlanks cs <:+ cs := List.dropWhile_suffix _

theorem word?_suffix {word : String} {cs rest : List Char} (h : word? word cs = some rest) :
    rest <:+ cs := by
  unfold word? at h
  split at h
  · cases h
    exact List.drop_suffix _ _
  · cases h

theorem span_eq {p : Char → Bool} {cs digits rest : List Char} (h : cs.span p = (digits, rest)) :
    digits ++ rest = cs ∧ ∀ c ∈ digits, p c = true := by
  rw [List.span_eq_takeWhile_dropWhile, Prod.mk.injEq] at h
  obtain ⟨rfl, rfl⟩ := h
  exact ⟨List.takeWhile_append_dropWhile, fun c hc => List.mem_takeWhile_imp hc⟩

theorem whole?_eq {cs digits rest : List Char} (h : whole? cs = some (digits, rest)) :
    digits ++ rest = cs ∧ ∀ c ∈ digits, isDigit c = true := by
  unfold whole? at h
  split at h
  · cases h
    refine ⟨rfl, fun c hc => ?_⟩
    rw [List.mem_singleton.mp hc]
    rfl
  · split at h
    · cases h
    · next hspan =>
      rw [Option.some.injEq] at h
      exact span_eq h

theorem fraction_suffix (cs : List Char) : (fraction cs).2 <:+ cs := by
  unfold fraction
  split
  · next rest =>
    split
    · exact List.suffix_rfl
    · exact List.IsSuffix.trans ⟨_, (span_eq (Prod.eta _).symm).1⟩ (List.suffix_cons '.' rest)
  · exact List.suffix_rfl

theorem exponentSign_suffix (cs : List Char) : (exponentSign cs).2 <:+ cs := by
  unfold exponentSign
  split
  · exact List.suffix_cons _ _
  · exact List.suffix_cons _ _
  · exact List.suffix_rfl

theorem exponent?_suffix (cs : List Char) : (exponent? cs).2 <:+ cs := by
  unfold exponent?
  split
  · next e rest =>
    split
    · simp only
      split
      · exact List.suffix_rfl
      · next digits after _ hspan =>
        have hafter : after <:+ (exponentSign rest).2 := ⟨digits, (span_eq hspan).1⟩
        exact (hafter.trans (exponentSign_suffix rest)).trans (List.suffix_cons e rest)
    · exact List.suffix_rfl
  · exact List.suffix_rfl

theorem readsIn_number (negative : Bool) (cs : List Char) : ReadsIn cs (number negative cs) := by
  unfold number
  cases hwhole : whole? cs with
  | none => exact trivial
  | some found =>
    obtain ⟨digits, afterWhole⟩ := found
    obtain ⟨hcs, hdigits⟩ := whole?_eq hwhole
    have hwholeRest : afterWhole <:+ cs := ⟨digits, hcs⟩
    have hrest : (exponent? (fraction afterWhole).2).2 <:+ cs :=
      (exponent?_suffix _).trans ((fraction_suffix _).trans hwholeRest)
    simp only
    split
    · split
      · exact hrest
      · next hlong => exact ⟨digits, ⟨[], afterWhole, hcs⟩, Nat.lt_of_not_le hlong, hdigits⟩
    · exact hrest

/-! ## Text -/

theorem unit?_suffix {cs rest : List Char} {n : Nat} (h : unit? cs = some (n, rest)) :
    rest <:+ cs := by
  unfold unit? at h
  split at h
  · next a b c d after =>
    simp only [Option.bind_eq_bind, Option.bind_eq_some_iff, Option.pure_def, Option.some.injEq,
      Prod.mk.injEq] at h
    obtain ⟨_, _, _, _, _, _, _, _, _, rfl⟩ := h
    exact List.suffix_append [a, b, c, d] after
  · cases h

theorem unicode?_suffix {cs rest : List Char} {c : Char} (h : unicode? cs = some (c, rest)) :
    rest <:+ cs := by
  unfold unicode? at h
  simp only [Option.bind_eq_bind, Option.bind_eq_some_iff, Prod.exists] at h
  obtain ⟨high, after, hhigh, h⟩ := h
  have hafter := unit?_suffix hhigh
  split at h
  · split at h
    · next next =>
      simp only [Option.bind_eq_some_iff, Prod.exists] at h
      obtain ⟨low, last, hlow, h⟩ := h
      have hlast : last <:+ '\\' :: 'u' :: next :=
        (unit?_suffix hlow).trans (List.suffix_append ['\\', 'u'] next)
      split at h
      · rw [Option.pure_def, Option.some.injEq, Prod.mk.injEq] at h
        exact h.2 ▸ hlast.trans hafter
      · cases h
        exact hafter
    · cases h
      exact hafter
  · split at h
    · cases h
      exact hafter
    · cases h
      exact hafter

theorem readsIn_textBody (fuel : Nat) (seen cs : List Char) :
    ReadsIn cs (textBody fuel seen cs) := by
  induction fuel generalizing seen cs with
  | zero => exact trivial
  | succ fuel ih =>
    unfold textBody
    split
    · exact trivial
    · exact List.suffix_cons _ _
    · next rest =>
      split
      · next c after hunicode =>
        have hafter := (unicode?_suffix hunicode).trans (List.suffix_append ['\\', 'u'] rest)
        exact (ih _ after).mono hafter
      · exact trivial
    · next c rest _ =>
      split
      · exact (ih _ rest).mono (List.suffix_append ['\\', c] rest)
      · exact trivial
    · next c rest _ _ _ =>
      split
      · exact trivial
      · exact (ih _ rest).mono (List.suffix_cons c rest)

/-! ## Values -/

structure ReadersKeep (fuel : Nat) : Prop where
  value : ∀ cs, ReadsIn cs (Json.value fuel cs)
  items : ∀ seen cs, ReadsIn cs (Json.items fuel seen cs)
  members : ∀ seen cs, ReadsIn cs (Json.members fuel seen cs)

variable {fuel : Nat}

theorem readsIn_text (cs : List Char) : ReadsIn cs (text cs) := readsIn_textBody _ [] cs

theorem readsIn_value_succ (h : ReadersKeep fuel) (cs : List Char) :
    ReadsIn cs (value (fuel + 1) cs) := by
  unfold value
  split
  · next rest =>
    refine ((readsIn_text rest).bind fun s after _ => ?_).mono (List.suffix_cons _ rest)
    exact List.suffix_rfl
  · next rest =>
    refine ReadsIn.mono ?_ ((skipBlanks_suffix rest).trans (List.suffix_cons _ rest))
    split
    · next after heq => rw [heq]; exact List.suffix_cons _ after
    · exact h.members _ _
  · next rest =>
    refine ReadsIn.mono ?_ ((skipBlanks_suffix rest).trans (List.suffix_cons _ rest))
    split
    · next after heq => rw [heq]; exact List.suffix_cons _ after
    · exact h.items _ _
  · next rest =>
    refine ReadsIn.mono ?_ (List.suffix_cons _ rest)
    split
    · next after hword => exact word?_suffix hword
    · exact readsIn_number true rest
  · split
    · next hword => exact word?_suffix hword
    · next hword _ => exact word?_suffix hword
    · next hword _ _ => exact word?_suffix hword
    · next hword _ _ _ => exact word?_suffix hword
    · next hword _ _ _ _ => exact word?_suffix hword
    · exact readsIn_number false cs

theorem readsIn_items_succ (h : ReadersKeep fuel) (seen : List Value) (cs : List Char) :
    ReadsIn cs (items (fuel + 1) seen cs) := by
  unfold items
  refine (h.value cs).bind fun item rest _ => ReadsIn.mono ?_ (skipBlanks_suffix rest)
  simp only
  split
  · next after heq => rw [heq]; exact List.suffix_cons _ after
  · next after heq =>
    rw [heq]
    exact (h.items _ _).mono ((skipBlanks_suffix after).trans (List.suffix_cons _ after))
  · exact trivial

theorem readsIn_members_succ (h : ReadersKeep fuel) (seen : Dict) (cs : List Char) :
    ReadsIn cs (members (fuel + 1) seen cs) := by
  unfold members
  split
  · next rest =>
    refine ((readsIn_text rest).bind fun key afterKey _ => ?_).mono (List.suffix_cons _ rest)
    refine ReadsIn.mono ?_ (skipBlanks_suffix afterKey)
    simp only
    split
    · next next heq =>
      rw [heq]
      refine ReadsIn.mono ?_ ((skipBlanks_suffix next).trans (List.suffix_cons _ next))
      refine (h.value _).bind fun item afterItem _ => ?_
      refine ReadsIn.mono ?_ (skipBlanks_suffix afterItem)
      simp only
      split
      · next after heq => rw [heq]; exact List.suffix_cons _ after
      · next after heq =>
        rw [heq]
        exact (h.members _ _).mono ((skipBlanks_suffix after).trans (List.suffix_cons _ after))
      · exact trivial
    · exact trivial
  · exact trivial

theorem readersKeep (fuel : Nat) : ReadersKeep fuel := by
  induction fuel with
  | zero =>
    refine ⟨fun _ => ?_, fun _ _ => ?_, fun _ _ => ?_⟩
    · unfold value; exact trivial
    · unfold items; exact trivial
    · unfold members; exact trivial
  | succ fuel ih =>
    exact ⟨readsIn_value_succ ih, readsIn_items_succ ih, readsIn_members_succ ih⟩

theorem hasLongNumber_of_read {document : String}
    (h : read document = .error .tooManyDigits) : HasLongNumber document.toList := by
  unfold read at h
  generalize hcs : skipBlanks document.toList = cs at h
  have hsuffix : cs <:+ document.toList := hcs ▸ skipBlanks_suffix _
  have hvalue := (readersKeep (cs.length + 1)).value cs
  match hresult : value (cs.length + 1) cs, hvalue with
  | .error .tooManyDigits, hlong => exact HasLongNumber.mono hlong hsuffix
  | .error .malformed, _ =>
    simp only [hresult] at h
    cases h
  | .ok (v, rest), _ =>
    simp only [hresult] at h
    change (if _ then _ else _) = _ at h
    split at h <;> cases h

end Json
end TreeParty
