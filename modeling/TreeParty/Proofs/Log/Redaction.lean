import TreeParty.Notice
/-!
# What a log line can tell

Two values are the `SameInPublic` if they have one structure and differ at most in what stands under
sensitive keys. Redaction makes such values equal, so that a log line does not tell them apart,
unless it shows a record that could be made anew from one argument: that record holds a generator,
and the text of a generator is its address. Redaction loses nothing else of a value without records
exactly if the machine can go through all containers in view.
-/

set_option autoImplicit false

namespace TreeParty
namespace Value

/-! ## The same in public -/

mutual

/-- Values of one structure that differ at most in what stands under sensitive keys. -/
inductive SameInPublic : Value → Value → Prop where
  | same (v : Value) : SameInPublic v v
  | list {xs ys : List Value} (h : SameItems xs ys) : SameInPublic (.list xs) (.list ys)
  | tuple {xs ys : List Value} (h : SameItems xs ys) : SameInPublic (.tuple xs) (.tuple ys)
  | record {name : String} {fields : List String} {defaults xs ys : List Value}
    (h : SameItems xs ys) :
    SameInPublic (.record name fields defaults xs) (.record name fields defaults ys)
  | dict {entries entries' : List (Value × Value)} (h : SameEntries entries entries') :
    SameInPublic (.dict entries) (.dict entries')

inductive SameItems : List Value → List Value → Prop where
  | nil : SameItems [] []
  | cons {x y : Value} {xs ys : List Value} (hfirst : SameInPublic x y) (hrest : SameItems xs ys) :
    SameItems (x :: xs) (y :: ys)

/-- Entries with the same keys; under a sensitive key may stand anything. -/
inductive SameEntries : List (Value × Value) → List (Value × Value) → Prop where
  | nil : SameEntries [] []
  | secret {key : Value} {rest rest' : List (Value × Value)} (hkey : key.isSensitive = true)
    (v w : Value) (hrest : SameEntries rest rest') :
    SameEntries ((key, v) :: rest) ((key, w) :: rest')
  | cons {key v w : Value} {rest rest' : List (Value × Value)} (hvalue : SameInPublic v w)
    (hrest : SameEntries rest rest') : SameEntries ((key, v) :: rest) ((key, w) :: rest')

end

theorem SameItems.length_eq {xs ys : List Value} : SameItems xs ys → xs.length = ys.length
  | .nil => rfl
  | .cons _ hrest => congrArg (· + 1) hrest.length_eq

theorem SameEntries.keys_eq {entries entries' : List (Value × Value)} :
    SameEntries entries entries' → entries.map (·.1) = entries'.map (·.1)
  | .nil => rfl
  | .secret _ _ _ hrest => congrArg (_ :: ·) hrest.keys_eq
  | .cons _ hrest => congrArg (_ :: ·) hrest.keys_eq

mutual

/-- On one machine redaction leaves no trace of what stands under sensitive keys. -/
theorem SameInPublic.redact_eq {v w : Value} :
    SameInPublic v w → ∀ m : Machine, v.redact m = w.redact m
  | .same _, _ => rfl
  | .list h, m => by rw [redact, redact, h.length_eq, h.redactItems_eq]
  | .tuple h, m => by rw [redact, redact, h.length_eq, h.redactItems_eq]
  | .record _, m => by rw [redact, redact]
  | .dict h, m => by rw [redact, redact, h.keys_eq, h.redactEntries_eq]

theorem SameItems.redactItems_eq {xs ys : List Value} : SameItems xs ys →
    ∀ (m : Machine) (container : Container) (position : Nat),
      redactItems m container position xs = redactItems m container position ys
  | .nil, _, _, _ => rfl
  | .cons hfirst hrest, _, _, _ => by
    rw [redactItems, redactItems, hfirst.redact_eq, hrest.redactItems_eq]

theorem SameEntries.redactEntries_eq {entries entries' : List (Value × Value)} :
    SameEntries entries entries' → ∀ (m : Machine) (container : Container) (position : Nat),
      redactEntries m container position entries = redactEntries m container position entries'
  | .nil, _, _, _ => rfl
  | .secret hkey _ _ hrest, _, _, _ => by
    rw [redactEntries, redactEntries, hrest.redactEntries_eq, if_pos hkey, if_pos hkey]
  | .cons hvalue hrest, _, _, _ => by
    rw [redactEntries, redactEntries, hrest.redactEntries_eq, hvalue.redact_eq]

end

mutual

/-- Whether something holds of a value and of all values in it, each at its place, as far as
redaction comes: not of what stands under sensitive keys, and not of what a record holds. -/
def everyInView (p : Place → Value → Bool) : Value → Bool
  | list xs => p [] (list xs) && everyItemInView p (.sequence xs.length) 0 xs
  | tuple xs => p [] (tuple xs) && everyItemInView p (.sequence xs.length) 0 xs
  | dict entries =>
    p [] (dict entries) && everyEntryInView p (.dict (entries.map (·.1))) 0 entries
  | v => p [] v

def everyItemInView (p : Place → Value → Bool) (container : Container) (position : Nat) :
    List Value → Bool
  | [] => true
  | x :: xs =>
    everyInView (fun place => p ((container, position) :: place)) x &&
      everyItemInView p container (position + 1) xs

def everyEntryInView (p : Place → Value → Bool) (container : Container) (position : Nat) :
    List (Value × Value) → Bool
  | [] => true
  | (k, v) :: rest =>
    (k.isSensitive || everyInView (fun place => p ((container, position) :: place)) v) &&
      everyEntryInView p container (position + 1) rest

end

def isUnnamed : Value → Bool
  | record _ _ _ _ => false
  | _ => true

/-- Whether a value is no record that could be made anew from one argument. -/
def isSealed : Value → Bool
  | record _ fields defaults _ => !takesOne fields defaults
  | _ => true

def hasOpenKeys : Value → Bool
  | dict entries => entries.all fun entry => !entry.1.isSensitive
  | _ => true

def container? : Value → Option Container
  | list xs => some (.sequence xs.length)
  | tuple xs => some (.sequence xs.length)
  | record _ _ _ _ => some .record
  | dict entries => some (.dict (entries.map (·.1)))
  | _ => none

/-- Whether the machine goes through a value at a place, if it is a container. -/
def isEntered (m : Machine) (place : Place) (v : Value) : Bool := v.container?.all (m.enters place)

theorem inside_enters {m m' : Machine} (h : m.enters = m'.enters) (container : Container)
    (position : Nat) :
    (m.inside container position).enters = (m'.inside container position).enters := by
  unfold Machine.inside
  rw [h]

mutual

/-- The place of objects in memory shows only in a record that is made anew. -/
theorem redact_congr : ∀ (v : Value) {m m' : Machine}, m.enters = m'.enters →
    v.everyInView (fun _ => isSealed) = true → v.redact m = v.redact m'
  | null, _, _, _, _ => rfl
  | bool _, _, _, _, _ => rfl
  | int _, _, _, _, _ => rfl
  | float _, _, _, _, _ => rfl
  | nan _, _, _, _, _ => rfl
  | generator _, _, _, _, _ => rfl
  | text _, _, _, _, _ => rfl
  | list xs, _, _, h, hv => by rw [redact, redact, h, redactItems_congr xs h _ _ hv]
  | tuple xs, _, _, h, hv => by rw [redact, redact, h, redactItems_congr xs h _ _ hv]
  | record _ _ _ _, _, _, _, hv => by
    simp only [everyInView, isSealed, Bool.not_eq_true'] at hv
    simp [redact, hv]
  | dict entries, _, _, h, hv => by rw [redact, redact, h, redactEntries_congr entries h _ _ hv]

theorem redactItems_congr : ∀ (xs : List Value) {m m' : Machine}, m.enters = m'.enters →
    ∀ (container : Container) (position : Nat),
      everyItemInView (fun _ => isSealed) container position xs = true →
        redactItems m container position xs = redactItems m' container position xs
  | [], _, _, _, _, _, _ => rfl
  | x :: xs, _, _, h, _, _, hxs => by
    rw [everyItemInView, Bool.and_eq_true] at hxs
    rw [redactItems, redactItems, redact_congr x (inside_enters h _ _) hxs.1,
      redactItems_congr xs h _ _ hxs.2]

theorem redactEntries_congr : ∀ (entries : List (Value × Value)) {m m' : Machine},
    m.enters = m'.enters → ∀ (container : Container) (position : Nat),
      everyEntryInView (fun _ => isSealed) container position entries = true →
        redactEntries m container position entries = redactEntries m' container position entries
  | [], _, _, _, _, _, _ => rfl
  | (key, v) :: rest, _, _, h, _, _, hentries => by
    rw [everyEntryInView, Bool.and_eq_true, Bool.or_eq_true] at hentries
    rw [redactEntries, redactEntries, redactEntries_congr rest h _ _ hentries.2]
    by_cases hkey : key.isSensitive = true
    · rw [if_pos hkey, if_pos hkey]
    · rw [redact_congr v (inside_enters h _ _) (hentries.1.resolve_left hkey)]

end

/-! ## Redacting twice -/

/-- Whether a machine goes through everything that another one goes through. -/
def Covers (m' m : Machine) : Prop :=
  ∀ place container, m.enters place container = true → m'.enters place container = true

theorem Covers.inside {m' m : Machine} (h : Covers m' m) (container : Container) (position : Nat) :
    Covers (m'.inside container position) (m.inside container position) :=
  fun place => h ((container, position) :: place)

theorem length_redactItems (m : Machine) (container : Container) (position : Nat)
    (xs : List Value) : (redactItems m container position xs).length = xs.length := by
  induction xs generalizing position with
  | nil => rfl
  | cons x xs ih => rw [redactItems, List.length_cons, List.length_cons, ih]

theorem keys_redactEntries (m : Machine) (container : Container) (position : Nat)
    (entries : List (Value × Value)) :
    (redactEntries m container position entries).map (·.1) = entries.map (·.1) := by
  induction entries generalizing position with
  | nil => rfl
  | cons entry rest ih => rw [redactEntries, List.map_cons, List.map_cons, ih]

mutual

/-- What was redacted is left as it is by any machine that goes at least as far. -/
theorem redact_redact : ∀ (v : Value) {m m' : Machine}, Covers m' m →
    v.everyInView (fun _ => isSealed) = true → (v.redact m).redact m' = v.redact m
  | null, _, _, _, _ => rfl
  | bool _, _, _, _, _ => rfl
  | int _, _, _, _, _ => rfl
  | float _, _, _, _, _ => rfl
  | nan _, _, _, _, _ => rfl
  | generator _, _, _, _, _ => rfl
  | text _, _, _, _, _ => rfl
  | list xs, m, m', hmore, hv => by
    rw [everyInView, Bool.and_eq_true] at hv
    rw [redact]
    split
    · next henters =>
      rw [redact, length_redactItems, if_pos (hmore _ _ henters),
        redactItems_redactItems xs hmore _ _ hv.2]
    · rfl
  | tuple xs, m, m', hmore, hv => by
    rw [everyInView, Bool.and_eq_true] at hv
    rw [redact]
    split
    · next henters =>
      rw [redact, length_redactItems, if_pos (hmore _ _ henters),
        redactItems_redactItems xs hmore _ _ hv.2]
    · rfl
  | record _ _ _ _, _, _, _, hv => by
    simp only [everyInView, isSealed, Bool.not_eq_true'] at hv
    simp [redact, hv]
  | dict entries, m, m', hmore, hv => by
    rw [everyInView, Bool.and_eq_true] at hv
    rw [redact]
    split
    · next henters =>
      rw [redact, keys_redactEntries, if_pos (hmore _ _ henters),
        redactEntries_redactEntries entries hmore _ _ hv.2]
    · rfl

theorem redactItems_redactItems : ∀ (xs : List Value) {m m' : Machine}, Covers m' m →
    ∀ (container : Container) (position : Nat),
      everyItemInView (fun _ => isSealed) container position xs = true →
        redactItems m' container position (redactItems m container position xs) =
          redactItems m container position xs
  | [], _, _, _, _, _, _ => rfl
  | x :: xs, _, _, hmore, _, _, hxs => by
    rw [everyItemInView, Bool.and_eq_true] at hxs
    rw [redactItems, redactItems, redact_redact x (hmore.inside _ _) hxs.1,
      redactItems_redactItems xs hmore _ _ hxs.2]

theorem redactEntries_redactEntries : ∀ (entries : List (Value × Value)) {m m' : Machine},
    Covers m' m → ∀ (container : Container) (position : Nat),
      everyEntryInView (fun _ => isSealed) container position entries = true →
        redactEntries m' container position (redactEntries m container position entries) =
          redactEntries m container position entries
  | [], _, _, _, _, _, _ => rfl
  | (key, v) :: rest, _, _, hmore, _, _, hentries => by
    rw [everyEntryInView, Bool.and_eq_true, Bool.or_eq_true] at hentries
    rw [redactEntries, redactEntries, redactEntries_redactEntries rest hmore _ _ hentries.2]
    by_cases hkey : key.isSensitive = true
    · rw [if_pos hkey, if_pos hkey]
    · rw [if_neg hkey, if_neg hkey,
        redact_redact v (hmore.inside _ _) (hentries.1.resolve_left hkey)]

end

/-! ## What is kept -/

mutual

/-- Redaction changes only what stands under sensitive keys, if it goes through everything else. -/
theorem sameInPublic_redact : ∀ (v : Value) {m : Machine},
    v.everyInView (fun _ => isUnnamed) = true → v.everyInView (isEntered m) = true →
      SameInPublic v (v.redact m)
  | null, _, _, _ => .same _
  | bool _, _, _, _ => .same _
  | int _, _, _, _ => .same _
  | float _, _, _, _ => .same _
  | nan _, _, _, _ => .same _
  | generator _, _, _, _ => .same _
  | text _, _, _, _ => .same _
  | list xs, m, h, hentered => by
    rw [everyInView, Bool.and_eq_true] at h hentered
    have henters : m.enters [] (.sequence xs.length) = true := hentered.1
    rw [redact, if_pos henters]
    exact .list (sameItems_redactItems xs _ _ h.2 hentered.2)
  | tuple xs, m, h, hentered => by
    rw [everyInView, Bool.and_eq_true] at h hentered
    have henters : m.enters [] (.sequence xs.length) = true := hentered.1
    rw [redact, if_pos henters]
    exact .tuple (sameItems_redactItems xs _ _ h.2 hentered.2)
  | record _ _ _ _, _, h, _ => nomatch h
  | dict entries, m, h, hentered => by
    rw [everyInView, Bool.and_eq_true] at h hentered
    have henters : m.enters [] (.dict (entries.map (·.1))) = true := hentered.1
    rw [redact, if_pos henters]
    exact .dict (sameEntries_redactEntries entries _ _ h.2 hentered.2)

theorem sameItems_redactItems : ∀ (xs : List Value) {m : Machine} (container : Container)
    (position : Nat), everyItemInView (fun _ => isUnnamed) container position xs = true →
      everyItemInView (isEntered m) container position xs = true →
        SameItems xs (redactItems m container position xs)
  | [], _, _, _, _, _ => .nil
  | x :: xs, _, _, _, h, hentered => by
    rw [everyItemInView, Bool.and_eq_true] at h hentered
    exact .cons (sameInPublic_redact x h.1 hentered.1) (sameItems_redactItems xs _ _ h.2 hentered.2)

theorem sameEntries_redactEntries : ∀ (entries : List (Value × Value)) {m : Machine}
    (container : Container) (position : Nat),
      everyEntryInView (fun _ => isUnnamed) container position entries = true →
        everyEntryInView (isEntered m) container position entries = true →
          SameEntries entries (redactEntries m container position entries)
  | [], _, _, _, _, _ => .nil
  | (key, v) :: rest, _, _, _, h, hentered => by
    rw [everyEntryInView, Bool.and_eq_true, Bool.or_eq_true] at h hentered
    have hrest := sameEntries_redactEntries rest _ _ h.2 hentered.2
    rw [redactEntries]
    by_cases hkey : key.isSensitive = true
    · rw [if_pos hkey]
      exact .secret hkey v _ hrest
    · rw [if_neg hkey]
      exact .cons (sameInPublic_redact v (h.1.resolve_left hkey)
        (hentered.1.resolve_left hkey)) hrest

end

mutual

theorem SameInPublic.eq {v w : Value} : SameInPublic v w →
    v.everyInView (fun _ => isUnnamed) = true → v.everyInView (fun _ => hasOpenKeys) = true → v = w
  | .same _, _, _ => rfl
  | .list h, hunnamed, hopen => by
    rw [everyInView, Bool.and_eq_true] at hunnamed hopen
    exact congrArg Value.list (h.eq hunnamed.2 hopen.2)
  | .tuple h, hunnamed, hopen => by
    rw [everyInView, Bool.and_eq_true] at hunnamed hopen
    exact congrArg Value.tuple (h.eq hunnamed.2 hopen.2)
  | .record _, hunnamed, _ => nomatch hunnamed
  | .dict h, hunnamed, hopen => by
    rw [everyInView, Bool.and_eq_true] at hunnamed hopen
    exact congrArg Value.dict (h.eq hopen.1 hunnamed.2 hopen.2)

theorem SameItems.eq {xs ys : List Value} {container : Container} {position : Nat} :
    SameItems xs ys → everyItemInView (fun _ => isUnnamed) container position xs = true →
      everyItemInView (fun _ => hasOpenKeys) container position xs = true → xs = ys
  | .nil, _, _ => rfl
  | .cons hfirst hrest, hunnamed, hopen => by
    rw [everyItemInView, Bool.and_eq_true] at hunnamed hopen
    rw [hfirst.eq hunnamed.1 hopen.1, hrest.eq hunnamed.2 hopen.2]

theorem SameEntries.eq {entries entries' : List (Value × Value)} {container : Container}
    {position : Nat} : SameEntries entries entries' → (dict entries).hasOpenKeys = true →
      everyEntryInView (fun _ => isUnnamed) container position entries = true →
        everyEntryInView (fun _ => hasOpenKeys) container position entries = true →
          entries = entries'
  | .nil, _, _, _ => rfl
  | .secret hkey _ _ _, hkeys, _, _ => by
    simp [hasOpenKeys, hkey] at hkeys
  | .cons hvalue hrest, hkeys, hunnamed, hopen => by
    rw [hasOpenKeys, List.all_cons, Bool.and_eq_true, Bool.not_eq_true'] at hkeys
    rw [everyEntryInView, hkeys.1, Bool.false_or, Bool.and_eq_true] at hunnamed hopen
    rw [hvalue.eq hunnamed.1 hopen.1, hrest.eq hkeys.2 hunnamed.2 hopen.2]

end

mutual

theorem isEntered_of_redact_eq : ∀ (v : Value) {m : Machine}, v.redact m = v →
    v.everyInView (isEntered m) = true
  | null, _, _ => rfl
  | bool _, _, _ => rfl
  | int _, _, _ => rfl
  | float _, _, _ => rfl
  | nan _, _, _ => rfl
  | generator _, _, _ => rfl
  | text _, _, _ => rfl
  | list xs, m, h => by
    rw [redact] at h
    split at h
    · next henters =>
      rw [everyInView, Bool.and_eq_true]
      exact ⟨henters, areEntered_of_redactItems_eq xs _ _ (list.inj h)⟩
    · cases h
  | tuple xs, m, h => by
    rw [redact] at h
    split at h
    · next henters =>
      rw [everyInView, Bool.and_eq_true]
      exact ⟨henters, areEntered_of_redactItems_eq xs _ _ (tuple.inj h)⟩
    · cases h
  | record _ _ _ _, m, h => by
    rw [redact] at h
    split at h
    · next henters => exact (Bool.and_eq_true_iff.mp henters).1
    · cases h
  | dict entries, m, h => by
    rw [redact] at h
    split at h
    · next henters =>
      rw [everyInView, Bool.and_eq_true]
      exact ⟨henters, areEntered_of_redactEntries_eq entries _ _ (dict.inj h)⟩
    · cases h

theorem areEntered_of_redactItems_eq : ∀ (xs : List Value) {m : Machine} (container : Container)
    (position : Nat), redactItems m container position xs = xs →
      everyItemInView (isEntered m) container position xs = true
  | [], _, _, _, _ => rfl
  | x :: xs, _, _, _, h => by
    rw [redactItems, List.cons.injEq] at h
    rw [everyItemInView, Bool.and_eq_true]
    exact ⟨isEntered_of_redact_eq x h.1, areEntered_of_redactItems_eq xs _ _ h.2⟩

theorem areEntered_of_redactEntries_eq : ∀ (entries : List (Value × Value)) {m : Machine}
    (container : Container) (position : Nat), redactEntries m container position entries = entries →
      everyEntryInView (isEntered m) container position entries = true
  | [], _, _, _, _ => rfl
  | (key, v) :: rest, _, _, _, h => by
    rw [redactEntries, List.cons.injEq, Prod.mk.injEq] at h
    rw [everyEntryInView, Bool.and_eq_true, Bool.or_eq_true]
    refine ⟨?_, areEntered_of_redactEntries_eq rest _ _ h.2⟩
    by_cases hkey : key.isSensitive = true
    · exact .inl hkey
    · rw [if_neg hkey] at h
      exact .inr (isEntered_of_redact_eq v h.1.2)

end

end Value

/-! ## Log lines -/

namespace Log

open Value

variable {m m' : Machine} {fields fields' : List (String × Value)}

/-- No notice has nested fields, so its line does not depend on the machine. -/
theorem line_eq (notice : Notice) (m m' : Machine) : notice.line m = notice.line m' := by
  cases notice <;> rfl

end Log
end TreeParty
