import TreeParty.Proofs.Binary64.Magnitude
import TreeParty.Proofs.Binary64.Rank
import TreeParty.Settings.Value
/-!
# Dictionaries

Values that are equal as keys have one canonical key, so equality of keys is symmetric and
transitive. It is not reflexive: lists and dictionaries are no keys, and a NaN that stands in one
place only is a key that no other is equal to. From this follow the laws of dictionaries, in which
the last pair of a key counts.
-/

set_option autoImplicit false

namespace TreeParty

/-! ## Keys -/

/-- What a dictionary knows a value by. Numbers are known by their amount, tuples with and without
named fields by their items. -/
inductive Key where
  | null
  | nan (object : Nat)
  | generator (address : Nat)
  | amount (tier : Nat) (units : Int)
  | text (s : String)
  | items (keys : List Key)

namespace Value

def amountKey? : Int ⊕ Binary64 → Option Key
  | .inl n => some (.amount 1 (n * unitsPerOne))
  | .inr x => if x.isNaN then none else some (.amount x.tier x.units)

mutual

def key? : Value → Option Key
  | null => some .null
  | nan object => some (.nan object)
  | generator address => some (.generator address)
  | text s => some (.text s)
  | tuple xs => (keys? xs).map .items
  | record _ _ _ xs => (keys? xs).map .items
  | v => v.amount?.bind amountKey?

def keys? : List Value → Option (List Key)
  | [] => some []
  | x :: xs => (key? x).bind fun k => (keys? xs).map (k :: ·)

end

section Amounts

variable {x y : Binary64} {k : Key} {n : Int}

theorem amountKey?_whole (n : Int) :
    amountKey? (.inl n) = some (.amount 1 (n * unitsPerOne)) := rfl

theorem amountKey?_float :
    amountKey? (.inr x) = some k ↔ x.isNaN = false ∧ .amount x.tier x.units = k := by
  unfold amountKey?
  cases hx : x.isNaN <;> simp [hx]

theorem same_iff_units : x.same y = true ↔
    x.isNaN = false ∧ y.isNaN = false ∧ x.tier = y.tier ∧ x.units = y.units := by
  rw [Binary64.same_iff, Binary64.le_iff, Binary64.le_iff]
  constructor
  · rintro ⟨⟨hx, hy, hxy⟩, -, -, hyx⟩
    exact ⟨hx, hy, by omega, by omega⟩
  · rintro ⟨hx, hy, htier, hunits⟩
    exact ⟨⟨hx, hy, by omega⟩, hy, hx, by omega⟩

theorem equalsInt_iff : x.equalsInt n = true ↔
    x.isNaN = false ∧ x.tier = 1 ∧ x.units = n * unitsPerOne := by
  unfold Binary64.equalsInt
  rw [Bool.and_eq_true, beq_iff_eq]
  generalize n * (unitsPerOne : Int) = amount
  cases x with
  | nan => simp [Binary64.isFinite, Binary64.isNaN]
  | inf s => cases s <;> simp [Binary64.isFinite, Binary64.tier]
  | finite s u h => simp [Binary64.isFinite, Binary64.isNaN, Binary64.tier]

theorem equalsInt_iff_key : x.equalsInt n = true ↔
    amountKey? (.inr x) = some (.amount 1 (n * unitsPerOne)) := by
  rw [amountKey?_float, equalsInt_iff, Key.amount.injEq]

end Amounts

theorem sameAmount_iff (a b : Int ⊕ Binary64) :
    sameAmount a b = true ↔ ∃ k, amountKey? a = some k ∧ amountKey? b = some k := by
  cases a with
  | inl m =>
    simp only [amountKey?_whole, Option.some.injEq, exists_eq_left']
    cases b with
    | inl n =>
      have hsame : sameAmount (.inl m) (.inl n) = (m == n) := rfl
      have hone : (unitsPerOne : Int) ≠ 0 :=
        Int.natCast_ne_zero.mpr (Nat.pos_iff_ne_zero.mp Binary64.unitsPerOne_pos)
      rw [hsame, beq_iff_eq, amountKey?_whole, Option.some.injEq, Key.amount.injEq,
        Int.mul_eq_mul_right_iff hone]
      constructor
      · rintro rfl
        exact ⟨rfl, rfl⟩
      · rintro ⟨-, heq⟩
        exact heq.symm
    | inr y => exact equalsInt_iff_key
  | inr x =>
    cases b with
    | inl n =>
      simp only [amountKey?_whole, Option.some.injEq, exists_eq_right']
      exact equalsInt_iff_key
    | inr y =>
      have hsame : sameAmount (.inr x) (.inr y) = x.same y := rfl
      rw [hsame, same_iff_units]
      simp only [amountKey?_float]
      constructor
      · rintro ⟨hx, hy, htier, hunits⟩
        exact ⟨_, ⟨hx, rfl⟩, hy, by rw [htier, hunits]⟩
      · rintro ⟨k, ⟨hx, rfl⟩, hy, hkey⟩
        obtain ⟨htier, hunits⟩ := Key.amount.inj hkey
        exact ⟨hx, hy, htier.symm, hunits.symm⟩

theorem same_of_amount {v w : Value} {a : Int ⊕ Binary64} (hv : v.amount? = some a) :
    v.same w = match w.amount? with
      | some b => sameAmount a b
      | none => false := by
  cases v with
  | bool b =>
    cases hv
    cases w <;> rfl
  | int n =>
    cases hv
    cases w <;> rfl
  | float x =>
    cases hv
    cases w <;> rfl
  | _ => cases hv

theorem key?_of_amount {v : Value} {a : Int ⊕ Binary64} (hv : v.amount? = some a) :
    v.key? = amountKey? a := by
  cases v with
  | bool b =>
    cases hv
    rfl
  | int n =>
    cases hv
    rfl
  | float x =>
    cases hv
    rfl
  | _ => cases hv

/-! ## Equality of keys -/

theorem keys?_nil : keys? [] = some [] := rfl

theorem keys?_cons {x : Value} {xs : List Value} {ks : List Key} :
    keys? (x :: xs) = some ks ↔
      ∃ k rest, x.key? = some k ∧ keys? xs = some rest ∧ k :: rest = ks := by
  simp only [keys?, Option.bind_eq_some_iff, Option.map_eq_some_iff]
  constructor
  · rintro ⟨k, hk, rest, hrest, hks⟩
    exact ⟨k, rest, hk, hrest, hks⟩
  · rintro ⟨k, rest, hk, hrest, hks⟩
    exact ⟨k, hk, rest, hrest, hks⟩

theorem keys?_cons_ne_nil (x : Value) (xs : List Value) : keys? (x :: xs) ≠ some [] := by
  intro h
  obtain ⟨k, rest, -, -, hcons⟩ := keys?_cons.mp h
  cases hcons

theorem exists_items_iff {p q : Option (List Key)} :
    (∃ k, p.map Key.items = some k ∧ q.map Key.items = some k) ↔
      ∃ ks, p = some ks ∧ q = some ks := by
  cases p <;> cases q <;> simp

theorem amount_of_amountKey? {a : Int ⊕ Binary64} {k : Key} (h : amountKey? a = some k) :
    ∃ tier units, .amount tier units = k := by
  cases a with
  | inl n => exact ⟨1, n * unitsPerOne, Option.some.inj h⟩
  | inr x => exact ⟨x.tier, x.units, (amountKey?_float.mp h).2⟩

theorem key?_ne_amount {w : Value} (hw : w.amount? = none) (tier : Nat) (units : Int) :
    w.key? ≠ some (.amount tier units) := by
  cases w <;> simp [key?, amount?] at hw ⊢

theorem same_iff_of_amount {v : Value} {a : Int ⊕ Binary64} (hv : v.amount? = some a)
    (w : Value) : v.same w = true ↔ ∃ k, v.key? = some k ∧ w.key? = some k := by
  rw [same_of_amount hv, key?_of_amount hv]
  cases hw : w.amount? with
  | some b =>
    rw [key?_of_amount hw]
    exact sameAmount_iff a b
  | none =>
    constructor
    · nofun
    · rintro ⟨k, hk, hother⟩
      obtain ⟨tier, units, rfl⟩ := amount_of_amountKey? hk
      exact (key?_ne_amount hw tier units hother).elim

theorem same_amount_comm {v w : Value} {a : Int ⊕ Binary64} (hv : v.amount? = none)
    (hw : w.amount? = some a) : v.same w = w.same v := by
  rw [same_of_amount hw, hv]
  cases w with
  | bool b => cases v <;> first | rfl | cases hv
  | int n => cases v <;> first | rfl | cases hv
  | float x => cases v <;> first | rfl | cases hv
  | _ => cases hw

theorem same_iff_of_amount_right {v w : Value} {a : Int ⊕ Binary64} (hv : v.amount? = none)
    (hw : w.amount? = some a) : v.same w = true ↔ ∃ k, v.key? = some k ∧ w.key? = some k := by
  rw [same_amount_comm hv hw, same_iff_of_amount hw]
  simp only [And.comm]

/-- Whether a value is a tuple of some items, with or without named fields. -/
def HasItems (xs : List Value) : Value → Prop
  | tuple ys => ys = xs
  | record _ _ _ ys => ys = xs
  | _ => False

theorem HasItems.key?_eq {v : Value} {xs : List Value} (hv : v.HasItems xs) :
    v.key? = (keys? xs).map .items := by
  cases v <;> first | exact hv.elim | (cases hv; rfl)

theorem HasItems.amount?_eq {v : Value} {xs : List Value} (hv : v.HasItems xs) :
    v.amount? = none := by
  cases v <;> first | exact hv.elim | rfl

theorem HasItems.same_eq {v w : Value} {xs ys : List Value} (hv : v.HasItems xs)
    (hw : w.HasItems ys) : v.same w = sameItems xs ys := by
  cases v <;> first | exact hv.elim | cases hv
  all_goals cases w <;> first | exact hw.elim | (cases hw; rfl)

theorem same_iff_of_items {v : Value} {xs : List Value} (hv : v.HasItems xs)
    (hitems : ∀ ys, sameItems xs ys = true ↔ ∃ ks, keys? xs = some ks ∧ keys? ys = some ks)
    (w : Value) : v.same w = true ↔ ∃ k, v.key? = some k ∧ w.key? = some k := by
  have hboth {w : Value} {ys : List Value} (hw : w.HasItems ys) :
      v.same w = true ↔ ∃ k, v.key? = some k ∧ w.key? = some k := by
    rw [hv.same_eq hw, hv.key?_eq, hw.key?_eq, exists_items_iff]
    exact hitems ys
  cases hw : w.amount? with
  | some a => exact same_iff_of_amount_right hv.amount?_eq hw
  | none =>
    cases w with
    | tuple ys => exact hboth rfl
    | record _ _ _ ys => exact hboth rfl
    | _ => cases v <;> first | exact hv.elim | simp [same, key?, amount?] at hw ⊢

-- The induction is on the first value: tuples go down to their items, numbers, text and the rest
-- are settled by the form of the second value.
mutual

/-- Two values are equal as keys if they have one key. -/
theorem same_iff : ∀ v w : Value, v.same w = true ↔ ∃ k, v.key? = some k ∧ w.key? = some k
  | .bool b, w => same_iff_of_amount rfl w
  | .int n, w => same_iff_of_amount rfl w
  | .float x, w => same_iff_of_amount rfl w
  | .tuple xs, w => @same_iff_of_items (.tuple xs) xs rfl (sameItems_iff xs) w
  | .record name fields defaults xs, w =>
    @same_iff_of_items (.record name fields defaults xs) xs rfl (sameItems_iff xs) w
  | .list xs, w => by cases w <;> simp [same, key?, amount?]
  | .dict entries, w => by cases w <;> simp [same, key?, amount?]
  | .null, w => by
    cases hw : w.amount? with
    | some a => exact same_iff_of_amount_right rfl hw
    | none => cases w <;> simp [same, key?, amount?] at hw ⊢
  | .nan a, w => by
    cases hw : w.amount? with
    | some a => exact same_iff_of_amount_right rfl hw
    | none =>
      cases w with
      | nan b => simpa [same, key?] using eq_comm
      | _ => simp [same, key?, amount?] at hw ⊢
  | .generator a, w => by
    cases hw : w.amount? with
    | some a => exact same_iff_of_amount_right rfl hw
    | none =>
      cases w with
      | generator b => simpa [same, key?] using eq_comm
      | _ => simp [same, key?, amount?] at hw ⊢
  | .text s, w => by
    cases hw : w.amount? with
    | some a => exact same_iff_of_amount_right rfl hw
    | none =>
      cases w with
      | text t => simpa [same, key?] using eq_comm
      | _ => simp [same, key?, amount?] at hw ⊢

theorem sameItems_iff : ∀ xs ys : List Value,
    sameItems xs ys = true ↔ ∃ ks, keys? xs = some ks ∧ keys? ys = some ks
  | [], [] => by simp [sameItems, keys?]
  | [], y :: ys => by
    simpa [sameItems, keys?_nil] using keys?_cons_ne_nil y ys
  | x :: xs, [] => by
    simpa [sameItems, keys?_nil] using keys?_cons_ne_nil x xs
  | x :: xs, y :: ys => by
    rw [sameItems, Bool.and_eq_true, same_iff x y, sameItems_iff xs ys]
    simp only [keys?_cons]
    constructor
    · rintro ⟨⟨k, hx, hy⟩, ks, hxs, hys⟩
      exact ⟨k :: ks, ⟨k, ks, hx, hxs, rfl⟩, k, ks, hy, hys, rfl⟩
    · rintro ⟨_, ⟨k, ks, hx, hxs, rfl⟩, k', ks', hy, hys, heq⟩
      obtain ⟨rfl, rfl⟩ := List.cons.inj heq
      exact ⟨⟨_, hx, hy⟩, _, hxs, hys⟩

end

theorem same_comm (v w : Value) : v.same w = w.same v := by
  rw [Bool.eq_iff_iff, same_iff, same_iff]
  simp only [And.comm]

theorem same_trans {u v w : Value} (huv : u.same v = true) (hvw : v.same w = true) :
    u.same w = true := by
  obtain ⟨k, hu, hv⟩ := (same_iff u v).mp huv
  obtain ⟨l, hv', hw⟩ := (same_iff v w).mp hvw
  have hkeys : k = l := Option.some.inj (hv.symm.trans hv')
  exact (same_iff u w).mpr ⟨k, hu, hkeys ▸ hw⟩

/-- Equal keys are equal to the same keys. -/
theorem same_congr_left {v w : Value} (h : v.same w = true) (u : Value) :
    v.same u = w.same u := by
  rw [Bool.eq_iff_iff]
  have hback : w.same v = true := by rw [same_comm, h]
  exact ⟨same_trans hback, same_trans h⟩

theorem same_congr_right {v w : Value} (h : v.same w = true) (u : Value) :
    u.same v = u.same w := by
  rw [same_comm u v, same_comm u w, same_congr_left h]

end Value

/-! ## Dictionaries -/

namespace Dict

variable {key value k : Value} {d : Dict}

theorem get?_cons (entry : Value × Value) (d : Dict) (key : Value) :
    get? key (entry :: d) = if entry.1.same key then some entry.2 else get? key d := by
  unfold get?
  rw [List.find?_cons]
  cases entry.1.same key <;> rfl

/-- A change of one key is seen under the keys equal to it, and under no others. -/
theorem get?_put (key value k : Value) (d : Dict) :
    get? k (put key value d) = if key.same k then some value else get? k d := by
  induction d with
  | nil => rw [put, get?_cons]
  | cons entry rest ih =>
    obtain ⟨old, previous⟩ := entry
    unfold put
    cases hold : old.same key with
    | true =>
      rw [if_pos rfl, get?_cons, get?_cons, Value.same_congr_left hold]
      cases key.same k <;> rfl
    | false =>
      rw [if_neg Bool.false_ne_true, get?_cons, get?_cons, ih]
      cases hk : key.same k with
      | true =>
        rw [← Value.same_congr_right hk, hold]
        rfl
      | false => rfl

/-- The value that the last pair of a key has. -/
def lastValue (key : Value) (pairs : List (Value × Value)) : Option Value :=
  get? key pairs.reverse

theorem lastValue_cons (key : Value) (pair : Value × Value) (pairs : List (Value × Value)) :
    lastValue key (pair :: pairs) =
      (lastValue key pairs).or (if pair.1.same key then some pair.2 else none) := by
  unfold lastValue get?
  rw [List.reverse_cons, List.find?_append, Option.map_or, List.find?_singleton]
  cases pair.1.same key <;> rfl

/-- After many changes a key has the value of its last pair, or else the one it had before. -/
theorem get?_putAll (key : Value) (pairs : List (Value × Value)) (d : Dict) :
    get? key (putAll pairs d) = (lastValue key pairs).or (get? key d) := by
  induction pairs generalizing d with
  | nil => rfl
  | cons pair pairs ih =>
    have hstep : putAll (pair :: pairs) d = putAll pairs (put pair.1 pair.2 d) := rfl
    rw [hstep, ih, get?_put, lastValue_cons, Option.or_assoc]
    cases pair.1.same key <;> rfl

theorem putAll_append (first second : List (Value × Value)) (d : Dict) :
    putAll (first ++ second) d = putAll second (putAll first d) := List.foldl_append ..

/-! ## Different keys -/

def keys (d : Dict) : List Value := d.map (·.1)

def Distinct (d : Dict) : Prop := d.keys.Pairwise fun k l => k.same l = false

instance (d : Dict) : Decidable d.Distinct := inferInstanceAs (Decidable (d.keys.Pairwise _))

theorem keys_put (key value : Value) (d : Dict) :
    (put key value d).keys = d.keys ∨
      (∀ k ∈ d.keys, k.same key = false) ∧ (put key value d).keys = d.keys ++ [key] := by
  induction d with
  | nil => exact .inr ⟨nofun, rfl⟩
  | cons entry rest ih =>
    obtain ⟨old, previous⟩ := entry
    unfold put
    cases hold : old.same key with
    | true => exact .inl rfl
    | false =>
      have hkeys : keys ((old, previous) :: put key value rest) =
          old :: (put key value rest).keys := rfl
      have hrest : keys ((old, previous) :: rest) = old :: keys rest := rfl
      rw [if_neg Bool.false_ne_true, hkeys, hrest]
      rcases ih with hsame | ⟨hnew, hlast⟩
      · exact .inl (congrArg (old :: ·) hsame)
      · exact .inr ⟨List.forall_mem_cons.mpr ⟨hold, hnew⟩, congrArg (old :: ·) hlast⟩

theorem Distinct.put (h : d.Distinct) (key value : Value) : (d.put key value).Distinct := by
  unfold Distinct
  rcases keys_put key value d with hsame | ⟨hnew, hlast⟩
  · rw [hsame]
    exact h
  · rw [hlast, List.pairwise_append]
    refine ⟨h, List.pairwise_singleton _ _, ?_⟩
    intro k hk l hl
    rw [List.mem_singleton.mp hl]
    exact hnew k hk

theorem Distinct.putAll (h : d.Distinct) (pairs : List (Value × Value)) :
    (d.putAll pairs).Distinct := by
  induction pairs generalizing d with
  | nil => exact h
  | cons pair pairs ih => exact ih (h.put pair.1 pair.2)

theorem Distinct.get?_of_mem (h : d.Distinct) {entry : Value × Value} (hentry : entry ∈ d)
    (hkey : entry.1.same entry.1 = true) : d.get? entry.1 = some entry.2 := by
  induction d with
  | nil => cases hentry
  | cons first rest ih =>
    obtain ⟨hfirst, hrest⟩ := List.pairwise_cons.mp h
    rw [get?_cons]
    rcases List.mem_cons.mp hentry with rfl | hmem
    · rw [if_pos hkey]
    · have hdiffer : first.1.same entry.1 = false :=
        hfirst entry.1 (List.mem_map_of_mem hmem)
      rw [hdiffer, if_neg Bool.false_ne_true]
      exact ih hrest hmem

/-- Whether no key is equal to that of an entry, not even itself. -/
def isSingular (entry : Value × Value) : Bool := !entry.1.same entry.1

/-- A change of a singular key makes an entry of its own, others leave the singular entries. -/
theorem filter_isSingular_put (key value : Value) (d : Dict) :
    (put key value d).filter isSingular =
      d.filter isSingular ++ [(key, value)].filter isSingular := by
  induction d with
  | nil => rfl
  | cons entry rest ih =>
    obtain ⟨old, previous⟩ := entry
    unfold put
    cases hold : old.same key with
    | true =>
      have hself : old.same old = true := by rw [Value.same_congr_right hold, hold]
      have hkey : key.same key = true := by rw [← Value.same_congr_left hold, hold]
      simp [isSingular, hself, hkey]
    | false =>
      rw [if_neg Bool.false_ne_true, List.filter_cons, List.filter_cons, ih]
      split <;> rfl

theorem filter_isSingular_putAll (pairs : List (Value × Value)) (d : Dict) :
    (putAll pairs d).filter isSingular = d.filter isSingular ++ pairs.filter isSingular := by
  induction pairs generalizing d with
  | nil => exact (List.append_nil _).symm
  | cons pair pairs ih =>
    have hstep : putAll (pair :: pairs) d = putAll pairs (put pair.1 pair.2 d) := rfl
    rw [hstep, ih, filter_isSingular_put, List.append_assoc, ← List.filter_append]
    rfl

end Dict
end TreeParty
