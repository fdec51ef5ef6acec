import TreeParty.Proofs.Field.Signed
import TreeParty.Proofs.Sharing.Sums
/-!
# Expressions over elements

An expression over elements of one modulus is evaluated like the same expression over whole numbers,
with the result taken modulo the modulus; the degrees of the binary fields play no part. So two
expressions give the same element exactly if their whole numbers are congruent. Elements of
different moduli meet at some operation of the expression, which fails.
-/

set_option autoImplicit false

namespace TreeParty

variable {F G : FieldParams} {u v : ℤ}

namespace Residue

theorem into?_ofInt (h : G.prime = F.prime) (v : ℤ) :
    into? F (ofInt G v) = .ok (ofInt F v) := by
  unfold into?
  rw [dif_pos h]
  congr 1
  apply Fin.ext
  have hF := val_ofInt F v
  have hG := val_ofInt G v
  simp only [h] at hG
  rw [Fin.val_cast]
  omega

theorem eq_ofInt_of_unpack {buffer : Bytes} {offset : ℤ} {x : Residue F}
    (h : unpack F buffer offset = .ok x) :
    x = ofInt F (Bytes.toNat (Position.slice offset (offset + F.elementBytes) buffer)) := by
  unfold unpack at h
  dsimp only at h
  split_ifs at h with hshort hreduced
  cases h
  exact (ofInt_val _).symm

end Residue

namespace Element

/-- Combining elements of one modulus is combining the numbers that they are made from. -/
theorem combine_ofInt (op : {F : FieldParams} → Residue F → Residue F → Residue F)
    (onNumbers : ℤ → ℤ → ℤ) (h : G.prime = F.prime)
    (hop : op (.ofInt F u) (.ofInt F v) = .ofInt F (onNumbers u v)) :
    combine op (.ofInt F u) (.ofInt G v) = .ok (.ofInt F (onNumbers u v)) := by
  have hinto : (ofInt G v).residue.into? F = .ok (.ofInt F v) := Residue.into?_ofInt h v
  calc combine op (.ofInt F u) (.ofInt G v)
      = .ok ⟨F, op (.ofInt F u) (.ofInt F v)⟩ := by
        show ((ofInt G v).residue.into? F >>= _) = _
        rw [hinto]
        rfl
    _ = .ok (.ofInt F (onNumbers u v)) := by rw [hop]; rfl

theorem combine_of_ne (op : {F : FieldParams} → Residue F → Residue F → Residue F)
    {x y : Element} (h : y.field.prime ≠ x.field.prime) :
    combine op x y = .error (.misuse .mixedFields) := by
  have hinto : y.residue.into? x.field = .error (.misuse .mixedFields) := dif_neg h
  show (y.residue.into? x.field >>= _) = _
  rw [hinto]
  rfl

theorem same_ofInt_iff (h : G.prime = F.prime) (u v : ℤ) :
    (ofInt F u).same (ofInt G v) = true ↔ u ≡ v [ZMOD F.prime] := by
  have hu : ((ofInt F u).value : ℤ) = u % F.prime := Residue.val_ofInt F u
  have hv : ((ofInt G v).value : ℤ) = v % G.prime := Residue.val_ofInt G v
  have hfield : (ofInt F u).field.prime = (ofInt G v).field.prime := h.symm
  rw [same, Bool.and_eq_true, beq_iff_eq, beq_iff_eq, Int.ModEq]
  rw [h] at hv
  constructor
  · rintro ⟨-, hvalue⟩
    omega
  · intro hmod
    exact ⟨hfield, by omega⟩

/-- Equal elements have equal hashes, and elements with equal hashes under every hash of pairs are
equal. -/
theorem same_iff_hash_eq (x y : Element) :
    x.same y = true ↔ ∀ ofPair, x.hash ofPair = y.hash ofPair := by
  rw [same, Bool.and_eq_true, beq_iff_eq, beq_iff_eq]
  constructor
  · rintro ⟨hprime, hvalue⟩ ofPair
    rw [hash, hash, hprime, hvalue]
  · intro hhash
    have hprime := hhash fun pair => pair.1
    have hvalue := hhash fun pair => pair.2
    exact ⟨Int.ofNat_inj.mp hprime, Int.ofNat_inj.mp hvalue⟩

end Element

/-! ## Leaves -/

inductive ElementSource where
  | whole (F : FieldParams) (v : ℤ)
  | signed (F : FieldParams) (v : ℤ)
  | zero (F : FieldParams)
  | bytes (F : FieldParams) (buffer : Bytes) (offset : ℤ)

namespace ElementSource

def field : ElementSource → FieldParams
  | whole F _ => F
  | signed F _ => F
  | zero F => F
  | bytes F _ _ => F

def build : ElementSource → Except Fault Element
  | whole F v => .ok (.ofInt F v)
  | signed F v => Element.ofSigned F v
  | zero F => .ok (.zero F)
  | bytes F buffer offset => Element.unpack F buffer offset

def number : ElementSource → ℤ
  | whole _ v => v
  | signed _ v => v
  | zero _ => 0
  | bytes F buffer offset =>
    Bytes.toNat (Position.slice offset (offset + F.elementBytes) buffer)

/-- An element is the residue of the number that it is made from. -/
theorem eq_ofInt_of_build {source : ElementSource} {x : Element} (h : source.build = .ok x) :
    x = .ofInt source.field source.number := by
  cases source with
  | whole F v =>
    cases h
    rfl
  | zero F =>
    cases h
    exact congrArg (Element.mk F) Residue.ofInt_zero.symm
  | signed F v =>
    cases hsigned : Residue.ofSigned F v with
    | error fault =>
      simp only [build, Element.ofSigned, hsigned] at h
      cases h
    | ok r =>
      simp only [build, Element.ofSigned, hsigned] at h
      cases h
      exact congrArg (Element.mk F) (Residue.eq_ofInt_of_ofSigned hsigned).2
  | bytes F buffer offset =>
    cases hread : Residue.unpack F buffer offset with
    | error fault =>
      simp only [build, Element.unpack, hread] at h
      cases h
    | ok r =>
      simp only [build, Element.unpack, hread] at h
      cases h
      exact congrArg (Element.mk F) (Residue.eq_ofInt_of_unpack hread)

end ElementSource

/-- An element together with how it was made. -/
structure BuiltElement where
  source : ElementSource
  element : Element
  built : source.build = .ok element

/-! ## Expressions -/

inductive ElementOp where
  | add
  | sub
  | mul

namespace ElementOp

def onElements : ElementOp → Element → Element → Except Fault Element
  | add => Element.add
  | sub => Element.sub
  | mul => Element.mul

def onInts : ElementOp → ℤ → ℤ → ℤ
  | add => (· + ·)
  | sub => (· - ·)
  | mul => (· * ·)

theorem onElements_ofInt (operation : ElementOp) (h : G.prime = F.prime) (u v : ℤ) :
    operation.onElements (.ofInt F u) (.ofInt G v) = .ok (.ofInt F (operation.onInts u v)) := by
  cases operation with
  | add => exact Element.combine_ofInt (· + ·) (· + ·) h (Residue.ofInt_add u v).symm
  | sub => exact Element.combine_ofInt (· - ·) (· - ·) h (Residue.ofInt_sub u v).symm
  | mul => exact Element.combine_ofInt (· * ·) (· * ·) h (Residue.ofInt_mul u v).symm

theorem onElements_of_ne (operation : ElementOp) {x y : Element}
    (h : y.field.prime ≠ x.field.prime) :
    operation.onElements x y = .error (.misuse .mixedFields) := by
  cases operation with
  | add => exact Element.combine_of_ne (· + ·) h
  | sub => exact Element.combine_of_ne (· - ·) h
  | mul => exact Element.combine_of_ne (· * ·) h

end ElementOp

inductive ElementExpr where
  | leaf (x : BuiltElement)
  | neg (e : ElementExpr)
  | op (operation : ElementOp) (left right : ElementExpr)

namespace ElementExpr

def evaluate : ElementExpr → Except Fault Element
  | leaf x => .ok x.element
  | neg e => do return (← e.evaluate).neg
  | op operation left right => do operation.onElements (← left.evaluate) (← right.evaluate)

/-- The value of the same expression over whole numbers. -/
def integer : ElementExpr → ℤ
  | leaf x => x.source.number
  | neg e => -e.integer
  | op operation left right => operation.onInts left.integer right.integer

def leaves : ElementExpr → List ElementSource
  | leaf x => [x.source]
  | neg e => e.leaves
  | op _ left right => left.leaves ++ right.leaves

def field : ElementExpr → FieldParams
  | leaf x => x.source.field
  | neg e => e.field
  | op _ left _ => left.field

def HasModulus (e : ElementExpr) (p : ℕ) : Prop := ∀ s ∈ e.leaves, s.field.prime = p

variable {e left right : ElementExpr} {p : ℕ}

theorem hasModulus_op_iff {operation : ElementOp} :
    (op operation left right).HasModulus p ↔ left.HasModulus p ∧ right.HasModulus p :=
  List.forall_mem_append

theorem HasModulus.prime_field (h : e.HasModulus p) : e.field.prime = p := by
  induction e with
  | leaf x => exact h x.source List.mem_cons_self
  | neg e ih => exact ih h
  | op operation left right ihLeft _ => exact ihLeft (hasModulus_op_iff.mp h).1

/-- Leaves of one modulus are evaluated to the residue of the whole number. -/
theorem evaluate_of_hasModulus (h : e.HasModulus p) :
    e.evaluate = .ok (.ofInt e.field e.integer) := by
  induction e with
  | leaf x => exact congrArg Except.ok (ElementSource.eq_ofInt_of_build x.built)
  | neg e ih =>
    rw [evaluate, ih h, integer]
    have hneg : (Element.ofInt e.field e.integer).neg = .ofInt e.field (-e.integer) :=
      congrArg (Element.mk e.field) (Residue.ofInt_neg e.integer).symm
    exact congrArg Except.ok hneg
  | op operation left right ihLeft ihRight =>
    obtain ⟨hleft, hright⟩ := hasModulus_op_iff.mp h
    have hprime : right.field.prime = left.field.prime :=
      hright.prime_field.trans hleft.prime_field.symm
    rw [evaluate, ihLeft hleft, ihRight hright]
    exact operation.onElements_ofInt hprime left.integer right.integer

/-- Where the leaves have not all one modulus, elements of different moduli meet at an operation. -/
theorem evaluate_of_not_hasModulus (h : ¬ e.HasModulus e.field.prime) :
    e.evaluate = .error (.misuse .mixedFields) := by
  induction e with
  | leaf x => exact absurd (fun s hs => by rw [List.mem_singleton.mp hs]; rfl) h
  | neg e ih =>
    rw [evaluate, ih h]
    rfl
  | op operation left right ihLeft ihRight =>
    rw [evaluate]
    by_cases hleft : left.HasModulus left.field.prime
    · rw [evaluate_of_hasModulus hleft]
      by_cases hright : right.HasModulus right.field.prime
      · have hne : right.field.prime ≠ left.field.prime := fun heq =>
          h (hasModulus_op_iff.mpr ⟨hleft, heq ▸ hright⟩)
        rw [evaluate_of_hasModulus hright]
        exact operation.onElements_of_ne hne
      · rw [ihRight hright]
        rfl
    · rw [ihLeft hleft]
      rfl

/-- Expressions over elements of one modulus are evaluated as over whole numbers modulo it, and give
equal elements, with equal hashes, exactly for congruent whole numbers. With elements of two
moduli there is no value. -/
theorem evaluate_isModular :
    (∀ (e : ElementExpr) (p : ℕ), e.HasModulus p → ∃ x, e.evaluate = .ok x ∧
      x.field.prime = p ∧ (x.value : ℤ) = e.integer % p ∧ x.value < p) ∧
    (∀ (e e' : ElementExpr) (p : ℕ), e.HasModulus p → e'.HasModulus p →
      ∃ x x', e.evaluate = .ok x ∧ e'.evaluate = .ok x' ∧
        (x.same x' = true ↔ e.integer ≡ e'.integer [ZMOD p]) ∧
        (x.same x' = true ↔ ∀ ofPair, x.hash ofPair = x'.hash ofPair)) ∧
    ∀ e : ElementExpr, ∀ s ∈ e.leaves, ∀ t ∈ e.leaves, s.field.prime ≠ t.field.prime →
      e.evaluate = .error (.misuse .mixedFields) := by
  refine ⟨fun e p h => ?_, fun e e' p h h' => ?_, fun e s hs t ht hne => ?_⟩
  · obtain rfl := h.prime_field
    exact ⟨_, evaluate_of_hasModulus h, rfl, Residue.val_ofInt _ _, (Residue.ofInt _ _).isLt⟩
  · have hprime : e'.field.prime = e.field.prime := h'.prime_field.trans h.prime_field.symm
    obtain rfl := h.prime_field
    exact ⟨_, _, evaluate_of_hasModulus h, evaluate_of_hasModulus h',
      Element.same_ofInt_iff hprime _ _, Element.same_iff_hash_eq _ _⟩
  · apply evaluate_of_not_hasModulus
    intro h
    exact hne ((h s hs).trans (h t ht).symm)

/-- Elements modulo 13 from three sources and under two degrees, and one modulo 5. -/
theorem evaluate_isModular_thirteen :
    let eighteen : BuiltElement := ⟨.whole .thirteen 18, .ofInt .thirteen 5, rfl⟩
    let minusFour : BuiltElement :=
      ⟨.signed ⟨13, 7, Nat.le_add_left 3 10⟩ (-4), .ofInt ⟨13, 7, Nat.le_add_left 3 10⟩ 9, rfl⟩
    let three : BuiltElement :=
      ⟨.bytes .thirteen [0, 3, 0, 0, 0, 0, 0, 0, 0] 1, .ofInt .thirteen 3, rfl⟩
    let none : BuiltElement :=
      ⟨.zero ⟨5, 40, Nat.le_add_left 3 2⟩, .zero ⟨5, 40, Nat.le_add_left 3 2⟩, rfl⟩
    let e := op .mul (op .sub (leaf eighteen) (leaf minusFour)) (neg (leaf three))
    let e' := op .add (leaf minusFour) (leaf three)
    e.HasModulus 13 ∧ e'.HasModulus 13 ∧ e.integer = -66 ∧ e'.integer = -1 ∧
      (∃ x x', e.evaluate = .ok x ∧ e'.evaluate = .ok x' ∧ x.same x' = true) ∧
      (∃ x, e.evaluate = .ok x ∧ (x.value : ℤ) = -66 % 13) ∧
      (op .add e (leaf none)).evaluate = .error (.misuse .mixedFields) := by
  intro eighteen minusFour three none e e'
  obtain ⟨hvalue, hsame, hmixed⟩ := evaluate_isModular
  have he : e.HasModulus 13 := by simp [e, HasModulus, leaves]; decide
  have he' : e'.HasModulus 13 := by simp [e', HasModulus, leaves]; decide
  have hinteger : e.integer = -66 := by decide
  have hinteger' : e'.integer = -1 := by decide
  obtain ⟨x, hx, -, hnumber, -⟩ := hvalue e 13 he
  obtain ⟨y, y', hy, hy', hiff, -⟩ := hsame e e' 13 he he'
  refine ⟨he, he', hinteger, hinteger', ⟨y, y', hy, hy', hiff.mpr ?_⟩, ⟨x, hx, ?_⟩, ?_⟩
  · rw [hinteger, hinteger']
    decide
  · rw [hnumber, hinteger]
    rfl
  · exact hmixed _ eighteen.source (by simp [e, leaves]) none.source (by simp [leaves])
      (by decide)

end ElementExpr
end TreeParty
