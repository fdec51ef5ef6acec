/-!
# Doubles as exact numbers

A finite double is a sign and a whole number of units of `2 ^ -1074`, the smallest positive double.
Which whole numbers occur is `Representable`: 53 significant bits and a bound. Order is order of
integers, and every operation is exact integer arithmetic followed by one `round`.
-/

namespace TreeParty

def unitsPerOne : Nat := Nat.pow 2 1074

/-- Finite doubles stay below this many units, `2 ^ 1024`. -/
def unitsLimit : Nat := Nat.pow 2 2098

/-- The distance between neighbouring doubles at a given number of units. -/
def spacing (units : Nat) : Nat := Nat.pow 2 (units.log2 - 52)

/-- The numbers of units that a finite double can hold. -/
def Representable (units : Nat) : Prop := units < unitsLimit ∧ spacing units ∣ units

instance (units : Nat) : Decidable (Representable units) :=
  inferInstanceAs (Decidable (_ ∧ _))

/-- A double. The payload and sign of a NaN are not kept. -/
inductive Binary64 where
  | nan
  | inf (negative : Bool)
  | finite (negative : Bool) (units : Nat) (representable : Representable units)
  deriving DecidableEq

/-! ## Rounding -/

/-- The whole number nearest to `num / den`, a tie going to the even neighbour. -/
def roundHalfEven (num den : Nat) : Nat :=
  let low := num / den
  let rest := num % den
  if 2 * rest < den then low
  else if den < 2 * rest then low + 1
  else low + low % 2

/-- The number of units on the grid of doubles nearest to `num / den` units, ties to even. -/
def roundUnits (num den : Nat) : Nat :=
  let step := spacing (num / den)
  roundHalfEven num (den * step) * step

private theorem log2_mul_two_pow {m : Nat} (hm : m ≠ 0) (s : Nat) :
    (m * Nat.pow 2 s).log2 = m.log2 + s := by
  simp only [Nat.pow_eq]
  induction s with
  | zero => simp
  | succ s ih =>
    have hpos : m * 2 ^ s ≠ 0 := Nat.mul_ne_zero hm (Nat.pos_iff_ne_zero.mp (Nat.two_pow_pos s))
    have hmul : m * 2 ^ (s + 1) = 2 * (m * 2 ^ s) := by
      rw [Nat.pow_succ]
      simp [Nat.mul_comm, Nat.mul_left_comm]
    rw [hmul, Nat.log2_two_mul hpos, ih]
    omega

/-- A significand of at most 53 bits, or the power of two just above, shifted left. -/
theorem spacing_dvd_mul_two_pow {m : Nat} (hm : m ≤ Nat.pow 2 53) (s : Nat) :
    spacing (m * Nat.pow 2 s) ∣ m * Nat.pow 2 s := by
  rcases Nat.eq_zero_or_pos m with rfl | hpos
  · simp
  have hne : m ≠ 0 := Nat.pos_iff_ne_zero.mp hpos
  unfold spacing
  rw [log2_mul_two_pow hne]
  simp only [Nat.pow_eq] at hm ⊢
  rcases Nat.lt_or_eq_of_le hm with hlt | rfl
  · have hlog : m.log2 < 53 := (Nat.log2_lt hne).mpr hlt
    have hle : m.log2 + s - 52 ≤ s := by omega
    exact Nat.dvd_mul_left_of_dvd (Nat.pow_dvd_pow 2 hle) m
  · rw [Nat.log2_two_pow, ← Nat.pow_add]
    exact Nat.pow_dvd_pow 2 (by omega)

theorem unitsLimit_pos : 0 < unitsLimit := by
  unfold unitsLimit
  generalize 2098 = n
  exact Nat.two_pow_pos n

theorem representable_zero : Representable 0 := ⟨unitsLimit_pos, Nat.dvd_zero _⟩

theorem representable_mul_two_pow {m s : Nat} (hm : m < Nat.pow 2 53) (hs : 53 + s ≤ 2098) :
    Representable (m * Nat.pow 2 s) := by
  refine ⟨?_, spacing_dvd_mul_two_pow (Nat.le_of_lt hm) s⟩
  unfold unitsLimit
  simp only [Nat.pow_eq] at hm ⊢
  generalize 2098 = limit at hs
  refine Nat.lt_of_lt_of_le ?_ (Nat.pow_le_pow_right Nat.zero_lt_two hs)
  rw [Nat.pow_add]
  exact Nat.mul_lt_mul_of_pos_right hm (Nat.two_pow_pos s)

private theorem roundHalfEven_le_succ (num den : Nat) :
    roundHalfEven num den ≤ num / den + 1 := by
  unfold roundHalfEven
  simp only
  split
  · omega
  · split
    · omega
    · omega

theorem spacing_dvd_roundUnits (num den : Nat) :
    spacing (roundUnits num den) ∣ roundUnits num den := by
  unfold roundUnits
  simp only
  refine spacing_dvd_mul_two_pow ?_ _
  simp only [Nat.pow_eq]
  refine Nat.le_trans (roundHalfEven_le_succ _ _) ?_
  rw [← Nat.div_div_eq_div_mul]
  generalize num / den = q
  rcases Nat.eq_zero_or_pos q with rfl | hpos
  · simp
  have hlt : q < 2 ^ (q.log2 + 1) := Nat.lt_log2_self
  have hle : 2 ^ (q.log2 + 1) ≤ 2 ^ 53 * spacing q := by
    simp only [spacing, Nat.pow_eq]
    rw [← Nat.pow_add]
    exact Nat.pow_le_pow_right (by decide) (by omega)
  have hdiv : q / spacing q < 2 ^ 53 :=
    Nat.div_lt_of_lt_mul (by rw [Nat.mul_comm]; exact Nat.lt_of_lt_of_le hlt hle)
  omega

namespace Binary64

/-- The double nearest to a sign and `num / den` units, ties to even; infinite when too large. -/
def round (negative : Bool) (num den : Nat) : Binary64 :=
  if h : roundUnits num den < unitsLimit then
    finite negative (roundUnits num den) ⟨h, spacing_dvd_roundUnits num den⟩
  else inf negative

def zero : Binary64 := finite false 0 representable_zero

instance : Inhabited Binary64 := ⟨zero⟩

/-! ## Sign and order -/

/-- Whether the sign is minus; a NaN has none. -/
def isNegative : Binary64 → Bool
  | nan => false
  | inf negative => negative
  | finite negative _ _ => negative

def isFinite : Binary64 → Bool
  | finite .. => true
  | _ => false

def isNaN : Binary64 → Bool
  | nan => true
  | _ => false

/-- A finite double as a whole number of units; zero for the others. -/
def units : Binary64 → Int
  | finite negative u _ => if negative then -(u : Int) else u
  | _ => 0

def neg : Binary64 → Binary64
  | nan => nan
  | inf negative => inf !negative
  | finite negative u h => finite (!negative) u h

def abs : Binary64 → Binary64
  | nan => nan
  | inf _ => inf false
  | finite _ u h => finite false u h

/-- The numeric comparison; a NaN compares with nothing, and the two zeros are equal. -/
def le : Binary64 → Binary64 → Bool
  | nan, _ => false
  | _, nan => false
  | inf true, _ => true
  | _, inf false => true
  | inf false, _ => false
  | _, inf true => false
  | x@(finite ..), y@(finite ..) => decide (x.units ≤ y.units)

/-- Numeric equality: the two zeros are equal, a NaN equals nothing. -/
def same (x y : Binary64) : Bool := x.le y && y.le x

/-- The larger of two doubles; a NaN wins over everything. -/
def max (x y : Binary64) : Binary64 :=
  if x.isNaN then x else if y.isNaN then y else if x.le y then y else x

end Binary64
end TreeParty
