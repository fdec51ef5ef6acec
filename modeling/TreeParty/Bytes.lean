/-!
# Byte strings and little-endian numbers

`Bytes.ofNat width n` writes the low `width` bytes of `n`, least significant byte first, and
`Bytes.toNat` reads them back. The two are inverse on numbers that fit the width.
-/

namespace TreeParty

abbrev Bytes := List UInt8

namespace Bytes

/-- The low `width` bytes of a number, least significant byte first. -/
def ofNat : Nat → Nat → Bytes
  | 0, _ => []
  | width + 1, n => UInt8.ofNat (n % 256) :: ofNat width (n / 256)

def toNat : Bytes → Nat
  | [] => 0
  | b :: rest => b.toNat + 256 * toNat rest

@[simp] theorem length_ofNat (width n : Nat) : (ofNat width n).length = width := by
  induction width generalizing n with
  | zero => rfl
  | succ width ih => simp [ofNat, ih]

theorem toNat_lt (bytes : Bytes) : toNat bytes < Nat.pow 256 bytes.length := by
  simp only [Nat.pow_eq]
  induction bytes with
  | nil => simp [toNat]
  | cons b rest ih =>
    have hb : b.toNat < 256 := b.toNat_lt
    simp only [toNat, List.length_cons, Nat.pow_succ]
    omega

theorem toNat_ofNat {width n : Nat} (hn : n < Nat.pow 256 width) : toNat (ofNat width n) = n := by
  simp only [Nat.pow_eq] at hn
  induction width generalizing n with
  | zero =>
    simp at hn
    simp [ofNat, toNat, hn]
  | succ width ih =>
    have hq : n / 256 < 256 ^ width := by
      rw [Nat.pow_succ] at hn
      omega
    have hb : (UInt8.ofNat (n % 256)).toNat = n % 256 := by
      simp
    simp only [ofNat, toNat, ih hq, hb]
    omega

theorem ofNat_toNat (bytes : Bytes) : ofNat bytes.length (toNat bytes) = bytes := by
  induction bytes with
  | nil => rfl
  | cons b rest ih =>
    have hb : b.toNat < 256 := b.toNat_lt
    have hmod : (b.toNat + 256 * toNat rest) % 256 = b.toNat := by omega
    have hdiv : (b.toNat + 256 * toNat rest) / 256 = toNat rest := by omega
    simp [ofNat, toNat, hmod, hdiv, ih]

end Bytes
end TreeParty
