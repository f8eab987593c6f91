import TimeFence.Common.Machine

/-!
# Little-endian bytes

The bytes of a number in memory, least significant first. `ofDigits_bytesOf` and
`bytesOf_ofDigits`: writing a number and reading the bytes back are inverse to
each other.
-/

namespace TimeFence.Common

/-- The low `n` bytes of `x`, least significant first. -/
def bytesOf : (n : ℕ) → (x : ℕ) → List (BitVec 8)
  | 0, _ => []
  | n + 1, x => BitVec.ofNat 8 x :: bytesOf n (x / 256)

@[simp] theorem length_bytesOf (n x : ℕ) : (bytesOf n x).length = n := by
  induction n generalizing x with
  | zero => rfl
  | succ n ih => rw [bytesOf, List.length_cons, ih]

/-- Reading back what was written. -/
theorem ofDigits_bytesOf (n x : ℕ) :
    Nat.ofDigits 256 ((bytesOf n x).map BitVec.toNat) = x % 256 ^ n := by
  induction n generalizing x with
  | zero => simp [bytesOf, Nat.mod_one]
  | succ n ih =>
    rw [bytesOf, List.map_cons, Nat.ofDigits_cons, ih, BitVec.toNat_ofNat]
    show x % 256 + 256 * (x / 256 % 256 ^ n) = x % 256 ^ (n + 1)
    rw [pow_succ' 256 n, Nat.mod_mul]

/-- Writing what was read. -/
theorem bytesOf_ofDigits (bytes : List (BitVec 8)) :
    bytesOf bytes.length (Nat.ofDigits 256 (bytes.map BitVec.toNat)) = bytes := by
  induction bytes with
  | nil => rfl
  | cons b bytes ih =>
    have hb := b.isLt
    have hlow : BitVec.ofNat 8 (b.toNat + 256 * Nat.ofDigits 256 (bytes.map BitVec.toNat)) = b := by
      apply BitVec.eq_of_toNat_eq
      rw [BitVec.toNat_ofNat]
      omega
    have hhigh : (b.toNat + 256 * Nat.ofDigits 256 (bytes.map BitVec.toNat)) / 256 =
        Nat.ofDigits 256 (bytes.map BitVec.toNat) := by omega
    rw [List.length_cons, List.map_cons, Nat.ofDigits_cons]
    show bytesOf (bytes.length + 1)
      (b.toNat + 256 * Nat.ofDigits 256 (bytes.map BitVec.toNat)) = b :: bytes
    rw [bytesOf, hlow, hhigh, ih]

end TimeFence.Common
