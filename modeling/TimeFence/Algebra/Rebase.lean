import TimeFence.Algebra.Registers

/-!
# Rebasing a triangular digest

A digest is rebaseable at a shift `s` when one scalar turns the digest of every
stream of length `n` into its digest at the positions `s, s + 1, …`. With
weights `q^i` the scalar `q^s` always does. With triangular weights the factor
between the two positions of an element is `q^(T_s) · q^(s·i)`, which depends on
`i`: over an integral domain, for `q ≠ 0` and `n ≥ 2`, a scalar exists exactly
when `q^s = 1` (`rebaseable_iff`).
-/

namespace TimeFence.Algebra

/-- The weighted sum of a stream that starts at position `s`. -/
def shiftedSum {R : Type*} [CommSemiring R] (q : R) (s : ℕ) (xs : List R) : R :=
  wsum (fun i => triWeight q (s + i)) xs

section CommSemiring

variable {R : Type*} [CommSemiring R]

theorem shiftedSum_zero (q : R) (xs : List R) : shiftedSum q 0 xs = wsum (triWeight q) xs := by
  unfold shiftedSum
  exact wsum_congr fun i _ => by rw [zero_add]

/-- Cutting a stream. -/
theorem wsum_triWeight_append (q : R) (xs ys : List R) :
    wsum (triWeight q) (xs ++ ys) = wsum (triWeight q) xs + shiftedSum q xs.length ys :=
  wsum_append _ _ _

/-- When `q^s = 1` the shift is a multiplication by `q^(T_s)`. -/
theorem shiftedSum_of_pow_eq_one {q : R} {s : ℕ} (h : q ^ s = 1) (xs : List R) :
    shiftedSum q s xs = triWeight q s * wsum (triWeight q) xs := by
  rw [shiftedSum, ← wsum_mul_left]
  apply wsum_congr
  intro i _
  rw [triWeight_add, h, one_pow, mul_one]

/-- A stream with a single `1`, at position `0`. -/
theorem shiftedSum_hot_zero (q : R) (s m : ℕ) :
    shiftedSum q s ([1] ++ List.replicate m 0) = triWeight q s := by
  rw [shiftedSum, wsum_append_replicate_zero, wsum_singleton, one_mul, add_zero]

/-- A stream with a single `1`, at position `1`. -/
theorem shiftedSum_hot_one (q : R) (s m : ℕ) :
    shiftedSum q s ([0, 1] ++ List.replicate m 0) = triWeight q (s + 1) := by
  rw [shiftedSum, wsum_append_replicate_zero, show ([0, 1] : List R) = [0] ++ [1] from rfl,
    wsum_concat, wsum_singleton, zero_mul, zero_add, one_mul]
  rfl

/-- With weights `q^i` the scalar `q^s` rebases every stream. -/
theorem wsum_pow_add (q : R) (s : ℕ) (xs : List R) :
    wsum (fun i => q ^ (s + i)) xs = q ^ s * wsum (fun i => q ^ i) xs := by
  rw [← wsum_mul_left]
  apply wsum_congr
  intro i _
  rw [pow_add]

/-- The scalar `c` rebases every stream of length `n` by `s` positions. -/
def Rebases (q : R) (s n : ℕ) (c : R) : Prop :=
  ∀ xs : List R, xs.length = n → shiftedSum q s xs = c * wsum (triWeight q) xs

end CommSemiring

section Domain

variable {R : Type*} [CommRing R] [IsDomain R]

/-- What the two one-hot streams force on a scalar. -/
theorem pow_eq_one_of_hot {q c : R} (hq : q ≠ 0) {s : ℕ} (h₀ : triWeight q s = c)
    (h₁ : triWeight q (s + 1) = c * q) : q ^ s = 1 := by
  have hw : triWeight q s ≠ 0 := pow_ne_zero _ hq
  rw [triWeight_add, triWeight_one, pow_one, ← h₀] at h₁
  have hcancel : triWeight q s * q * q ^ s = triWeight q s * q * 1 := by rw [h₁, mul_one]
  exact mul_left_cancel₀ (mul_ne_zero hw hq) hcancel

/-- A triangular digest of at least two elements is rebaseable by `s` positions
    exactly when `q^s = 1`. -/
theorem rebaseable_iff {q : R} (hq : q ≠ 0) (s : ℕ) {n : ℕ} (hn : 2 ≤ n) :
    (∃ c, Rebases q s n c) ↔ q ^ s = 1 := by
  constructor
  · rintro ⟨c, hc⟩
    have h₀ := hc ([1] ++ List.replicate (n - 1) 0) (by simp; omega)
    have h₁ := hc ([0, 1] ++ List.replicate (n - 2) 0) (by simp; omega)
    rw [← shiftedSum_zero, shiftedSum_hot_zero, shiftedSum_hot_zero, triWeight_zero, mul_one] at h₀
    rw [← shiftedSum_zero, shiftedSum_hot_one, shiftedSum_hot_one, zero_add, triWeight_one] at h₁
    exact pow_eq_one_of_hot hq h₀ h₁
  · intro h
    exact ⟨triWeight q s, fun xs _ => shiftedSum_of_pow_eq_one h xs⟩

end Domain

end TimeFence.Algebra
