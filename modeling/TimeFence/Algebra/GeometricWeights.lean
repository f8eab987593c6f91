import TimeFence.Algebra.WeightedSum

/-!
# Rebasing by one scalar

A weighted sum that was computed from position `0` is rebased to position `s` by one
scalar when one factor does it for every list. For lists that stay within the first `n`
positions this is a property of the weights (`rebasable_iff`), and the weights for which
it holds at every `s` are the geometric ones (`forall_rebasable_iff`). Powers of an
element whose order exceeds the exponents are geometric exactly when the exponents are
an arithmetic progression (`geometric_pow_iff`).
-/

namespace TimeFence.Algebra

section CommSemiring

variable {R : Type*} [CommSemiring R] {w : ℕ → R} {n s : ℕ}

/-- One factor moves every list within the first `n` positions by `s`. -/
def Rebasable (w : ℕ → R) (n s : ℕ) : Prop :=
  ∃ c, ∀ xs : List R, s + xs.length ≤ n → wsum (fun i => w (s + i)) xs = c * wsum w xs

/-- The list with a one at position `i`. -/
theorem wsum_unit (w : ℕ → R) (i : ℕ) : wsum w (List.replicate i 0 ++ [1]) = w i := by
  have hzero : wsum w (List.replicate i 0) = 0 := by
    have h := wsum_append_replicate_zero w [] i
    rwa [List.nil_append, wsum_nil] at h
  rw [wsum_concat, hzero, zero_add, one_mul, List.length_replicate]

theorem rebasable_iff : Rebasable w n s ↔ ∃ c, ∀ i, s + i < n → w (s + i) = c * w i := by
  refine exists_congr fun c => ⟨fun h i hi => ?_, fun h xs hxs => ?_⟩
  · have hunit := h (List.replicate i 0 ++ [1]) (by simp; omega)
    rwa [wsum_unit, wsum_unit] at hunit
  · rw [← wsum_mul_left]
    exact wsum_congr fun i hi => h i (by omega)

/-- A geometric sequence of weights. -/
def Geometric (w : ℕ → R) (n : ℕ) : Prop := ∃ r, ∀ i < n, w i = w 0 * r ^ i

/-- Shifts by one are enough, and shifts by one give a common ratio. -/
theorem geometric_of_rebasable_one (h : Rebasable w n 1) : Geometric w n := by
  obtain ⟨r, hr⟩ := rebasable_iff.mp h
  refine ⟨r, fun i hi => ?_⟩
  induction i with
  | zero => rw [pow_zero, mul_one]
  | succ i ih =>
    have hstep := hr i (by omega)
    rw [Nat.add_comm i 1, hstep, ih (by omega), Nat.add_comm 1 i, pow_succ]
    ring

theorem forall_rebasable_iff : (∀ s < n, Rebasable w n s) ↔ Geometric w n := by
  constructor
  · intro h
    by_cases hn : 1 < n
    · exact geometric_of_rebasable_one (h 1 hn)
    · refine ⟨1, fun i hi => ?_⟩
      obtain rfl : i = 0 := by omega
      rw [pow_zero, mul_one]
  · rintro ⟨r, hr⟩ s hs
    refine rebasable_iff.mpr ⟨r ^ s, fun i hi => ?_⟩
    rw [hr (s + i) hi, hr i (by omega), pow_add]
    ring

end CommSemiring

/-! ## Powers -/

section Field

variable {F : Type*} [Field F] {q : F} {e : ℕ → ℕ} {n : ℕ}

/-- Powers with exponents below half the order are geometric exactly when the exponents
    have one common gap. -/
theorem geometric_pow_iff (hq : q ≠ 0) (he : ∀ i < n, 2 * e i < orderOf q) :
    Geometric (fun i => q ^ e i) n ↔ ∀ i, i + 1 < n → e (i + 1) + e 0 = e i + e 1 := by
  constructor
  · rintro ⟨r, hr⟩ i hi
    -- Both sides are `q^(2 e 0) r^(i + 1)`.
    have hsum : q ^ (e (i + 1) + e 0) = q ^ (e i + e 1) := by
      have h0 := hr (i + 1) hi
      have h1 := hr i (by omega)
      have h2 := hr 1 (by omega)
      dsimp only at h0 h1 h2
      rw [pow_add, pow_add, h0, h1, h2, pow_succ]
      ring
    have b1 := he (i + 1) hi
    have b2 := he i (by omega)
    have b3 := he 0 (by omega)
    have b4 := he 1 (by omega)
    exact pow_injOn_Iio_orderOf (Set.mem_Iio.mpr (by omega)) (Set.mem_Iio.mpr (by omega)) hsum
  · intro h
    by_cases hn : 1 < n
    · refine ⟨q ^ e 1 / q ^ e 0, fun i hi => ?_⟩
      have h0 : q ^ e 0 ≠ 0 := pow_ne_zero _ hq
      induction i with
      | zero => rw [pow_zero, mul_one]
      | succ i ih =>
        have hgap : q ^ (e (i + 1) + e 0) = q ^ (e i + e 1) := by rw [h i hi]
        have hi' : q ^ e i = q ^ e 0 * (q ^ e 1 / q ^ e 0) ^ i := ih (by omega)
        rw [pow_add, pow_add, hi'] at hgap
        have hgoal : q ^ e (i + 1) * q ^ e 0 =
            q ^ e 0 * (q ^ e 1 / q ^ e 0) ^ (i + 1) * q ^ e 0 := by
          rw [hgap, pow_succ]
          field_simp
        exact mul_right_cancel₀ h0 hgoal
    · refine ⟨1, fun i hi => ?_⟩
      obtain rfl : i = 0 := by omega
      rw [pow_zero, mul_one]

end Field

end TimeFence.Algebra
