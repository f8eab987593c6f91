import TimeFence.Algebra.WeightedSum

/-!
# Digits at growing positions

`Σ dᵢ · q^(e i)` with strictly increasing exponents and digits `dᵢ ≤ B < q` is a
number written in base `q` with gaps between its digits. The digits below a
position add up to less than that position counts (`mul_sum_pow_lt`), so the
number determines all of them (`wsum_pow_eq_iff`). Lists of different lengths
denote the same number exactly when they agree after padding with zeros
(`getD_eq_iff_padded`).
-/

namespace TimeFence.Algebra

section

variable {q B : ℕ} {e : ℕ → ℕ}

/-- The largest digits below position `n` do not reach it. -/
theorem mul_sum_pow_lt (hB : B < q) (he : StrictMono e) (n : ℕ) :
    B * ∑ i ∈ Finset.range n, q ^ e i < q ^ e n := by
  have hq : 0 < q := by omega
  induction n with
  | zero =>
    rw [Finset.sum_range_zero, mul_zero]
    exact Nat.pow_pos hq
  | succ n ih =>
    rw [Finset.sum_range_succ, mul_add]
    calc B * ∑ i ∈ Finset.range n, q ^ e i + B * q ^ e n
        < q ^ e n + B * q ^ e n := Nat.add_lt_add_right ih _
      _ = (B + 1) * q ^ e n := by ring
      _ ≤ q * q ^ e n := Nat.mul_le_mul_right _ hB
      _ = q ^ (e n + 1) := by rw [pow_succ, mul_comm]
      _ ≤ q ^ e (n + 1) := Nat.pow_le_pow_right hq (he (Nat.lt_succ_self n))

/-- Digits up to `B` denote at most `B` times the sum of the positions. -/
theorem wsum_pow_le {xs : List ℕ} (hx : ∀ x ∈ xs, x ≤ B) {n : ℕ} (hn : xs.length ≤ n) :
    wsum (fun i => q ^ e i) xs ≤ B * ∑ i ∈ Finset.range n, q ^ e i := by
  unfold wsum
  rw [Finset.mul_sum]
  calc ∑ i ∈ Finset.range xs.length, xs.getD i 0 * q ^ e i
      ≤ ∑ i ∈ Finset.range xs.length, B * q ^ e i := by
        apply Finset.sum_le_sum
        intro i hi
        rw [List.getD_eq_getElem _ _ (Finset.mem_range.mp hi)]
        exact Nat.mul_le_mul_right _ (hx _ (List.getElem_mem _))
    _ ≤ ∑ i ∈ Finset.range n, B * q ^ e i :=
        Finset.sum_le_sum_of_subset (Finset.range_subset_range.mpr hn)

/-- Padding a list does not change what it denotes. -/
theorem wsum_eq_sum_range (w : ℕ → ℕ) {xs : List ℕ} {n : ℕ} (hn : xs.length ≤ n) :
    wsum w xs = ∑ i ∈ Finset.range n, xs.getD i 0 * w i := by
  unfold wsum
  apply Finset.sum_subset (Finset.range_subset_range.mpr hn)
  intro i _ hi
  rw [Finset.mem_range, not_lt] at hi
  rw [List.getD_eq_default _ _ hi, zero_mul]

/-- The digits are determined, from the last position down. -/
theorem digits_unique (hB : B < q) (he : StrictMono e) {d d' : ℕ → ℕ} (hd : ∀ i, d i ≤ B)
    (hd' : ∀ i, d' i ≤ B) (n : ℕ)
    (h : ∑ i ∈ Finset.range n, d i * q ^ e i = ∑ i ∈ Finset.range n, d' i * q ^ e i) :
    ∀ i < n, d i = d' i := by
  -- The digits below a position stay below it.
  have hlow : ∀ {d : ℕ → ℕ}, (∀ i, d i ≤ B) → ∀ n,
      ∑ i ∈ Finset.range n, d i * q ^ e i < q ^ e n := by
    intro d hd n
    refine lt_of_le_of_lt ?_ (mul_sum_pow_lt hB he n)
    rw [Finset.mul_sum]
    exact Finset.sum_le_sum fun i _ => Nat.mul_le_mul_right _ (hd i)
  induction n with
  | zero =>
    intro i hi
    omega
  | succ n ih =>
    rw [Finset.sum_range_succ, Finset.sum_range_succ] at h
    have hpos : 0 < q ^ e n := Nat.pow_pos (by omega)
    have hdiv := congrArg (· / q ^ e n) h
    simp only [Nat.add_mul_div_right _ _ hpos, Nat.div_eq_of_lt (hlow hd n),
      Nat.div_eq_of_lt (hlow hd' n), zero_add] at hdiv
    rw [hdiv] at h
    have hrest := ih (Nat.add_right_cancel h)
    intro i hi
    rcases Nat.lt_succ_iff_lt_or_eq.mp hi with hlt | rfl
    · exact hrest i hlt
    · exact hdiv

/-- Two lists of digits denote the same number exactly when they agree at every
    position, where a list continues with zeros. -/
theorem wsum_pow_eq_iff (hB : B < q) (he : StrictMono e) {xs ys : List ℕ} (hx : ∀ x ∈ xs, x ≤ B)
    (hy : ∀ y ∈ ys, y ≤ B) :
    wsum (fun i => q ^ e i) xs = wsum (fun i => q ^ e i) ys ↔
      ∀ i, xs.getD i 0 = ys.getD i 0 := by
  rw [wsum_eq_sum_range _ (Nat.le_max_left xs.length ys.length),
    wsum_eq_sum_range _ (Nat.le_max_right xs.length ys.length)]
  have hdigit : ∀ {zs : List ℕ}, (∀ z ∈ zs, z ≤ B) → ∀ i, zs.getD i 0 ≤ B := by
    intro zs hz i
    by_cases hi : i < zs.length
    · rw [List.getD_eq_getElem _ _ hi]
      exact hz _ (List.getElem_mem hi)
    · rw [List.getD_eq_default _ _ (not_lt.mp hi)]
      exact Nat.zero_le B
  constructor
  · intro h i
    by_cases hi : i < max xs.length ys.length
    · exact digits_unique hB he (hdigit hx) (hdigit hy) _ h i hi
    · rw [List.getD_eq_default _ _ (by omega), List.getD_eq_default _ _ (by omega)]
  · intro h
    simp only [h]

end

/-- Agreement at every position is equality after padding. -/
theorem getD_eq_iff_padded {α : Type*} (a : α) (xs ys : List α) :
    (∀ i, xs.getD i a = ys.getD i a) ↔
      xs ++ List.replicate (ys.length - xs.length) a =
        ys ++ List.replicate (xs.length - ys.length) a := by
  have hpad : ∀ (zs : List α) (m i : ℕ), (zs ++ List.replicate m a).getD i a = zs.getD i a := by
    intro zs m i
    by_cases hi : i < zs.length
    · rw [List.getD_append _ _ _ _ hi]
    · rw [List.getD_append_right _ _ _ _ (not_lt.mp hi), List.getD_eq_default zs a (not_lt.mp hi)]
      by_cases hm : i - zs.length < m
      · rw [List.getD_replicate _ hm]
      · rw [List.getD_eq_default _ _ (by rw [List.length_replicate]; omega)]
  constructor
  · intro h
    apply List.ext_getElem
    · rw [List.length_append, List.length_append, List.length_replicate, List.length_replicate]
      omega
    · intro i hi hi'
      rw [← List.getD_eq_getElem _ a hi, ← List.getD_eq_getElem _ a hi', hpad, hpad, h]
  · intro h i
    rw [← hpad xs (ys.length - xs.length), h, hpad]

end TimeFence.Algebra
