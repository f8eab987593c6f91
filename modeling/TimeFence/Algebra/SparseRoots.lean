import Mathlib

/-!
# Roots of a polynomial with prescribed exponents

`Σ_{i < n} d i · x^(e i)` for strictly increasing exponents `e`, over an
integral domain. When `d t` is the last nonzero coefficient the sum has at most
`e t` zeros (`card_roots_le`). When `d s` is the first one, the factor `x^(e s)`
can be taken out, so at most `e t - e s` of the zeros are nonzero
(`card_nonzero_roots_le`).
-/

namespace TimeFence.Algebra

open Polynomial

/-! ## The polynomial -/

section Polynomial

variable {F : Type*} [CommRing F]

/-- `Σ_{i < n} d i · X^(e i)`. -/
noncomputable def sparsePoly (d : ℕ → F) (e : ℕ → ℕ) (n : ℕ) : F[X] :=
  ∑ i ∈ Finset.range n, C (d i) * X ^ e i

theorem sparsePoly_eval (d : ℕ → F) (e : ℕ → ℕ) (n : ℕ) (x : F) :
    (sparsePoly d e n).eval x = ∑ i ∈ Finset.range n, d i * x ^ e i := by
  unfold sparsePoly
  rw [eval_finsetSum]
  simp only [eval_mul, eval_C, eval_pow, eval_X]

/-- Distinct exponents keep the coefficients apart. -/
theorem sparsePoly_coeff (d : ℕ → F) {e : ℕ → ℕ} (he : StrictMono e) {n s : ℕ} (hs : s < n) :
    (sparsePoly d e n).coeff (e s) = d s := by
  unfold sparsePoly
  rw [finsetSum_coeff]
  simp only [coeff_C_mul, coeff_X_pow, he.injective.eq_iff, mul_ite, mul_one, mul_zero]
  rw [Finset.sum_ite_eq, if_pos (Finset.mem_range.mpr hs)]

theorem sparsePoly_natDegree_le {d : ℕ → F} {e : ℕ → ℕ} (he : StrictMono e) {n t : ℕ}
    (hlast : ∀ i, t < i → i < n → d i = 0) : (sparsePoly d e n).natDegree ≤ e t := by
  unfold sparsePoly
  apply natDegree_sum_le_of_forall_le
  intro i hi
  rcases le_or_gt i t with hit | hit
  · exact (natDegree_C_mul_X_pow_le _ _).trans (he.monotone hit)
  · rw [hlast i hit (Finset.mem_range.mp hi)]
    simp

/-- The common factor `x^(e s)` of a sum whose first nonzero coefficient is at
    `s`. -/
theorem sum_eq_pow_mul_sum {d : ℕ → F} {e : ℕ → ℕ} (he : StrictMono e) {n s : ℕ} (hs : s ≤ n)
    (hfirst : ∀ i < s, d i = 0) (x : F) :
    ∑ i ∈ Finset.range n, d i * x ^ e i =
      x ^ e s * ∑ i ∈ Finset.range (n - s), d (s + i) * x ^ (e (s + i) - e s) := by
  obtain ⟨m, rfl⟩ := Nat.exists_eq_add_of_le hs
  rw [Finset.sum_range_add, Nat.add_sub_cancel_left, Finset.mul_sum]
  have hzero : ∑ i ∈ Finset.range s, d i * x ^ e i = 0 := by
    apply Finset.sum_eq_zero
    intro i hi
    rw [hfirst i (Finset.mem_range.mp hi), zero_mul]
  rw [hzero, zero_add]
  apply Finset.sum_congr rfl
  intro i _
  have hle : e s ≤ e (s + i) := he.monotone (Nat.le_add_right s i)
  calc d (s + i) * x ^ e (s + i)
      = d (s + i) * x ^ (e s + (e (s + i) - e s)) := by rw [Nat.add_sub_cancel' hle]
    _ = x ^ e s * (d (s + i) * x ^ (e (s + i) - e s)) := by rw [pow_add]; ring

end Polynomial

/-! ## Counting zeros -/

section Domain

variable {F : Type*} [CommRing F] [IsDomain F]

/-- A sum whose last nonzero coefficient is at `t` has at most `e t` zeros. -/
theorem card_roots_le [DecidableEq F] {d : ℕ → F} {e : ℕ → ℕ} (he : StrictMono e) {n s t : ℕ}
    (hs : s < n) (hds : d s ≠ 0) (hlast : ∀ i, t < i → i < n → d i = 0) (S : Finset F) :
    {x ∈ S | ∑ i ∈ Finset.range n, d i * x ^ e i = 0}.card ≤ e t := by
  have hne : sparsePoly d e n ≠ 0 := by
    intro h
    apply hds
    rw [← sparsePoly_coeff d he hs, h, coeff_zero]
  have hsub : {x ∈ S | ∑ i ∈ Finset.range n, d i * x ^ e i = 0} ⊆
      (sparsePoly d e n).roots.toFinset := by
    intro x hx
    rw [Multiset.mem_toFinset, mem_roots hne, IsRoot.def, sparsePoly_eval]
    exact (Finset.mem_filter.mp hx).2
  calc {x ∈ S | ∑ i ∈ Finset.range n, d i * x ^ e i = 0}.card
      ≤ (sparsePoly d e n).roots.toFinset.card := Finset.card_le_card hsub
    _ ≤ Multiset.card (sparsePoly d e n).roots := Multiset.toFinset_card_le _
    _ ≤ (sparsePoly d e n).natDegree := card_roots' _
    _ ≤ e t := sparsePoly_natDegree_le he hlast

/-- A sum whose nonzero coefficients start at `s` and end at `t` has at most
    `e t - e s` nonzero zeros. -/
theorem card_nonzero_roots_le [DecidableEq F] {d : ℕ → F} {e : ℕ → ℕ} (he : StrictMono e)
    {n s t : ℕ} (hs : s < n) (hds : d s ≠ 0) (hst : s ≤ t) (hfirst : ∀ i < s, d i = 0)
    (hlast : ∀ i, t < i → i < n → d i = 0) (S : Finset F) :
    {x ∈ S | x ≠ 0 ∧ ∑ i ∈ Finset.range n, d i * x ^ e i = 0}.card ≤ e t - e s := by
  -- The exponents of the quotient by `x^(e s)`.
  have he' : StrictMono fun i => e (s + i) - e s := by
    intro i j hij
    have h₁ : e s ≤ e (s + i) := he.monotone (Nat.le_add_right s i)
    have h₂ : e (s + i) < e (s + j) := he (Nat.add_lt_add_left hij s)
    show e (s + i) - e s < e (s + j) - e s
    omega
  have hsub : {x ∈ S | x ≠ 0 ∧ ∑ i ∈ Finset.range n, d i * x ^ e i = 0} ⊆
      {x ∈ S | ∑ i ∈ Finset.range (n - s), d (s + i) * x ^ (e (s + i) - e s) = 0} := by
    intro x hx
    obtain ⟨hxS, hx0, hsum⟩ := Finset.mem_filter.mp hx
    rw [sum_eq_pow_mul_sum he hs.le hfirst x] at hsum
    refine Finset.mem_filter.mpr ⟨hxS, ?_⟩
    exact (mul_eq_zero.mp hsum).resolve_left (pow_ne_zero _ hx0)
  refine (Finset.card_le_card hsub).trans ?_
  have hbound := card_roots_le (d := fun i => d (s + i)) he' (n := n - s) (s := 0) (t := t - s)
    (by omega) (by simpa using hds) (fun i hi hin => hlast (s + i) (by omega) (by omega)) S
  simpa [Nat.add_sub_cancel' hst] using hbound

end Domain

/-- Numbers below `p` are distinct residues, so there are no more of them than
    residues. -/
theorem card_le_card_of_cast_mem {p : ℕ} {S : Finset ℕ} {R : Finset (ZMod p)}
    (hlt : ∀ q ∈ S, q < p) (hmem : ∀ q ∈ S, (q : ZMod p) ∈ R) : S.card ≤ R.card := by
  apply Finset.card_le_card_of_injOn (fun q : ℕ => (q : ZMod p)) hmem
  intro q hq q' hq' hqq'
  have hmod := (ZMod.natCast_eq_natCast_iff' _ _ _).mp hqq'
  rwa [Nat.mod_eq_of_lt (hlt q hq), Nat.mod_eq_of_lt (hlt q' hq')] at hmod

end TimeFence.Algebra
