import TimeFence.Algebra.GeometricWeights
import TimeFence.Verus.Spec

/-!
# Exponent sequences

Model of sections 15, 16, 18 and 19 of `proofs/finaltest_timefence_core_verified.rs`
(lines 2780–3660): which sequences of exponents let one scalar move a digest to another
position. `Seq<int>` is a list, and a position that the source leaves to `int` is a
natural number.

* `oneScalarComposition_iff_affine`: the condition at all shifts, the condition at shift
  one, and being affine are the same. The source shows two of the implications.
* `rebasable_iff_affine`: what the condition means for digests: over a prime field one
  scalar per shift exists exactly for affine exponents, as long as the base has an order
  above twice the exponents.
* `rollingRawShiftedPrefixSpec_eq`, `triangularOneScalarRebase_iff`: the rolling hash can
  be rebased by every shift and the triangular exponents by none.
-/

namespace TimeFence.Verus

open TimeFence.Common TimeFence.Algebra

/-! ## Model -/

/-- Model of `affine_exp` (lines 2780–2782). -/
def affineExp (a b i : ℤ) : ℤ := a * i + b

/-- Model of `is_affine_with` (lines 2784–2788). -/
def IsAffineWith (phi : List ℤ) (a b : ℤ) : Prop :=
  ∀ i < phi.length, phi.getD i 0 = affineExp a b i

/-- Model of `finite_affine_exponents` (lines 2790–2792). -/
def FiniteAffineExponents (phi : List ℤ) : Prop := ∃ a b, IsAffineWith phi a b

/-- Model of `shift_equivariant_exponents` (lines 2794–2805). -/
def ShiftEquivariantExponents (phi : List ℤ) (s : ℕ) : Prop :=
  s < phi.length ∧ ∀ i j, i + s < phi.length → j + s < phi.length →
    phi.getD (i + s) 0 - phi.getD i 0 = phi.getD (j + s) 0 - phi.getD j 0

/-- Model of `one_scalar_composition_exponents` (lines 2956–2967). -/
def OneScalarCompositionExponents (phi : List ℤ) (k : ℕ) : Prop :=
  k < phi.length ∧ ∀ j l, k + j < phi.length → k + l < phi.length →
    phi.getD (k + j) 0 - phi.getD j 0 = phi.getD (k + l) 0 - phi.getD l 0

/-- Model of `one_scalar_composition_all_shifts` (lines 2969–2973). -/
def OneScalarCompositionAllShifts (phi : List ℤ) : Prop :=
  ∀ k, 1 ≤ k → k < phi.length → OneScalarCompositionExponents phi k

/-- Model of `rolling_raw_prefix_spec` (lines 3358–3374). -/
def rollingRawPrefixSpec (xs : List ℤ) (q : ℤ) : ℕ → ℤ
  | 0 => 0
  | n + 1 => rollingRawPrefixSpec xs q n + xs.getD n 0 * specPow q n

/-- Model of `rolling_raw_shifted_prefix_spec` (lines 3376–3394). -/
def rollingRawShiftedPrefixSpec (xs : List ℤ) (q s : ℤ) : ℕ → ℤ
  | 0 => 0
  | n + 1 => rollingRawShiftedPrefixSpec xs q s n + xs.getD n 0 * specPow q (n + s)

/-- Model of `tri_gap_o1` (lines 3520–3526). -/
def triGap (i s : ℤ) : ℤ := triExp (i + s) - triExp i

/-- Model of `triangular_one_scalar_rebase_exponents_for_shift_o1` (lines 3597–3605). -/
def TriangularOneScalarRebase (s : ℤ) : Prop :=
  0 ≤ s ∧ ∀ i j, 0 ≤ i → 0 ≤ j → triExp (i + s) - triExp i = triExp (j + s) - triExp j

/-! ## Exponents -/

section

variable {phi : List ℤ}

theorem oneScalarComposition_iff_shiftEquivariant {k : ℕ} :
    OneScalarCompositionExponents phi k ↔ ShiftEquivariantExponents phi k := by
  simp only [OneScalarCompositionExponents, ShiftEquivariantExponents, Nat.add_comm k]

theorem IsAffineWith.shiftEquivariant {a b : ℤ} (h : IsAffineWith phi a b) {s : ℕ}
    (hs : s < phi.length) : ShiftEquivariantExponents phi s := by
  refine ⟨hs, fun i j hi hj => ?_⟩
  rw [h _ hi, h i (by omega), h _ hj, h j (by omega), affineExp, affineExp, affineExp, affineExp]
  push_cast
  ring

/-- The gap at shift one is the slope. -/
theorem isAffineWith_of_shiftEquivariant_one (h : ShiftEquivariantExponents phi 1) :
    IsAffineWith phi (phi.getD 1 0 - phi.getD 0 0) (phi.getD 0 0) := by
  intro i hi
  induction i with
  | zero => simp [affineExp]
  | succ i ih =>
    have hgap := h.2 i 0 hi h.1
    have hi' := ih (by omega)
    rw [affineExp] at hi' ⊢
    rw [Nat.zero_add] at hgap
    push_cast
    linarith

/-- Fewer than two exponents are affine. -/
theorem finiteAffine_of_length_le_one (h : phi.length ≤ 1) : FiniteAffineExponents phi := by
  refine ⟨0, phi.getD 0 0, fun i hi => ?_⟩
  obtain rfl : i = 0 := by omega
  simp [affineExp]

/-- `theorem_affine_implies_shift_equivariant` and its converse at shift one. -/
theorem shiftEquivariant_one_iff (h2 : 2 ≤ phi.length) :
    ShiftEquivariantExponents phi 1 ↔ FiniteAffineExponents phi := by
  constructor
  · intro h
    exact ⟨_, _, isAffineWith_of_shiftEquivariant_one h⟩
  · rintro ⟨a, b, h⟩
    exact h.shiftEquivariant h2

end

/-- Composition by one scalar at all shifts, for the exponents of a stream of any length,
    is possible exactly for affine exponents; from two exponents on the shift by one
    decides it. -/
theorem oneScalarComposition_iff_affine (phi : List ℤ) :
    (OneScalarCompositionAllShifts phi ↔ FiniteAffineExponents phi) ∧
      (2 ≤ phi.length → (ShiftEquivariantExponents phi 1 ↔ FiniteAffineExponents phi)) := by
  refine ⟨⟨fun h => ?_, ?_⟩, shiftEquivariant_one_iff⟩
  · by_cases h2 : 2 ≤ phi.length
    · exact (shiftEquivariant_one_iff h2).mp
        (oneScalarComposition_iff_shiftEquivariant.mp (h 1 le_rfl h2))
    · exact finiteAffine_of_length_le_one (by omega)
  · rintro ⟨a, b, h⟩ k _ hk
    exact oneScalarComposition_iff_shiftEquivariant.mpr (h.shiftEquivariant hk)

/-! ## Digests -/

/-- `spec_pow` is `1` for negative exponents. -/
theorem specPow_eq_pow_toNat (q e : ℤ) : specPow q e = q ^ e.toNat := by
  by_cases he : e ≤ 0
  · rw [specPow, if_pos he, Int.toNat_of_nonpos he, pow_zero]
  · have hnat : e = (e.toNat : ℤ) := (Int.toNat_of_nonneg (by omega)).symm
    rw [hnat, specPow_natCast, Int.toNat_natCast]

/-- The gaps of exponents that are natural numbers. -/
theorem shiftEquivariant_one_iff_gap {phi : List ℤ} (hphi : ∀ i, 0 ≤ phi.getD i 0)
    (h2 : 2 ≤ phi.length) :
    ShiftEquivariantExponents phi 1 ↔ ∀ i, i + 1 < phi.length →
      (phi.getD (i + 1) 0).toNat + (phi.getD 0 0).toNat =
        (phi.getD i 0).toNat + (phi.getD 1 0).toNat := by
  have hzero := hphi 0
  have hone := hphi 1
  constructor
  · intro h i hi
    have hgap := h.2 i 0 hi h2
    rw [Nat.zero_add] at hgap
    have hi0 := hphi i
    have hi1 := hphi (i + 1)
    omega
  · intro h
    refine ⟨h2, fun i j hi hj => ?_⟩
    have hgap := h i hi
    have hgap' := h j hj
    have hi0 := hphi i
    have hi1 := hphi (i + 1)
    have hj0 := hphi j
    have hj1 := hphi (j + 1)
    omega

/-- A common gap between neighbours is an affine sequence. -/
theorem finiteAffine_iff_gap {phi : List ℤ} (hphi : ∀ x ∈ phi, 0 ≤ x) :
    FiniteAffineExponents phi ↔ ∀ i, i + 1 < phi.length →
      (phi.getD (i + 1) 0).toNat + (phi.getD 0 0).toNat =
        (phi.getD i 0).toNat + (phi.getD 1 0).toNat := by
  have hnonneg : ∀ i, 0 ≤ phi.getD i 0 := by
    intro i
    by_cases hi : i < phi.length
    · rw [List.getD_eq_getElem _ _ hi]
      exact hphi _ (List.getElem_mem hi)
    · rw [List.getD_eq_default _ _ (by omega)]
  by_cases h2 : 2 ≤ phi.length
  · rw [← shiftEquivariant_one_iff h2, shiftEquivariant_one_iff_gap hnonneg h2]
  · have hshort : phi.length ≤ 1 := by omega
    exact iff_of_true (finiteAffine_of_length_le_one hshort) fun i hi => absurd hi (by omega)

/-- What composition by one scalar means for digests. Over a prime field, for a base of
    an order above twice the exponents, there is for every shift a scalar that moves the
    digest of every stream exactly when the exponents are affine. -/
theorem rebasable_iff_affine {p : ℕ} (hprime : p.Prime) {q : ℤ} (hq : (q : ZMod p) ≠ 0)
    {phi : List ℤ} (hphi : ∀ x ∈ phi, 0 ≤ x ∧ 2 * x < orderOf (q : ZMod p)) :
    (∀ s < phi.length, Rebasable (fun i => ((specPow q (phi.getD i 0) : ℤ) : ZMod p))
      phi.length s) ↔ FiniteAffineExponents phi := by
  have : Fact p.Prime := ⟨hprime⟩
  have hweights : (fun i => ((specPow q (phi.getD i 0) : ℤ) : ZMod p)) =
      fun i => (q : ZMod p) ^ (phi.getD i 0).toNat := by
    funext i
    rw [specPow_eq_pow_toNat, Int.cast_pow]
  have hsmall : ∀ i < phi.length, 2 * (phi.getD i 0).toNat < orderOf (q : ZMod p) := by
    intro i hi
    rw [List.getD_eq_getElem _ _ hi]
    have hx := hphi _ (List.getElem_mem hi)
    omega
  rw [forall_rebasable_iff, hweights, geometric_pow_iff hq hsmall,
    finiteAffine_iff_gap fun x hx => (hphi x hx).1]

/-- `2` has an order above `6` modulo `101`. -/
theorem six_lt_orderOf_two : 6 < orderOf (((2 : ℤ) : ZMod 101)) := by
  by_contra hle
  have hfinite : IsOfFinOrder (((2 : ℤ) : ZMod 101)) :=
    isOfFinOrder_iff_pow_eq_one.mpr ⟨100, by norm_num, by decide +kernel⟩
  have hpos := orderOf_pos_iff.mpr hfinite
  have hone := pow_orderOf_eq_one (((2 : ℤ) : ZMod 101))
  generalize orderOf (((2 : ℤ) : ZMod 101)) = n at *
  interval_cases n <;> exact absurd hone (by decide)

/-- The triangular exponents `0, 1, 3` in base `2` modulo `101` have no such scalars. -/
theorem rebasable_iff_affine_triangular :
    ¬ ∀ s < 3, Rebasable (fun i => ((specPow 2 ([0, 1, 3].getD i 0) : ℤ) : ZMod 101)) 3 s := by
  have hprime : Nat.Prime 101 := by norm_num
  have horder := six_lt_orderOf_two
  have hphi : ∀ x ∈ [0, 1, 3], (0 : ℤ) ≤ x ∧ 2 * x < orderOf (((2 : ℤ) : ZMod 101)) := by
    intro x hx
    simp only [List.mem_cons, List.not_mem_nil, or_false] at hx
    omega
  intro h
  obtain ⟨a, b, hab⟩ := (rebasable_iff_affine hprime (q := 2) (by decide) hphi).mp h
  have h0 := hab 0 (by decide)
  have h1 := hab 1 (by decide)
  have h2 := hab 2 (by decide)
  simp [affineExp] at h0 h1 h2
  omega

/-! ## The two accumulators -/

/-- The rolling hash is rebased by `q^s`. -/
theorem rollingRawShiftedPrefixSpec_eq (xs : List ℤ) (q : ℤ) {s : ℤ} (hs : 0 ≤ s) (n : ℕ) :
    rollingRawShiftedPrefixSpec xs q s n = specPow q s * rollingRawPrefixSpec xs q n := by
  induction n with
  | zero => rw [rollingRawShiftedPrefixSpec, rollingRawPrefixSpec, mul_zero]
  | succ n ih =>
    have hpow : specPow q (n + s) = specPow q s * specPow q n := by
      rw [specPow_eq_pow_toNat, specPow_eq_pow_toNat, specPow_eq_pow_toNat, ← pow_add]
      congr 1
      omega
    rw [rollingRawShiftedPrefixSpec, rollingRawPrefixSpec, ih, hpow]
    ring

/-- The gap at a shift grows with the position, unless the shift is empty. -/
theorem triGap_natCast (i s : ℕ) : triGap i s = tri s + s * i := by
  rw [triGap, ← Nat.cast_add, triExp_natCast, triExp_natCast, Nat.add_comm, tri_add]
  push_cast
  ring

/-- The triangular exponents are rebased by the empty shift only. -/
theorem triangularOneScalarRebase_iff (s : ℤ) : TriangularOneScalarRebase s ↔ s = 0 := by
  constructor
  · rintro ⟨hs, h⟩
    lift s to ℕ using hs
    have h01 : triGap (0 : ℕ) s = triGap (1 : ℕ) s := h 0 1 (by norm_num) (by norm_num)
    rw [triGap_natCast, triGap_natCast] at h01
    push_cast at h01
    omega
  · rintro rfl
    exact ⟨le_rfl, fun i j _ _ => by simp⟩

end TimeFence.Verus
