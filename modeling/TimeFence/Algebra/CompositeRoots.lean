import Mathlib

/-!
# Roots modulo a composite number

A polynomial with `n` prescribed exponents can be made to vanish at any `t < n`
points of a field (`exists_coeffs_vanishing`). Multiplied by a cofactor `m`, its
roots modulo a prime `r` become roots modulo `r · m`, and each of them comes `m`
times: so modulo a composite number there are too many roots for any bound by
the degree (`exists_many_roots`).

For a single polynomial there is a formula for two kinds only: two terms whose
exponents are `0` and `1` (`card_linear_roots`), and one term
(`card_monomial_roots`).
-/

namespace TimeFence.Algebra

/-! ## Too many roots -/

/-- More coefficients than points: some nonzero choice of coefficients vanishes
    at all the points. -/
theorem exists_coeffs_vanishing {F : Type*} [Field F] {n t : ℕ} (ht : t < n) (e : ℕ → ℕ)
    (x : ℕ → F) :
    ∃ c : ℕ → F, (∃ i < n, c i ≠ 0) ∧
      ∀ j < t, ∑ i ∈ Finset.range n, c i * x j ^ e i = 0 := by
  -- Evaluation at the points, as a linear map from coefficients to values.
  let eval : (Fin n → F) →ₗ[F] (Fin t → F) :=
    LinearMap.pi fun j => ∑ i : Fin n, (x j ^ e i) • LinearMap.proj i
  have heval : ∀ (c : Fin n → F) j, eval c j = ∑ i : Fin n, c i * x j ^ e i := by
    intro c j
    simp [eval, mul_comm]
  have hker : LinearMap.ker eval ≠ ⊥ := by
    apply LinearMap.ker_ne_bot_of_finrank_lt
    simpa using ht
  obtain ⟨c, hc, hne⟩ := Submodule.exists_mem_ne_zero_of_ne_bot hker
  obtain ⟨k, hk⟩ := Function.ne_iff.mp hne
  refine ⟨fun i => if h : i < n then c ⟨i, h⟩ else 0, ⟨k, k.isLt, by simpa using hk⟩, ?_⟩
  intro j hj
  have hzero : eval c ⟨j, hj⟩ = 0 := by
    rw [LinearMap.mem_ker.mp hc]
    rfl
  rw [heval] at hzero
  rw [Finset.sum_range]
  simpa using hzero

/-- The residue classes below `t` modulo `r`, counted below `r · m`. -/
theorem mul_le_card_filter_mod_lt {r t : ℕ} (htr : t ≤ r) (m : ℕ) :
    t * m ≤ ({q ∈ Finset.range (r * m) | q % r < t} : Finset ℕ).card := by
  have hcard : (Finset.range m ×ˢ Finset.range t).card = t * m := by
    rw [Finset.card_product, Finset.card_range, Finset.card_range, mul_comm]
  rw [← hcard]
  -- The number `r · i + j` lies in the class of `j`.
  apply Finset.card_le_card_of_injOn fun y => r * y.1 + y.2
  · rintro ⟨i, j⟩ hij
    simp only [Finset.coe_product, Finset.coe_range, Set.mem_prod, Set.mem_Iio] at hij
    have hjr : j < r := by omega
    have hlt : r * i + j < r * m :=
      calc r * i + j < r * i + r := by omega
        _ = r * (i + 1) := by ring
        _ ≤ r * m := Nat.mul_le_mul_left r hij.1
    simp [hlt, Nat.mod_eq_of_lt hjr, hij.2]
  · rintro ⟨i, j⟩ hij ⟨i', j'⟩ hij' heq
    simp only [Finset.coe_product, Finset.coe_range, Set.mem_prod, Set.mem_Iio] at hij hij'
    have hjr : j < r := by omega
    have hjr' : j' < r := by omega
    have heq' : r * i + j = r * i' + j' := heq
    have hj : j = j' := by
      have hmod := congrArg (· % r) heq'
      simpa [Nat.mul_add_mod, Nat.mod_eq_of_lt hjr, Nat.mod_eq_of_lt hjr'] using hmod
    have hi : r * i = r * i' := by omega
    rw [Nat.eq_of_mul_eq_mul_left (by omega) hi, hj]

/-- Coefficients below `r`, not all zero, whose multiples by `m` have `t · m`
    roots modulo `r · m`. -/
theorem exists_many_roots {r m n t : ℕ} (hr : r.Prime) (ht : t < n) (htr : t ≤ r) (e : ℕ → ℕ) :
    ∃ c : ℕ → ℕ, (∀ i, c i < r) ∧ (∃ i < n, c i ≠ 0) ∧
      t * m ≤ ({q ∈ Finset.range (r * m) |
        r * m ∣ ∑ i ∈ Finset.range n, m * c i * q ^ e i} : Finset ℕ).card := by
  have : Fact r.Prime := ⟨hr⟩
  obtain ⟨c, ⟨k, hk, hne⟩, hvanish⟩ := exists_coeffs_vanishing (F := ZMod r) ht e fun j => (j : ZMod r)
  refine ⟨fun i => (c i).val, fun i => ZMod.val_lt _, ⟨k, hk, ?_⟩, ?_⟩
  · rwa [ne_eq, ZMod.val_eq_zero]
  · refine (mul_le_card_filter_mod_lt htr m).trans (Finset.card_le_card ?_)
    intro q hq
    obtain ⟨hlt, hmod⟩ := Finset.mem_filter.mp hq
    refine Finset.mem_filter.mpr ⟨hlt, ?_⟩
    have hsum : ∑ i ∈ Finset.range n, m * (c i).val * q ^ e i =
        m * ∑ i ∈ Finset.range n, (c i).val * q ^ e i := by
      rw [Finset.mul_sum]
      apply Finset.sum_congr rfl
      intro i _
      rw [mul_assoc]
    rw [hsum, mul_comm r m]
    apply Nat.mul_dvd_mul_left
    rw [← ZMod.natCast_eq_zero_iff]
    have hpoint := hvanish (q % r) hmod
    rw [ZMod.natCast_mod] at hpoint
    push_cast
    simpa using hpoint

/-! ## One and two terms -/

/-- The numbers below `b` in a residue class modulo a divisor of `b`. -/
theorem card_filter_modEq {m b : ℕ} (hm : 0 < m) (hmb : m ∣ b) (v : ℕ) :
    ({q ∈ Finset.range b | q ≡ v [MOD m]} : Finset ℕ).card = b / m := by
  rw [← Nat.count_eq_card_filter_range, Nat.count_modEq_card b hm, Nat.mod_eq_zero_of_dvd hmb,
    if_neg (Nat.not_lt_zero _), Nat.add_zero]

theorem gcd_dvd_modulus (a : ℤ) (p : ℕ) : Int.gcd a p ∣ p := by
  have hdvd := Int.gcd_dvd_natAbs_right a p
  rwa [Int.natAbs_natCast] at hdvd

theorem gcd_modulus_pos {p : ℕ} (hp : 0 < p) (a : ℤ) : 0 < Int.gcd a p :=
  Nat.pos_of_dvd_of_pos (gcd_dvd_modulus a p) hp

/-- A factor is cancelled together with what it has in common with the modulus. -/
theorem dvd_mul_iff_div_gcd_dvd {p : ℕ} (hp : 0 < p) (a x : ℤ) :
    (p : ℤ) ∣ a * x ↔ ((p / Int.gcd a p : ℕ) : ℤ) ∣ x := by
  have hpos := gcd_modulus_pos hp a
  have ha : (Int.gcd a p : ℤ) * (a / Int.gcd a p) = a :=
    Int.mul_ediv_cancel' (Int.gcd_dvd_left a p)
  have hm : (Int.gcd a p : ℤ) * ((p / Int.gcd a p : ℕ) : ℤ) = p := by
    exact_mod_cast Nat.mul_div_cancel' (gcd_dvd_modulus a p)
  have hcoprime : Int.gcd ((p / Int.gcd a p : ℕ) : ℤ) (a / Int.gcd a p) = 1 := by
    rw [Int.gcd_comm, Int.natCast_ediv]
    exact Int.gcd_ediv_gcd_ediv_gcd hpos
  have hsplit : a * x = Int.gcd a p * (a / Int.gcd a p * x) := by rw [← mul_assoc, ha]
  rw [hsplit]
  nth_rewrite 1 [← hm]
  rw [mul_dvd_mul_iff_left (by omega)]
  constructor
  · intro h
    exact Int.dvd_of_dvd_mul_right_of_gcd_one h hcoprime
  · intro h
    exact h.mul_left _

/-- The congruence `b + a · q ≡ 0` modulo `p` has `gcd a p` solutions if that number
    divides `b`, and none otherwise. -/
theorem card_linear_roots {p : ℕ} (hp : 0 < p) (a b : ℤ) :
    ({q ∈ Finset.range p | (p : ℤ) ∣ b + a * ((q : ℕ) : ℤ)} : Finset ℕ).card =
      if (Int.gcd a p : ℤ) ∣ b then Int.gcd a p else 0 := by
  have hgp : (Int.gcd a p : ℤ) ∣ p := Int.gcd_dvd_right a p
  by_cases hdvd : (Int.gcd a p : ℤ) ∣ b
  · -- Any solution differs from this one by a multiple of `p / gcd a p`.
    obtain ⟨v, hv⟩ : ∃ v : ℕ, (p : ℤ) ∣ b + a * v := by
      obtain ⟨k, hk⟩ := hdvd
      have hbezout := Int.gcd_eq_gcd_ab a p
      have hcast : (((-(Int.gcdA a p * k)) % p).toNat : ℤ) = (-(Int.gcdA a p * k)) % p :=
        Int.toNat_of_nonneg (Int.emod_nonneg _ (by omega))
      refine ⟨((-(Int.gcdA a p * k)) % p).toNat, ?_⟩
      rw [hcast, Int.emod_def]
      refine ⟨Int.gcdB a p * k - a * (-(Int.gcdA a p * k) / p), ?_⟩
      rw [hk, hbezout]
      ring
    have hiff : ∀ q : ℕ, (p : ℤ) ∣ b + a * q ↔ q ≡ v [MOD p / Int.gcd a p] := by
      intro q
      have hdiff : b + a * q = (b + a * v) + a * (q - v) := by ring
      rw [hdiff, dvd_add_right hv, dvd_mul_iff_div_gcd_dvd hp, Nat.ModEq.comm, Nat.modEq_iff_dvd]
    simp only [hiff]
    rw [if_pos hdvd, card_filter_modEq (Nat.div_pos (Nat.le_of_dvd hp (gcd_dvd_modulus a p))
      (gcd_modulus_pos hp a)) (Nat.div_dvd_of_dvd (gcd_dvd_modulus a p)),
      Nat.div_div_self (gcd_dvd_modulus a p) hp.ne']
  · rw [if_neg hdvd, Finset.card_eq_zero]
    apply Finset.filter_false_of_mem
    intro q _ hq
    have hq' : (Int.gcd a p : ℤ) ∣ b + a * q := hgp.trans hq
    exact hdvd ((dvd_add_left ((Int.gcd_dvd_left a p).mul_right _)).mp hq')

/-- The congruence `d · q ^ e ≡ 0` modulo `p`: its solutions are the multiples of the
    least number whose power is divisible by `p / gcd d p`. -/
theorem card_monomial_roots {p e : ℕ} (hp : 0 < p) (he : e ≠ 0) (d : ℤ) :
    ({q ∈ Finset.range p | (p : ℤ) ∣ d * ((q : ℕ) : ℤ) ^ e} : Finset ℕ).card =
      p / Nat.ceilRoot e (p / Int.gcd d p) := by
  have hdvd := gcd_dvd_modulus d p
  have hquot : 0 < p / Int.gcd d p := Nat.div_pos (Nat.le_of_dvd hp hdvd) (gcd_modulus_pos hp d)
  have hroot : Nat.ceilRoot e (p / Int.gcd d p) ∣ p :=
    ((Nat.dvd_pow_iff_ceilRoot_dvd he).mp (dvd_pow_self _ he)).trans (Nat.div_dvd_of_dvd hdvd)
  have hiff : ∀ q : ℕ, (p : ℤ) ∣ d * (q : ℤ) ^ e ↔
      q ≡ 0 [MOD Nat.ceilRoot e (p / Int.gcd d p)] := by
    intro q
    rw [dvd_mul_iff_div_gcd_dvd hp, Nat.modEq_zero_iff_dvd, ← Nat.dvd_pow_iff_ceilRoot_dvd he,
      ← Int.natCast_dvd_natCast, Nat.cast_pow]
  simp only [hiff]
  exact card_filter_modEq (Nat.pos_of_dvd_of_pos hroot hp) hroot 0

end TimeFence.Algebra
