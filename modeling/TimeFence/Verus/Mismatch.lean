import TimeFence.Common.Scan
import TimeFence.Verus.RootCount

/-!
# Locating a mismatch, and single edits

Model of sections 11, 15 and 22 of `proofs/finaltest_timefence_core_verified.rs` (the
shifted digest, lines 31–40; the first mismatch, lines 2676–2773; the two parts of a
range, lines 3967–4040) and of the domain assumption of its single-edit theorem (lines
1760–1775 and 2419–2437).

* `mismatch_localized`: what the digests of a range and of its two parts say about the
  first mismatch that the executable scan finds.
* `singleEditsDetected_iff`: the domain assumption means that the modulus is prime, and
  the single-edit theorem is false without it.
-/

namespace TimeFence.Verus

open TimeFence.Common TimeFence.Algebra

/-! ## Model -/

/-- Model of `ramanujan_shifted_spec` (lines 31–40). -/
def ramanujanShiftedSpec (logs : List U64) (q p offset : ℤ) : ℤ :=
  if h : logs = [] then 0
  else
    let i : ℤ := offset + (logs.length - 1)
    let weight := specPow q (triExp i) % p
    (ramanujanShiftedSpec logs.dropLast q p offset + (logs.getLast h).toNat * weight) % p
termination_by logs.length
decreasing_by
  have := List.length_pos_iff.mpr h
  rw [List.length_dropLast]
  omega

/-- Model of `first_mismatch_at` (lines 2676–2689). -/
structure FirstMismatchAt (w w2 : List U64) (idx : ℕ) : Prop where
  length_eq : w.length = w2.length
  lt : idx < w.length
  ne : w.getD idx 0 ≠ w2.getD idx 0
  before : ∀ j < idx, w.getD j 0 = w2.getD j 0

/-- The loop of `find_first_mismatch` (lines 2706–2753), from `i` on. -/
def findFirstMismatchFrom (logs1 logs2 : List U64) (i : ℕ) : Exec (Bool × ℕ × U64 × U64) :=
  if i < logs1.length then do
    let x ← index logs1 i
    let y ← index logs2 i
    if x ≠ y then pure (true, i, x, y) else findFirstMismatchFrom logs1 logs2 (i + 1)
  else pure (false, 0, 0#64, 0#64)
termination_by logs1.length - i

/-- Model of `find_first_mismatch` (lines 2691–2754). -/
def findFirstMismatch (logs1 logs2 : List U64) : Exec (Bool × ℕ × U64 × U64) :=
  findFirstMismatchFrom logs1 logs2 0

/-- Model of `same_or_first_mismatch_index` (lines 2756–2773). -/
def sameOrFirstMismatchIndex (logs1 logs2 : List U64) : Exec (Bool × ℕ) := do
  let t ← findFirstMismatch logs1 logs2
  pure (if t.1 then (true, t.2.1) else (false, 0))

/-- Model of `combine_digest` (lines 3967–3972). -/
def combineDigest (left right p : ℤ) : ℤ := (left + right) % p

/-- Model of `suspicious_left_or_right` (lines 4031–4040). -/
def SuspiciousLeftOrRight (expectedLeft expectedRight observedLeft observedRight : ℤ) : Prop :=
  expectedLeft ≠ observedLeft ∨ expectedRight ≠ observedRight

/-- Model of `is_domain_mod_p` (lines 1760–1768), which `is_prime_int_strong` and
    `is_prime_int` repeat. -/
def IsDomainModP (p : ℤ) : Prop :=
  1 < p ∧ ∀ x y : ℤ, 0 < x ∧ x < p ∧ 0 < y ∧ y < p → x * y % p ≠ 0

/-- The statement of `theorem_single_edit_detected_strong` (lines 2419–2437) for one
    modulus, without its assumption on the modulus. -/
def SingleEditsDetected (p : ℤ) : Prop :=
  ∀ (w w2 : List U64) (a : ℕ) (q : ℤ), 0 < q → q < p → w.length = w2.length → a < w.length →
    (w2.getD a 0).toNat < (w.getD a 0).toNat → (w.getD a 0).toNat < p → (w2.getD a 0).toNat < p →
    (∀ i < w.length, i ≠ a → w.getD i 0 = w2.getD i 0) → ramanujanSpec w q p ≠ ramanujanSpec w2 q p

/-! ## The scan -/

section

variable {logs1 logs2 : List U64}

theorem findFirstMismatchFrom_returns (hlen : logs1.length = logs2.length) (i : ℕ)
    (hbefore : ∀ j < i, logs1.getD j 0 = logs2.getD j 0) :
    Returns (findFirstMismatchFrom logs1 logs2 i) fun res =>
      (res.1 = true → FirstMismatchAt logs1 logs2 res.2.1 ∧ res.2.2.1 = logs1.getD res.2.1 0 ∧
        res.2.2.2 = logs2.getD res.2.1 0) ∧ (res.1 = false → logs1 = logs2) := by
  -- Induction on the number of entries that are left.
  induction hk : logs1.length - i generalizing i with
  | zero =>
    have hall : ¬ i < logs1.length := by omega
    rw [findFirstMismatchFrom, if_neg hall]
    refine Returns.pure ⟨by simp, fun _ => List.ext_getElem hlen fun j h1 h2 => ?_⟩
    have hj := hbefore j (by omega)
    rwa [List.getD_eq_getElem _ _ h1, List.getD_eq_getElem _ _ h2] at hj
  | succ k ih =>
    have hlt : i < logs1.length := by omega
    have hlt2 : i < logs2.length := by omega
    rw [findFirstMismatchFrom, if_pos hlt, index_of_lt hlt, ok_bind, index_of_lt hlt2, ok_bind]
    have h1 := List.getD_eq_getElem logs1 0 hlt
    have h2 := List.getD_eq_getElem logs2 0 hlt2
    by_cases hne : logs1[i] ≠ logs2[i]
    · rw [if_pos hne]
      refine Returns.pure ⟨fun _ => ⟨⟨hlen, hlt, ?_, hbefore⟩, h1.symm, h2.symm⟩, by simp⟩
      show logs1.getD i 0 ≠ logs2.getD i 0
      rwa [h1, h2]
    · rw [if_neg hne]
      refine ih (i + 1) (fun j hj => ?_) (by omega)
      rcases Nat.lt_succ_iff_lt_or_eq.mp hj with hj | rfl
      · exact hbefore j hj
      · rw [h1, h2]
        exact not_not.mp hne

/-- The postcondition of `find_first_mismatch`, with a result for every pair of logs of one
    length. -/
theorem findFirstMismatch_returns (hlen : logs1.length = logs2.length) :
    Returns (findFirstMismatch logs1 logs2) fun res =>
      (res.1 = true → FirstMismatchAt logs1 logs2 res.2.1 ∧ res.2.2.1 = logs1.getD res.2.1 0 ∧
        res.2.2.2 = logs2.getD res.2.1 0) ∧ (res.1 = false → logs1 = logs2) :=
  findFirstMismatchFrom_returns hlen 0 fun j hj => absurd hj (Nat.not_lt_zero j)

theorem sameOrFirstMismatchIndex_of_ne (hlen : logs1.length = logs2.length) (hne : logs1 ≠ logs2) :
    ∃ i, sameOrFirstMismatchIndex logs1 logs2 = .ok (true, i) ∧ FirstMismatchAt logs1 logs2 i := by
  obtain ⟨⟨found, i, x, y⟩, hres, htrue, hfalse⟩ := findFirstMismatch_returns hlen
  cases found with
  | false => exact absurd (hfalse rfl) hne
  | true =>
    refine ⟨i, ?_, (htrue rfl).1⟩
    rw [sameOrFirstMismatchIndex, hres, ok_bind]
    rfl

end

/-! ## The two parts of a range -/

section

variable {q p : ℤ} {a b a' b' : List U64}

@[simp] theorem ramanujanShiftedSpec_nil (q p offset : ℤ) :
    ramanujanShiftedSpec [] q p offset = 0 := by
  rw [ramanujanShiftedSpec, dif_pos rfl]

/-- One more log entry. -/
theorem ramanujanShiftedSpec_concat (logs : List U64) (x : U64) (q p : ℤ) (s : ℕ) :
    ramanujanShiftedSpec (logs ++ [x]) q p s =
      (ramanujanShiftedSpec logs q p s + x.toNat * (q ^ tri (s + logs.length) % p)) % p := by
  have hlen : (s : ℤ) + (((logs ++ [x]).length : ℤ) - 1) = (s + logs.length : ℕ) := by simp
  rw [ramanujanShiftedSpec, dif_neg (by simp)]
  simp only [hlen, triExp_natCast, specPow_natCast, List.dropLast_concat, List.getLast_concat]

theorem ramanujanShiftedSpec_range (logs : List U64) (q : ℤ) (hp : 0 < p) (s : ℕ) :
    0 ≤ ramanujanShiftedSpec logs q p s ∧ ramanujanShiftedSpec logs q p s < p := by
  induction logs using List.reverseRecOn with
  | nil => simp [hp]
  | append_singleton logs x _ =>
    rw [ramanujanShiftedSpec_concat]
    exact ⟨Int.emod_nonneg _ hp.ne', Int.emod_lt_of_pos _ hp⟩

/-- `theorem_concat_shifted`: the digest of a range is combined from its parts. -/
theorem ramanujanSpec_append (a b : List U64) (q : ℤ) (hp : 0 < p) :
    ramanujanSpec (a ++ b) q p =
      combineDigest (ramanujanSpec a q p) (ramanujanShiftedSpec b q p a.length) p := by
  induction b using List.reverseRecOn with
  | nil =>
    obtain ⟨hnonneg, hlt⟩ := ramanujanSpec_range a q hp
    rw [List.append_nil, ramanujanShiftedSpec_nil, combineDigest, add_zero,
      Int.emod_eq_of_lt hnonneg hlt]
  | append_singleton b x ih =>
    rw [← List.append_assoc, ramanujanSpec_concat, ih, ramanujanShiftedSpec_concat,
      List.length_append, combineDigest, combineDigest, Int.emod_add_emod, Int.add_emod_emod,
      add_assoc]

theorem combineDigest_eq_iff (left right left' right' p : ℤ) :
    combineDigest left right p = combineDigest left' right' p ↔
      p ∣ (left - left') + (right - right') := by
  have hsum : left + right - (left' + right') = (left - left') + (right - right') := by ring
  rw [combineDigest, combineDigest, Int.emod_eq_emod_iff_emod_sub_eq_zero, hsum,
    ← Int.dvd_iff_emod_eq_zero]

/-- Differences of reduced values that cancel are zero together. -/
theorem eq_iff_eq_of_dvd {l l' r r' : ℤ} (hl : 0 ≤ l ∧ l < p) (hl' : 0 ≤ l' ∧ l' < p)
    (hr : 0 ≤ r ∧ r < p) (hr' : 0 ≤ r' ∧ r' < p) (h : p ∣ (l - l') + (r - r')) :
    l = l' ↔ r = r' := by
  have hsmall : ∀ z, p ∣ z → |z| < p → z = 0 := fun z hz => Int.eq_zero_of_abs_lt_dvd hz
  constructor
  · rintro rfl
    rw [sub_self, zero_add] at h
    have := hsmall _ h (abs_lt.mpr ⟨by omega, by omega⟩)
    omega
  · rintro rfl
    rw [sub_self, add_zero] at h
    have := hsmall _ h (abs_lt.mpr ⟨by omega, by omega⟩)
    omega

/-- A mismatch in the first part is found there. -/
theorem FirstMismatchAt.append_lt {i : ℕ} (h : FirstMismatchAt (a ++ b) (a' ++ b') i)
    (ha : a.length = a'.length) (hne : a ≠ a') : i < a.length := by
  by_contra hge
  apply hne
  refine List.ext_getElem ha fun j h1 h2 => ?_
  have hj := h.before j (by omega)
  rwa [List.getD_append _ _ _ _ h1, List.getD_append _ _ _ _ h2, List.getD_eq_getElem _ _ h1,
    List.getD_eq_getElem _ _ h2] at hj

/-- Before a mismatch in the second part the first parts agree. -/
theorem FirstMismatchAt.append_eq {i : ℕ} (h : FirstMismatchAt (a ++ b) (a' ++ b') i)
    (ha : a.length = a'.length) (hi : a.length ≤ i) : a = a' := by
  by_contra hne
  exact absurd (h.append_lt ha hne) (by omega)

end

/-- Two logs that are cut at one place. The whole digests differ exactly when the
    differences of the parts do not cancel modulo `p`. If they differ, a part is suspicious
    and the scan returns the first mismatch; it lies in the left part if that part is
    suspicious, and the right part is suspicious if it lies there. If they agree, the parts
    are suspicious together or not at all. -/
theorem mismatch_localized (q : ℤ) {p : ℤ} (hp : 0 < p) {a a' b b' : List U64}
    (ha : a.length = a'.length) (hb : b.length = b'.length) :
    (ramanujanSpec (a ++ b) q p = ramanujanSpec (a' ++ b') q p ↔
      p ∣ (ramanujanSpec a q p - ramanujanSpec a' q p) +
        (ramanujanShiftedSpec b q p a.length - ramanujanShiftedSpec b' q p a.length)) ∧
    (ramanujanSpec (a ++ b) q p ≠ ramanujanSpec (a' ++ b') q p →
      SuspiciousLeftOrRight (ramanujanSpec a q p) (ramanujanShiftedSpec b q p a.length)
        (ramanujanSpec a' q p) (ramanujanShiftedSpec b' q p a.length) ∧
      ∃ i, sameOrFirstMismatchIndex (a ++ b) (a' ++ b') = .ok (true, i) ∧
        FirstMismatchAt (a ++ b) (a' ++ b') i ∧
        (ramanujanSpec a q p ≠ ramanujanSpec a' q p → i < a.length) ∧
        (a.length ≤ i →
          ramanujanShiftedSpec b q p a.length ≠ ramanujanShiftedSpec b' q p a.length)) ∧
    (ramanujanSpec (a ++ b) q p = ramanujanSpec (a' ++ b') q p →
      (ramanujanSpec a q p = ramanujanSpec a' q p ↔
        ramanujanShiftedSpec b q p a.length = ramanujanShiftedSpec b' q p a.length)) := by
  have hwhole := ramanujanSpec_append a b q hp
  have hwhole' := ramanujanSpec_append a' b' q hp
  rw [← ha] at hwhole'
  refine ⟨?_, fun hne => ⟨?_, ?_⟩, fun heq => ?_⟩
  · rw [hwhole, hwhole', combineDigest_eq_iff]
  · rw [SuspiciousLeftOrRight]
    by_contra hclean
    rw [not_or, not_not, not_not] at hclean
    exact hne (by rw [hwhole, hwhole', hclean.1, hclean.2])
  · have hlogs : a ++ b ≠ a' ++ b' := fun h => hne (by rw [h])
    have hlen : (a ++ b).length = (a' ++ b').length := by
      rw [List.length_append, List.length_append, ha, hb]
    obtain ⟨i, hi, hfirst⟩ := sameOrFirstMismatchIndex_of_ne hlen hlogs
    refine ⟨i, hi, hfirst, fun hleft => ?_, fun hright heq => ?_⟩
    · exact hfirst.append_lt ha fun h => hleft (by rw [h])
    · -- The left parts agree, so the right digests cannot.
      have hleft := hfirst.append_eq ha hright
      exact hne (by rw [hwhole, hwhole', heq, hleft])
  · rw [hwhole, hwhole', combineDigest_eq_iff] at heq
    exact eq_iff_eq_of_dvd (ramanujanSpec_range a q hp) (ramanujanSpec_range a' q hp)
      (ramanujanShiftedSpec_range b q hp a.length) (ramanujanShiftedSpec_range b' q hp a.length) heq

/-- The logs `[1, 2, 3]` and `[1, 2, 4]`, cut after two entries. -/
theorem mismatch_localized_last :
    ∃ i, sameOrFirstMismatchIndex ([1#64, 2#64] ++ [3#64]) ([1#64, 2#64] ++ [4#64]) = .ok (true, i) ∧
      FirstMismatchAt ([1#64, 2#64] ++ [3#64]) ([1#64, 2#64] ++ [4#64]) i := by
  have hne : ramanujanSpec ([1#64, 2#64] ++ [3#64]) 7 101 ≠
      ramanujanSpec ([1#64, 2#64] ++ [4#64]) 7 101 := by
    rw [ramanujanSpec_concat, ramanujanSpec_concat]
    have hrange := ramanujanSpec_range [1#64, 2#64] 7 (p := 101) (by norm_num)
    have hthree : ((3#64).toNat : ℤ) = 3 := rfl
    have hfour : ((4#64).toNat : ℤ) = 4 := rfl
    have hweight : (7 : ℤ) ^ tri [1#64, 2#64].length % 101 = 40 := by decide
    rw [hthree, hfour, hweight]
    omega
  obtain ⟨-, hmismatch, -⟩ := mismatch_localized 7 (p := 101) (by norm_num)
    (show [1#64, 2#64].length = [1#64, 2#64].length from rfl)
    (show [3#64].length = [4#64].length from rfl)
  obtain ⟨-, i, hi, hfirst, -⟩ := hmismatch hne
  exact ⟨i, hi, hfirst⟩

/-! ## Single edits -/

section

variable {p : ℕ}

/-- `is_domain_mod_p` says that the modulus is prime. -/
theorem isDomainModP_iff_prime : IsDomainModP p ↔ p.Prime := by
  constructor
  · rintro ⟨hp, hdomain⟩
    by_contra hcomp
    obtain ⟨m, hm⟩ := Nat.minFac_dvd p
    have hle := minFac_le_of_eq_mul (by omega) hcomp hm
    have htwo := (Nat.minFac_prime (show p ≠ 1 by omega)).two_le
    have hlt : m < p := by
      rw [hm]
      nlinarith
    refine hdomain p.minFac m ⟨by omega, by omega, by omega, by omega⟩ ?_
    rw [← Nat.cast_mul, ← hm, Int.emod_self]
  · intro hprime
    refine ⟨by exact_mod_cast hprime.one_lt, fun x y ⟨hx, hxp, hy, hyp⟩ hzero => ?_⟩
    rcases (Nat.prime_iff_prime_int.mp hprime).dvd_or_dvd (Int.dvd_of_emod_eq_zero hzero) with h | h
    · exact absurd (Int.le_of_dvd hx h) (by omega)
    · exact absurd (Int.le_of_dvd hy h) (by omega)

/-- One entry that differs leaves one product of the difference of the digests. -/
theorem ramanujanSpec_eq_iff_of_single (hp : 0 < p) {w w2 : List U64} (hlen : w.length = w2.length)
    {a : ℕ} (ha : a < w.length) (h : ∀ i < w.length, i ≠ a → w.getD i 0 = w2.getD i 0) (q : ℕ) :
    ramanujanSpec w q p = ramanujanSpec w2 q p ↔ (p : ℤ) ∣ diffAt w w2 a * (q : ℤ) ^ tri a := by
  have hsum : ∑ i ∈ Finset.range w.length, diffAt w w2 i * (q : ℤ) ^ tri i =
      diffAt w w2 a * (q : ℤ) ^ tri a := by
    apply Finset.sum_eq_single_of_mem a (Finset.mem_range.mpr ha)
    intro i hi hia
    rw [diffAt, h i (Finset.mem_range.mp hi) hia, sub_self, zero_mul]
  rw [ramanujanSpec_eq_iff_dvd hp hlen, hsum]

/-- Modulo a prime every single edit is detected. -/
theorem singleEditsDetected_of_prime (hprime : p.Prime) : SingleEditsDetected p := by
  intro w w2 a q hq hqp hlen ha hlt hw hw2 h heq
  lift q to ℕ using hq.le
  have hint := Nat.prime_iff_prime_int.mp hprime
  have hdvd := (ramanujanSpec_eq_iff_of_single hprime.pos hlen ha h q).mp heq
  rcases hint.dvd_or_dvd hdvd with hdiff | hpow
  · have hle := Int.le_of_dvd (by rw [diffAt]; omega) hdiff
    rw [diffAt] at hle
    omega
  · exact absurd (Int.le_of_dvd hq (hint.dvd_of_dvd_pow hpow)) (by omega)

/-- Modulo a product `m * k` the base `k` does not see an entry `m` at position one. -/
theorem exists_undetected_edit {m k : ℕ} (hk : 0 < k) (hm : 0 < m) (hm64 : m < 2 ^ 64) :
    ramanujanSpec [0#64, BitVec.ofNat 64 m] k (m * k : ℕ) =
      ramanujanSpec [0#64, 0#64] k (m * k : ℕ) := by
  have hone : ∀ i < [0#64, BitVec.ofNat 64 m].length, i ≠ 1 →
      [0#64, BitVec.ofNat 64 m].getD i 0 = [0#64, 0#64].getD i 0 := by
    intro i hi hne
    obtain rfl : i = 0 := by
      simp only [List.length_cons, List.length_nil] at hi
      omega
    rfl
  have hlen : [0#64, BitVec.ofNat 64 m].length = [0#64, 0#64].length := rfl
  rw [ramanujanSpec_eq_iff_of_single (Nat.mul_pos hm hk) hlen (by simp) hone]
  have hdiff : diffAt [0#64, BitVec.ofNat 64 m] [0#64, 0#64] 1 = m := by
    show ((BitVec.ofNat 64 m).toNat : ℤ) - (0 : ℕ) = m
    rw [BitVec.toNat_ofNat, Nat.mod_eq_of_lt hm64, Nat.cast_zero, sub_zero]
  rw [hdiff, tri_one, pow_one]
  push_cast
  exact dvd_rfl

end

/-- The domain assumption of the single-edit theorem cannot be dropped: of the moduli up
    to `2^128` exactly the primes satisfy it, and exactly for these every single edit of
    reduced entries changes the digest in every base. -/
theorem singleEditsDetected_iff {p : ℕ} (hp : 1 < p) (hlt : p < 2 ^ 128) :
    (SingleEditsDetected p ↔ IsDomainModP p) ∧ (IsDomainModP p ↔ p.Prime) := by
  refine ⟨?_, isDomainModP_iff_prime⟩
  rw [isDomainModP_iff_prime]
  refine ⟨fun h => ?_, singleEditsDetected_of_prime⟩
  by_contra hcomp
  obtain ⟨k, hk⟩ := Nat.minFac_dvd p
  have hle := minFac_le_of_eq_mul hp hcomp hk
  have htwo := (Nat.minFac_prime (show p ≠ 1 by omega)).two_le
  generalize p.minFac = m at hk hle htwo
  subst hk
  -- The smaller factor is an entry, the other one the base.
  have hm64 : m < 2 ^ 64 := by nlinarith
  have hmk : k < m * k := by nlinarith
  have hval : (BitVec.ofNat 64 m).toNat = m := by rw [BitVec.toNat_ofNat, Nat.mod_eq_of_lt hm64]
  have hedit := h [0#64, BitVec.ofNat 64 m] [0#64, 0#64] 1 k (by omega) (by omega) rfl (by simp)
    (by simp [hval]; omega) (by simp [hval]; omega) (by simp; omega)
  refine hedit (fun i hi hne => ?_) (exists_undetected_edit (by omega) (by omega) hm64)
  obtain rfl : i = 0 := by
    simp only [List.length_cons, List.length_nil] at hi
    omega
  rfl

/-- Modulo `15` an edit is lost, modulo `101` none is. -/
theorem singleEditsDetected_iff_program : ¬ SingleEditsDetected 15 ∧ SingleEditsDetected 101 := by
  obtain ⟨h15, hprime15⟩ := singleEditsDetected_iff (p := 15) (by norm_num) (by norm_num)
  obtain ⟨h101, hprime101⟩ := singleEditsDetected_iff (p := 101) (by norm_num) (by norm_num)
  refine ⟨fun h => ?_, h101.mpr (hprime101.mpr (by norm_num))⟩
  exact absurd (hprime15.mp (h15.mp h)) (by norm_num)

end TimeFence.Verus
