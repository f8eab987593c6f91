import TimeFence.Verus.Bounded

/-!
# The trusted statements

Fifteen lemmas of `proofs/finaltest_timefence_core_verified.rs` carry
`#[verifier(external_body)]`: the verifier believes their statements without a proof.
One of them is `lemma_nonzero_poly_has_few_roots`. `trustedStatements_hold` proves the
other fourteen, as they stand there; the insertion, deletion and truncation statements
have a weaker bound on the encoding than the collision statements.
-/

namespace TimeFence.Verus

open TimeFence.Common TimeFence.Algebra

/-! ## Model -/

/-- Model of `seq1`, `seq2` and `seq3` (lines 42–52). -/
def seq1 (a : U64) : List U64 := [a]

def seq2 (a b : U64) : List U64 := [a, b]

def seq3 (a b c : U64) : List U64 := [a, b, c]

/-- Model of `encode_len1`, `encode_len2` and `encode_len3` (lines 54–64). -/
def encodeLen1 (a : U64) (_q : ℤ) : ℤ := a.toNat

def encodeLen2 (a b : U64) (q : ℤ) : ℤ := a.toNat + b.toNat * q

def encodeLen3 (a b c : U64) (q : ℤ) : ℤ := a.toNat + b.toNat * q + c.toNat * specPow q 3

/-- What the statements on short traces require: entries up to a bound below the base,
    and the base below the modulus. -/
structure ShortTrace (entries : List U64) (bound q p : U64) : Prop where
  entry_le : ∀ x ∈ entries, x ≤ bound
  bound_lt : bound < q
  one_lt : 1#64 < p
  base_lt : q < p

/-- The statements of the trusted lemmas, under their names. -/
structure TrustedStatements : Prop where
  /-- Lines 134–140. -/
  u128_mod_lt : ∀ x m : U128, 0#128 < m → x % m < m
  /-- Lines 149–164. -/
  term_u64_matches_int : ∀ (li w p termU64 : U64) (term128 : U128), 0#64 < p →
    term128 < p.widen → termU64 = U128.truncate term128 →
    (term128.toNat : ℤ) = ((li.toNat : ℤ) * w.toNat) % p.toNat →
    (termU64.toNat : ℤ) = ((li.toNat : ℤ) * w.toNat) % p.toNat
  /-- Lines 231–239. -/
  triangle_fits_u64 : ∀ i : U64, i.toNat ≤ 4294967295 → i.toNat + 1 < 2 ^ 64 ∧
    i.toNat * (i.toNat + 1) < 2 ^ 64 ∧ (i.toNat : ℤ) * (i.toNat + 1) / 2 = triExp i.toNat
  /-- Lines 241–245. -/
  one_mod_p : ∀ p : ℤ, 1 < p → 1 % p = 1
  /-- Lines 247–250. -/
  spec_pow_three : ∀ q : ℤ, specPow q 3 = q * q * q
  /-- Lines 467–473. -/
  mod_add_multiple : ∀ x k p : ℤ, 1 < p → (x + k * p) % p = x % p
  /-- Lines 575–579. -/
  ramanujan_seq1 : ∀ (a : U64) (q p : ℤ), 1 < p → ramanujanSpec (seq1 a) q p = encodeLen1 a q % p
  /-- Lines 581–585. -/
  ramanujan_seq2 : ∀ (a b : U64) (q p : ℤ), 1 < p →
    ramanujanSpec (seq2 a b) q p = encodeLen2 a b q % p
  /-- Lines 587–591. -/
  ramanujan_seq3 : ∀ (a b c : U64) (q p : ℤ), 1 < p →
    ramanujanSpec (seq3 a b c) q p = encodeLen3 a b c q % p
  /-- Lines 1144–1165. -/
  bounded_collision_free_len2 : ∀ a b c d bound q p : U64, ShortTrace [a, b, c, d] bound q p →
    (bound.toNat : ℤ) + bound.toNat * q.toNat < p.toNat →
    ramanujanSpec (seq2 a b) q.toNat p.toNat = ramanujanSpec (seq2 c d) q.toNat p.toNat →
    seq2 a b = seq2 c d
  /-- Lines 1226–1245. -/
  insertion_detected_len2 : ∀ a b bound q p : U64, ShortTrace [a, b] bound q p → b ≠ 0#64 →
    encodeLen2 a b q.toNat < p.toNat →
    ramanujanSpec (seq1 a) q.toNat p.toNat ≠ ramanujanSpec (seq2 a b) q.toNat p.toNat
  /-- Lines 1247–1266. -/
  deletion_detected_len2 : ∀ a b bound q p : U64, ShortTrace [a, b] bound q p → b ≠ 0#64 →
    encodeLen2 a b q.toNat < p.toNat →
    ramanujanSpec (seq2 a b) q.toNat p.toNat ≠ ramanujanSpec (seq1 a) q.toNat p.toNat
  /-- Lines 1268–1287. -/
  truncation_detected_len2 : ∀ a b bound q p : U64, ShortTrace [a, b] bound q p → b ≠ 0#64 →
    encodeLen2 a b q.toNat < p.toNat →
    ramanujanSpec (seq2 a b) q.toNat p.toNat ≠ ramanujanSpec (seq1 a) q.toNat p.toNat
  /-- Lines 1289–1308. -/
  bounded_collision_free_len3 : ∀ a b c a2 b2 c2 bound q p : U64,
    ShortTrace [a, b, c, a2, b2, c2] bound q p →
    encodeLen3 bound bound bound q.toNat < p.toNat →
    ramanujanSpec (seq3 a b c) q.toNat p.toNat = ramanujanSpec (seq3 a2 b2 c2) q.toNat p.toNat →
    seq3 a b c = seq3 a2 b2 c2

/-! ## Short traces -/

theorem specPow_three (q : ℤ) : specPow q 3 = q * q * q := by
  have h := specPow_natCast q 3
  rw [Nat.cast_ofNat] at h
  rw [h]
  ring

theorem ramanujanSpec_seq1 (a : U64) (q : ℤ) {p : ℤ} (hp : 0 < p) :
    ramanujanSpec (seq1 a) q p = encodeLen1 a q % p := by
  rw [ramanujanSpec_eq_wsum_emod _ q hp]
  simp [seq1, encodeLen1]

theorem ramanujanSpec_seq2 (a b : U64) (q : ℤ) {p : ℤ} (hp : 0 < p) :
    ramanujanSpec (seq2 a b) q p = encodeLen2 a b q % p := by
  rw [ramanujanSpec_eq_wsum_emod _ q hp]
  simp [seq2, encodeLen2, wsum, Finset.sum_range_succ]

theorem ramanujanSpec_seq3 (a b c : U64) (q : ℤ) {p : ℤ} (hp : 0 < p) :
    ramanujanSpec (seq3 a b c) q p = encodeLen3 a b c q % p := by
  rw [ramanujanSpec_eq_wsum_emod _ q hp, encodeLen3, specPow_three]
  simp [seq3, wsum, Finset.sum_range_succ, tri]
  ring_nf

section

variable {bound q p : U64}

/-- Short traces of one length with one value are equal. -/
theorem eq_of_ramanujanSpec_eq {entries w w₂ : List U64} {n : ℕ}
    (h : ShortTrace entries bound q p) (hw : ∀ x ∈ w, x ∈ entries) (hw₂ : ∀ x ∈ w₂, x ∈ entries)
    (hlen : w.length = n) (hlen₂ : w₂.length = n)
    (hroom : (bound.toNat : ℤ) * ∑ i ∈ Finset.range n, (q.toNat : ℤ) ^ tri i < p.toNat)
    (heq : ramanujanSpec w q.toNat p.toNat = ramanujanSpec w₂ q.toNat p.toNat) : w = w₂ := by
  have hbound : Bounded n bound.toNat w :=
    ⟨hlen.le, fun x hx => BitVec.le_def.mp (h.entry_le x (hw x hx))⟩
  have hbound₂ : Bounded n bound.toNat w₂ :=
    ⟨hlen₂.le, fun x hx => BitVec.le_def.mp (h.entry_le x (hw₂ x hx))⟩
  have hpadded := (ramanujanSpec_eq_iff_padded (BitVec.lt_def.mp h.bound_lt) hroom hbound
    hbound₂).mp heq
  rwa [padded_of_length_eq (hlen.trans hlen₂.symm), padded_of_length_eq (hlen₂.trans hlen.symm)]
    at hpadded

/-- A second entry other than zero moves the value. -/
theorem ramanujanSpec_seq1_ne_seq2 {a b : U64} (h : ShortTrace [a, b] bound q p) (hb : b ≠ 0#64)
    (hroom : encodeLen2 a b q.toNat < p.toNat) :
    ramanujanSpec (seq1 a) q.toNat p.toNat ≠ ramanujanSpec (seq2 a b) q.toNat p.toNat := by
  have hq : 0 < q.toNat := by
    have := BitVec.lt_def.mp h.bound_lt
    omega
  have hp : (0 : ℤ) < p.toNat := by
    have := BitVec.lt_def.mp h.one_lt
    omega
  have hbpos : 0 < b.toNat := Nat.pos_of_ne_zero fun h0 => hb (BitVec.eq_of_toNat_eq h0)
  have hadded : (0 : ℤ) < b.toNat * q.toNat := by
    exact_mod_cast Nat.mul_pos hbpos hq
  rw [encodeLen2] at hroom
  rw [ramanujanSpec_seq1 a _ hp, ramanujanSpec_seq2 a b _ hp, encodeLen1, encodeLen2,
    Int.emod_eq_of_lt (by omega) (by omega), Int.emod_eq_of_lt (by omega) hroom]
  omega

end

/-- All of them hold. -/
theorem trustedStatements_hold : TrustedStatements where
  u128_mod_lt x m hm := by
    rw [BitVec.lt_def, BitVec.toNat_umod]
    exact Nat.mod_lt _ (BitVec.lt_def.mp hm)
  term_u64_matches_int li w p termU64 term128 _ hlt htrunc hterm := by
    have hlt64 : term128.toNat < 2 ^ 64 := by
      have := BitVec.lt_def.mp hlt
      rw [U64.toNat_widen] at this
      exact this.trans p.isLt
    rw [htrunc, U128.toNat_truncate hlt64, hterm]
  triangle_fits_u64 i hi := by
    refine ⟨by omega, mul_succ_lt_of_u32 (by omega), ?_⟩
    rw [triExp]
  one_mod_p p hp := Int.emod_eq_of_lt (by norm_num) hp
  spec_pow_three := specPow_three
  mod_add_multiple x k p _ := Int.add_mul_emod_self_right x k p
  ramanujan_seq1 a q p hp := ramanujanSpec_seq1 a q (by omega)
  ramanujan_seq2 a b q p hp := ramanujanSpec_seq2 a b q (by omega)
  ramanujan_seq3 a b c q p hp := ramanujanSpec_seq3 a b c q (by omega)
  bounded_collision_free_len2 a b c d bound q p h hroom heq := by
    refine eq_of_ramanujanSpec_eq (n := 2) h (by simp [seq2]) (by simp [seq2]) rfl rfl ?_ heq
    rw [Finset.sum_range_succ, Finset.sum_range_one, tri_zero, tri_one, pow_zero, pow_one, mul_add,
      mul_one]
    exact hroom
  insertion_detected_len2 a b bound q p h hb hroom := ramanujanSpec_seq1_ne_seq2 h hb hroom
  deletion_detected_len2 a b bound q p h hb hroom := (ramanujanSpec_seq1_ne_seq2 h hb hroom).symm
  truncation_detected_len2 a b bound q p h hb hroom := (ramanujanSpec_seq1_ne_seq2 h hb hroom).symm
  bounded_collision_free_len3 a b c a2 b2 c2 bound q p h hroom heq := by
    refine eq_of_ramanujanSpec_eq (n := 3) h (by simp +contextual [seq3])
      (by simp +contextual [seq3]) rfl rfl ?_ heq
    have hsum : (bound.toNat : ℤ) * ∑ i ∈ Finset.range 3, (q.toNat : ℤ) ^ tri i =
        encodeLen3 bound bound bound q.toNat := by
      rw [encodeLen3, specPow_three]
      simp [Finset.sum_range_succ, tri]
      ring
    rw [hsum]
    exact hroom

end TimeFence.Verus
