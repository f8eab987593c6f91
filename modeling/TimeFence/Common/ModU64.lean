import TimeFence.Common.SquareMultiply

/-!
# Modular arithmetic on `u64`

The helpers `add_mod_u64`, `mul_mod_u64` and `pow_mod_u64`. The verified
artifact (`proofs/finaltest_timefence_core_verified.rs`, lines 597–732) and the
two metrics programs (`ksentry-metrics/src/main.rs`, lines 50–76, and
`ksentry-metrics/src/bin/main1.rs`, lines 21–47) each have their own copies.

The sum of two residues may exceed `2^64`, so the addition compares with
`p - b` first; the product is taken in `u128`.
-/

namespace TimeFence.Common

/-! ## Model -/

/-- Model of `add_mod_u64`: `let t = p - b; if a >= t { a - t } else { a + b }`. -/
def addModU64 (a b p : U64) : Exec U64 := do
  let t ← checkedSub p b
  if t ≤ a then checkedSub a t else checkedAdd a b

/-- Model of `mul_mod_u64`: `((a as u128 * b as u128) % (p as u128)) as u64`. -/
def mulModU64 (a b p : U64) : Exec U64 := do
  let prod ← checkedMul a.widen b.widen
  let term128 ← checkedRem prod p.widen
  pure (U128.truncate term128)

/-- Model of `pow_mod_u64`. -/
def powModU64 (base exp p : U64) : Exec U64 := do
  let result ← checkedRem 1#64 p
  let b ← checkedRem base p
  squareMultiply (mulModU64 · · p) result b exp

/-! ## Specifications -/

section

variable {p : U64}

theorem addModU64_rep {a b : U64} (ha : a.toNat < p.toNat) (hb : b.toNat < p.toNat) :
    Returns (addModU64 a b p) fun r => Rep p.toNat r ((a.toNat : ZMod p.toNat) + b.toNat) := by
  have hp : 0 < p.toNat := by omega
  have hlt := p.isLt
  refine (checkedSub_returns hb.le).bind fun t ht => ?_
  have hsum : ∀ r : U64, r.toNat = (a.toNat + b.toNat) % p.toNat →
      Rep p.toNat r ((a.toNat : ZMod p.toNat) + b.toNat) := by
    intro r hr
    rw [← Nat.cast_add]
    exact rep_of_toNat_eq_mod hp hr
  by_cases h : t ≤ a
  · rw [if_pos h]
    rw [BitVec.le_def, ht] at h
    refine (checkedSub_returns (by omega)).mono fun r hr => hsum r ?_
    rw [hr, ht, Nat.mod_eq_sub_mod (by omega), Nat.mod_eq_of_lt (by omega)]
    omega
  · rw [if_neg h]
    rw [BitVec.le_def, ht] at h
    refine (checkedAdd_returns (by omega)).mono fun r hr => hsum r ?_
    rw [hr, Nat.mod_eq_of_lt (by omega)]

/-- The product of two `u64` values fits in a `u128`. -/
theorem mul_lt_of_u64 (a b : U64) : a.toNat * b.toNat < 2 ^ 128 :=
  calc a.toNat * b.toNat < 2 ^ 64 * 2 ^ 64 := Nat.mul_lt_mul'' a.isLt b.isLt
    _ = 2 ^ 128 := by norm_num

/-- Twice the triangular exponent of an index below `2^32` fits in a `u64`. -/
theorem mul_succ_lt_of_u32 {i : ℕ} (h : i < 2 ^ 32) : i * (i + 1) < 2 ^ 64 :=
  calc i * (i + 1) ≤ i * 2 ^ 32 := Nat.mul_le_mul_left i h
    _ < 2 ^ 32 * 2 ^ 32 := Nat.mul_lt_mul_of_pos_right h (by norm_num)
    _ = 2 ^ 64 := by norm_num

theorem mulModU64_rep (hp : 0 < p.toNat) (a b : U64) :
    Returns (mulModU64 a b p) fun r => Rep p.toNat r ((a.toNat : ZMod p.toNat) * b.toNat) := by
  have hmul : a.widen.toNat * b.widen.toNat < 2 ^ 128 := by
    rw [U64.toNat_widen, U64.toNat_widen]
    exact mul_lt_of_u64 a b
  refine (checkedMul_returns hmul).bind fun prod hprod => ?_
  refine (checkedRem_returns (by rwa [U64.toNat_widen])).bind fun term hterm => Returns.pure ?_
  rw [hprod, U64.toNat_widen, U64.toNat_widen, U64.toNat_widen] at hterm
  have hlt : term.toNat < 2 ^ 64 := by
    rw [hterm]
    exact (Nat.mod_lt _ hp).trans p.isLt
  rw [← Nat.cast_mul]
  exact rep_of_toNat_eq_mod hp (by rw [U128.toNat_truncate hlt, hterm])

theorem powModU64_rep (hp : 1 < p.toNat) (base exp : U64) :
    Returns (powModU64 base exp p) fun r =>
      Rep p.toNat r ((base.toNat : ZMod p.toNat) ^ exp.toNat) := by
  have hpos : 0 < p.toNat := by omega
  refine (checkedRem_rep hpos).bind fun result hresult => ?_
  refine (checkedRem_rep hpos).bind fun b hb => ?_
  refine (squareMultiply_rep (mulModU64_rep hpos) (by norm_num) exp hresult hb).mono
    fun r hr => hr.congr ?_
  have h1 : (1#64).toNat = 1 := rfl
  rw [h1, Nat.cast_one, one_mul]

end

end TimeFence.Common
