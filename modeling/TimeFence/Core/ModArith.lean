import TimeFence.Common.SquareMultiply

/-!
# Modular arithmetic of `timefence-core`

Models of `triangular_exp`, `mod_pow`, `mod_mul` and `mod_add`
(`timefence-core/src/ksentry.rs`, lines 85–113) with every `u128` operation
checked, and their specifications for a modulus `1 < p ≤ 2^64`:

* `modMul_rep`, `modAdd_rep`: the product and the sum in `ZMod p`, for all
  `u128` operands; no operation overflows because a product of two residues is
  below `p² ≤ 2^128`.
* `modPow_rep`: square and multiply computes the power in `ZMod p`, for all
  `u128` bases and exponents; `modPow_exact` says it in natural numbers, and
  `modPow_returns_iff` that no larger modulus is free of overflow.
* `triangularExp_returns`: `i(i+1)/2`, for every `u64` index.
-/

namespace TimeFence.Core

open TimeFence.Common TimeFence.Algebra

/-- The moduli for which the accumulator is meant: `1 < p ≤ 2^64`. -/
structure ModulusOk (p : U128) : Prop where
  one_lt : 1 < p.toNat
  le : p.toNat ≤ 2 ^ 64

theorem ModulusOk.pos {p : U128} (hp : ModulusOk p) : 0 < p.toNat := by
  have := hp.one_lt
  omega

/-- The modulus of the repository's demo and tests. -/
theorem modulusOk_demo : ModulusOk 1000000007#128 := ⟨by decide, by decide⟩

/-- The largest residue. -/
theorem toNat_maxResidue {p : U128} (hp : 1 < p.toNat) : (p - 1#128).toNat = p.toNat - 1 :=
  BitVec.toNat_sub_of_le (BitVec.le_def.mpr hp.le)

/-- Above `2^64` its square does not fit. -/
theorem le_of_maxResidue_sq_lt {n : ℕ} (h : (n - 1) * (n - 1) < 2 ^ 128) : n ≤ 2 ^ 64 := by
  by_contra hlarge
  have hge : 2 ^ 64 * 2 ^ 64 ≤ (n - 1) * (n - 1) := Nat.mul_le_mul (by omega) (by omega)
  omega

/-- The product of two residues fits in a `u128`. -/
theorem ModulusOk.mul_lt {p : U128} (hp : ModulusOk p) {a b : ℕ} (ha : a < p.toNat)
    (hb : b < p.toNat) : a * b < 2 ^ 128 := by
  have hle := hp.le
  calc a * b < p.toNat * p.toNat := Nat.mul_lt_mul'' ha hb
    _ ≤ 2 ^ 64 * 2 ^ 64 := Nat.mul_le_mul hle hle
    _ = 2 ^ 128 := by norm_num

/-- The sum of two residues fits in a `u128`. -/
theorem ModulusOk.add_lt {p : U128} (hp : ModulusOk p) {a b : ℕ} (ha : a < p.toNat)
    (hb : b < p.toNat) : a + b < 2 ^ 128 := by
  have := hp.le
  omega

/-! ## `mod_mul` and `mod_add` -/

/-- Model of `mod_mul` (lines 107–109): `((a % p) * (b % p)) % p`. -/
def modMul (a b p : U128) : Exec U128 := do
  let x ← checkedRem a p
  let y ← checkedRem b p
  let m ← checkedMul x y
  checkedRem m p

/-- Model of `mod_add` (lines 111–113): `((a % p) + (b % p)) % p`. -/
def modAdd (a b p : U128) : Exec U128 := do
  let x ← checkedRem a p
  let y ← checkedRem b p
  let s ← checkedAdd x y
  checkedRem s p

section

variable {p : U128} {a b r : U128}

/-- For any modulus the product is right when the product of the residues fits,
    and the run panics when it does not. -/
theorem modMul_rep_of_lt (hp : 0 < p.toNat)
    (h : a.toNat % p.toNat * (b.toNat % p.toNat) < 2 ^ 128) :
    Returns (modMul a b p) fun r => Rep p.toNat r ((a.toNat : ZMod p.toNat) * b.toNat) := by
  refine (checkedRem_returns hp).bind fun x hx => ?_
  refine (checkedRem_returns hp).bind fun y hy => ?_
  refine (checkedMul_returns (by rwa [hx, hy])).bind fun m hm => ?_
  refine (checkedRem_rep hp).mono fun r hr => hr.congr ?_
  rw [hm, hx, hy, Nat.cast_mul, ZMod.natCast_mod, ZMod.natCast_mod]

theorem lt_of_modMul (hp : 0 < p.toNat) (h : modMul a b p = .ok r) :
    a.toNat % p.toNat * (b.toNat % p.toNat) < 2 ^ 128 := by
  obtain ⟨x, hx, h⟩ := bind_eq_ok_iff.mp h
  obtain ⟨y, hy, h⟩ := bind_eq_ok_iff.mp h
  obtain ⟨m, hm, -⟩ := bind_eq_ok_iff.mp h
  rw [← (checkedRem_returns hp).of_eq_ok hx, ← (checkedRem_returns hp).of_eq_ok hy]
  exact lt_of_checkedMul hm

theorem modAdd_rep_of_lt (hp : 0 < p.toNat)
    (h : a.toNat % p.toNat + b.toNat % p.toNat < 2 ^ 128) :
    Returns (modAdd a b p) fun r => Rep p.toNat r ((a.toNat : ZMod p.toNat) + b.toNat) := by
  refine (checkedRem_returns hp).bind fun x hx => ?_
  refine (checkedRem_returns hp).bind fun y hy => ?_
  refine (checkedAdd_returns (by rwa [hx, hy])).bind fun s hs => ?_
  refine (checkedRem_rep hp).mono fun r hr => hr.congr ?_
  rw [hs, hx, hy, Nat.cast_add, ZMod.natCast_mod, ZMod.natCast_mod]

theorem lt_of_modAdd (hp : 0 < p.toNat) (h : modAdd a b p = .ok r) :
    a.toNat % p.toNat + b.toNat % p.toNat < 2 ^ 128 := by
  obtain ⟨x, hx, h⟩ := bind_eq_ok_iff.mp h
  obtain ⟨y, hy, h⟩ := bind_eq_ok_iff.mp h
  obtain ⟨s, hs, -⟩ := bind_eq_ok_iff.mp h
  rw [← (checkedRem_returns hp).of_eq_ok hx, ← (checkedRem_returns hp).of_eq_ok hy]
  exact lt_of_checkedAdd hs

theorem modMul_rep (hp : ModulusOk p) (a b : U128) :
    Returns (modMul a b p) fun r => Rep p.toNat r ((a.toNat : ZMod p.toNat) * b.toNat) :=
  modMul_rep_of_lt hp.pos (hp.mul_lt (Nat.mod_lt _ hp.pos) (Nat.mod_lt _ hp.pos))

theorem modAdd_rep (hp : ModulusOk p) (a b : U128) :
    Returns (modAdd a b p) fun r => Rep p.toNat r ((a.toNat : ZMod p.toNat) + b.toNat) :=
  modAdd_rep_of_lt hp.pos (hp.add_lt (Nat.mod_lt _ hp.pos) (Nat.mod_lt _ hp.pos))

end

/-! ## `mod_pow` -/

/-- The loop `while exp > 0` of `mod_pow` (lines 96–102). -/
def modPowLoop (result base exp p : U128) : Exec U128 :=
  squareMultiply (modMul · · p) result base exp

/-- Model of `mod_pow` (lines 90–105). -/
def modPow (base exp p : U128) : Exec U128 := do
  assertThat (1#128 < p) "p must be > 1"
  let base ← checkedRem base p
  modPowLoop 1#128 base exp p

theorem modPow_rep {p : U128} (hp : ModulusOk p) (base exp : U128) :
    Returns (modPow base exp p) fun r =>
      Rep p.toNat r ((base.toNat : ZMod p.toNat) ^ exp.toNat) := by
  have hone : Rep p.toNat 1#128 1 := rep_one (by norm_num) hp.one_lt
  rw [modPow, assertThat_of (one_lt_of_toNat (by norm_num) hp.one_lt), ok_bind]
  refine (checkedRem_rep hp.pos).bind fun b hb => ?_
  refine (squareMultiply_rep (modMul_rep hp) (by norm_num) exp hone hb).mono fun r hr => ?_
  exact hr.congr (one_mul _)

/-- For every base and every exponent the loop ends, none of its multiplications
    overflows, and the result is the power modulo `p`. -/
theorem modPow_exact {p : U128} (hlt : 1 < p.toNat) (hle : p.toNat ≤ 2 ^ 64) (base exp : U128) :
    ∃ r, modPow base exp p = .ok r ∧ r.toNat = base.toNat ^ exp.toNat % p.toNat := by
  have hp : ModulusOk p := ⟨hlt, hle⟩
  obtain ⟨r, hr, hrep⟩ := modPow_rep hp base exp
  rw [← Nat.cast_pow] at hrep
  exact ⟨r, hr, hrep.toNat_eq_mod⟩

/-- The largest base, cubed modulo the largest prime below `2^64`. -/
theorem modPow_exact_cube :
    ∃ r, modPow (BitVec.allOnes 128) 3#128 18446744073709551557#128 = .ok r ∧
      r.toNat = 42144192000 := by
  obtain ⟨r, hr, hval⟩ := modPow_exact (p := 18446744073709551557#128) (by decide) (by decide)
    (BitVec.allOnes 128) 3#128
  exact ⟨r, hr, by rw [hval]; decide⟩

/-- The bound on the modulus is exact. Above it the base `p - 1` overflows when it
    is squared, also for the exponent `1`, where the square is not used. -/
theorem modPow_returns_iff {p : U128} (hp : 1 < p.toNat) :
    (∀ base exp, ∃ r, modPow base exp p = .ok r) ↔ p.toNat ≤ 2 ^ 64 := by
  constructor
  · intro h
    have hpos : 0 < p.toNat := by omega
    obtain ⟨r, hr⟩ := h (p - 1#128) 1#128
    rw [modPow, assertThat_of (one_lt_of_toNat (by norm_num) hp), ok_bind] at hr
    obtain ⟨b, hb, hr⟩ := bind_eq_ok_iff.mp hr
    have hbval : b.toNat = p.toNat - 1 := by
      rw [(checkedRem_returns hpos).of_eq_ok hb, toNat_maxResidue hp, Nat.mod_eq_of_lt (by omega)]
    -- The first iteration squares the base whatever the next one needs.
    rw [modPowLoop, squareMultiply, if_pos (by decide)] at hr
    obtain ⟨result, -, hr⟩ := bind_eq_ok_iff.mp hr
    obtain ⟨square, hsquare, -⟩ := bind_eq_ok_iff.mp hr
    have hfits := lt_of_modMul hpos hsquare
    rw [hbval, Nat.mod_eq_of_lt (by omega)] at hfits
    exact le_of_maxResidue_sq_lt hfits
  · intro hle base exp
    obtain ⟨r, hr, -⟩ := modPow_rep ⟨hp, hle⟩ base exp
    exact ⟨r, hr⟩

/-! ## `triangular_exp` -/

/-- Model of `triangular_exp` (lines 85–88): `i * (i + 1) / 2` in `u128`. -/
def triangularExp (i : U64) : Exec U128 := do
  let i := i.widen
  let s ← checkedAdd i 1#128
  let m ← checkedMul i s
  pure (m / 2#128)

/-- `i * (i + 1)` fits in a `u128` for every `u64` index. -/
theorem mul_succ_lt_of_u64 (i : U64) : i.toNat * (i.toNat + 1) < 2 ^ 128 := by
  have h := i.isLt
  calc i.toNat * (i.toNat + 1) ≤ i.toNat * 2 ^ 64 := Nat.mul_le_mul_left _ h
    _ < 2 ^ 64 * 2 ^ 64 := Nat.mul_lt_mul_of_pos_right h (by norm_num)
    _ = 2 ^ 128 := by norm_num

theorem triangularExp_returns (i : U64) :
    Returns (triangularExp i) fun t => t.toNat = tri i.toNat := by
  have hlt := mul_succ_lt_of_u64 i
  have h1 : (1#128).toNat = 1 := rfl
  have hadd : i.widen.toNat + (1#128).toNat < 2 ^ 128 := by
    rw [U64.toNat_widen, h1]
    have := i.isLt
    omega
  refine (checkedAdd_returns hadd).bind fun s hs => ?_
  rw [U64.toNat_widen, h1] at hs
  have hmul : i.widen.toNat * s.toNat < 2 ^ 128 := by rwa [U64.toNat_widen, hs]
  refine (checkedMul_returns hmul).bind fun m hm => ?_
  rw [U64.toNat_widen, hs] at hm
  refine Returns.pure ?_
  rw [BitVec.toNat_udiv, hm]
  rfl

end TimeFence.Core
