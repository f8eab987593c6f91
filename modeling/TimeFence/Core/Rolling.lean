import TimeFence.Algebra.Rebase
import TimeFence.Core.ModArith

/-!
# The rolling-hash baseline

Model of `timefence-core/src/rolling.rs`: the accumulator with the weights
`q^i` that K-Sentry is compared with (lines 5–52), the digest of a chunk placed
at global index `shift` (lines 54–64), and the rebasing of a local digest by one
scalar (lines 66–69).

* `RollingHash.update_refines`: one update multiplies one register only.
* `rollingRebaseDigest_eq`: multiplying the local digest by `q^shift` gives the
  digest at `shift`, for every stream, every base and every shift. The
  triangular accumulator admits this only when `q^shift = 1`.
-/

namespace TimeFence.Core

open TimeFence.Common TimeFence.Algebra

/-! ## Model -/

/-- `struct RollingHash` (lines 5–12). -/
structure RollingHash where
  q : U128
  p : U128
  n : U64
  acc : U128
  weight : U128
  deriving DecidableEq, Repr

namespace RollingHash

/-- Model of `RollingHash::new` (lines 15–26). -/
def new (q p : U128) : Exec RollingHash := do
  assertThat (1#128 < p) "p must be > 1"
  assertThat (0#128 < q) "q must be > 0"
  let q' ← checkedRem q p
  pure { q := q', p := p, n := 0#64, acc := 0#128, weight := 1#128 }

/-- Model of `RollingHash::update` (lines 28–33). -/
def update (st : RollingHash) (x : U128) : Exec RollingHash := do
  let x ← checkedRem x st.p
  let term ← modMul x st.weight st.p
  let acc ← modAdd st.acc term st.p
  let weight ← modMul st.weight st.q st.p
  let n ← checkedAdd st.n 1#64
  pure { st with acc := acc, weight := weight, n := n }

/-- Model of `RollingHash::digest` (lines 35–37). -/
def digest (st : RollingHash) : U128 := st.acc

/-- Model of `RollingHash::position` (lines 39–41). -/
def position (st : RollingHash) : U64 := st.n

end RollingHash

/-- Model of `rolling_hash` (lines 44–52). -/
def rollingHash (xs : List U128) (q p : U128) : Exec RollingHash := do
  let st ← RollingHash.new q p
  xs.foldlM RollingHash.update st

/-- Model of `rolling_shifted_spec` (lines 54–64). -/
def rollingShiftedSpec (xs : List U128) (q p : U128) (shift : U64) : Exec U128 :=
  xs.zipIdx.foldlM (fun acc (x, i) => do
    let exp ← checkedAdd (U64.widen (BitVec.ofNat 64 i)) shift.widen
    let w ← modPow q exp p
    let term ← modMul x w p
    modAdd acc term p) 0#128

/-- Model of `rolling_rebase_digest` (lines 66–69). -/
def rollingRebaseDigest (localDigest q p : U128) (shift : U64) : Exec U128 := do
  let scalar ← modPow q shift.widen p
  modMul localDigest scalar p

/-! ## The accumulator -/

section

variable {q p : U128}

/-- The digest of a stream at global index `s`, as an element of `ZMod p`. -/
def rollingDigestOf (q p : U128) (s : ℕ) (xs : List U128) : ZMod p.toNat :=
  wsum (fun i => (q.toNat : ZMod p.toNat) ^ (s + i)) (residues p.toNat xs)

theorem rollingDigestOf_nil (q p : U128) (s : ℕ) : rollingDigestOf q p s [] = 0 := wsum_nil _

theorem rollingDigestOf_concat (q p : U128) (s : ℕ) (xs : List U128) (x : U128) :
    rollingDigestOf q p s (xs ++ [x]) =
      rollingDigestOf q p s xs + x.toNat * (q.toNat : ZMod p.toNat) ^ (s + xs.length) := by
  rw [rollingDigestOf, residues_concat, wsum_concat, length_residues]
  rfl

/-- After the stream `xs` every register holds its closed form. -/
structure RollingHash.Refines (q p : U128) (xs : List U128) (st : RollingHash) : Prop where
  p_eq : st.p = p
  n_eq : st.n.toNat = xs.length
  q_rep : Rep p.toNat st.q (q.toNat : ZMod p.toNat)
  acc_rep : Rep p.toNat st.acc (rollingDigestOf q p 0 xs)
  weight_rep : Rep p.toNat st.weight ((q.toNat : ZMod p.toNat) ^ xs.length)

theorem RollingHash.new_refines (hp : ModulusOk p) (hq : 0 < q.toNat) :
    Returns (RollingHash.new q p) (RollingHash.Refines q p []) := by
  rw [RollingHash.new, assertThat_of (one_lt_of_toNat (by norm_num) hp.one_lt), ok_bind,
    assertThat_of (zero_lt_of_toNat hq), ok_bind]
  refine (checkedRem_rep hp.pos).bind fun q' hq' => ?_
  exact Returns.pure
    { p_eq := rfl
      n_eq := rfl
      q_rep := hq'
      acc_rep := (rep_zero hp.pos).congr (rollingDigestOf_nil q p 0).symm
      weight_rep := (rep_one (by norm_num) hp.one_lt).congr (pow_zero _).symm }

/-- The step lemma. -/
theorem RollingHash.update_refines (hp : ModulusOk p) {st : RollingHash} {xs : List U128}
    (h : st.Refines q p xs) (hn : xs.length + 1 < 2 ^ 64) (x : U128) :
    Returns (st.update x) (RollingHash.Refines q p (xs ++ [x])) := by
  obtain ⟨hpe, hne, hq, hacc, hweight⟩ := h
  have hadd : st.n.toNat + (1#64).toNat < 2 ^ 64 := by rw [hne]; exact hn
  have hlen : (xs ++ [x]).length = xs.length + 1 := List.length_append
  rw [RollingHash.update, hpe]
  refine (checkedRem_rep hp.pos).bind fun x' hx' => ?_
  refine (modMul_rep hp x' st.weight).bind fun term hterm => ?_
  refine (modAdd_rep hp st.acc term).bind fun acc' hacc' => ?_
  refine (modMul_rep hp st.weight st.q).bind fun weight' hweight' => ?_
  refine (checkedAdd_returns hadd).bind fun n' hn' => ?_
  refine Returns.pure
    { p_eq := rfl
      n_eq := by rw [hn', hne, hlen]; rfl
      q_rep := hq
      acc_rep := hacc'.congr ?_
      weight_rep := hweight'.congr ?_ }
  · rw [hacc.cast, hterm.cast, hx'.cast, hweight.cast, rollingDigestOf_concat, zero_add]
  · rw [hweight.cast, hq.cast, hlen, pow_succ]

/-- The run lemma. -/
theorem rollingHash_refines (hp : ModulusOk p) (hq : 0 < q.toNat) {xs : List U128}
    (hn : xs.length < 2 ^ 64) : Returns (rollingHash xs q p) (RollingHash.Refines q p xs) := by
  refine (RollingHash.new_refines hp hq).bind fun st₀ h₀ => ?_
  refine Returns.foldlM (RollingHash.Refines q p) h₀ fun pre x post st hxs hst => ?_
  exact RollingHash.update_refines hp hst (Nat.lt_of_le_of_lt (length_lt_of_split hxs) hn) x

/-! ## Rebasing -/

/-- The recomputation with shifted exponents; the exponent is a `u128` sum of two
    `u64` values and cannot overflow. -/
theorem rollingShiftedSpec_rep (hp : ModulusOk p) (q : U128) {xs : List U128} (shift : U64)
    (hn : xs.length < 2 ^ 64) :
    Returns (rollingShiftedSpec xs q p shift) fun d =>
      Rep p.toNat d (rollingDigestOf q p shift.toNat xs) := by
  refine Returns.foldlM_wsum (Rep p.toNat) (rep_zero hp.pos) ?_
  intro i x acc z hi hacc
  have hindex := toNat_ofNat_index (hi.trans hn)
  have hadd : (U64.widen (BitVec.ofNat 64 i)).toNat + shift.widen.toNat < 2 ^ 128 := by
    rw [U64.toNat_widen, U64.toNat_widen]
    have h₁ := (BitVec.ofNat 64 i).isLt
    have h₂ := shift.isLt
    omega
  refine (checkedAdd_returns hadd).bind fun exp hexp => ?_
  refine (modPow_rep hp q exp).bind fun w hw => ?_
  refine (modMul_rep hp x w).bind fun term hterm => ?_
  refine (modAdd_rep hp acc term).mono fun d hd => hd.congr ?_
  rw [U64.toNat_widen, U64.toNat_widen, hindex, add_comm] at hexp
  rw [hacc.cast, hterm.cast, hw.cast, hexp]

/-- Moving a stream by `s` positions multiplies its rolling digest by `q^s`. -/
theorem rollingDigestOf_shift (q p : U128) (s : ℕ) (xs : List U128) :
    rollingDigestOf q p s xs = (q.toNat : ZMod p.toNat) ^ s * rollingDigestOf q p 0 xs := by
  rw [rollingDigestOf, wsum_pow_add, rollingDigestOf]
  simp only [zero_add]

/-- The rolling digest is rebaseable by one scalar, without overflow: the
    rebased local digest is the digest recomputed at the global indices. -/
theorem rollingRebaseDigest_eq (hp : ModulusOk p) (hq : 0 < q.toNat) {xs : List U128}
    (hn : xs.length < 2 ^ 64) (shift : U64) :
    ∃ st d, rollingHash xs q p = .ok st ∧ rollingRebaseDigest st.digest q p shift = .ok d ∧
      rollingShiftedSpec xs q p shift = .ok d := by
  obtain ⟨st, hst, h⟩ := rollingHash_refines hp hq hn
  obtain ⟨d, hd, hshifted⟩ := rollingShiftedSpec_rep hp q shift hn
  obtain ⟨scalar, hscalar, hpow⟩ := modPow_rep hp q shift.widen
  obtain ⟨d', hd', hmul⟩ := modMul_rep hp st.digest scalar
  have hrebased : d' = d := by
    rw [hmul.eq_iff hshifted, rollingDigestOf_shift, hpow.cast, U64.toNat_widen, mul_comm,
      ← h.acc_rep.cast]
    rfl
  rw [hrebased] at hd'
  refine ⟨st, d, hst, ?_, hd⟩
  rw [rollingRebaseDigest, hscalar, ok_bind, hd']

/-- The chunk of the repository's rebasing test, at shift `10`. -/
theorem rollingRebaseDigest_eq_demo :
    ∃ st d, rollingHash [101#128, 202#128, 303#128, 404#128] 7#128 1000000007#128 = .ok st ∧
      rollingRebaseDigest st.digest 7#128 1000000007#128 10#64 = .ok d ∧
      rollingShiftedSpec [101#128, 202#128, 303#128, 404#128] 7#128 1000000007#128 10#64 = .ok d :=
  rollingRebaseDigest_eq modulusOk_demo (by decide) (by decide) 10#64

end

end TimeFence.Core
