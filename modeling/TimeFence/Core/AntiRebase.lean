import TimeFence.Algebra.Rebase
import TimeFence.Core.KSentry

/-!
# Shifted digests and anti-rebasing

Model of `timefence-core/src/antirebase.rs`: the digest of a chunk placed at
global index `shift` (`ksentry_shifted_spec`, lines 17–28), its own copy of
`triangular_exp` (lines 30–33), and the rebasing attempt that the demo refutes
(lines 35–64). Results:

* `ksentryFast_append`: a run over `a ++ b` is the run over `a` plus the shifted
  digest of `b` at `a.len()`, modulo `p`.
* `ksentry_rebase_iff`: over a prime field one scalar rebases every chunk of
  length `n ≥ 2` by `s` exactly when `q^s = 1 mod p`.
* `demoKsentryNotOneScalarRebase_returns`: what the demo reports.
-/

namespace TimeFence.Core

open TimeFence.Common TimeFence.Algebra

/-! ## Model -/

/-- The copy of `triangular_exp` in this file (lines 30–33). -/
def AntiRebase.triangularExp (i : U64) : Exec U128 := Core.triangularExp i

/-- Model of `ksentry_shifted_spec` (lines 17–28). The global index is a checked
    `u64` sum, and the accumulator is reduced after an unreduced `u128` sum. -/
def ksentryShiftedSpec (xs : List U128) (q p : U128) (shift : U64) : Exec U128 :=
  xs.zipIdx.foldlM (fun acc (x, i) => do
    let globalI ← checkedAdd (BitVec.ofNat 64 i) shift
    let t ← AntiRebase.triangularExp globalI
    let w ← modPow q t p
    let term ← modMul x w p
    let sum ← checkedAdd acc term
    checkedRem sum p) 0#128

/-- Model of `fake_scalar_rebase` (lines 35–38). -/
def fakeScalarRebase (localDigest q p : U128) (scalarExp : U64) : Exec U128 := do
  let scalar ← modPow q scalarExp.widen p
  modMul localDigest scalar p

/-- Model of `demo_ksentry_not_one_scalar_rebase` (lines 40–64). -/
def demoKsentryNotOneScalarRebase (q p : U128) : Exec Bool := do
  let shift := 1#64
  let a := [1#128, 0#128]
  let b := [0#128, 1#128]
  let localA ← ksentryFast a q p
  let localB ← ksentryFast b q p
  let shiftedA ← ksentryShiftedSpec a q p shift
  let shiftedB ← ksentryShiftedSpec b q p shift
  let scalarExpFromA := 1#64
  let fakeA ← fakeScalarRebase localA.digest q p scalarExpFromA
  let fakeB ← fakeScalarRebase localB.digest q p scalarExpFromA
  pure (fakeA = shiftedA ∧ fakeB ≠ shiftedB)

/-! ## The shifted digest -/

section

variable {q p : U128}

/-- The digest of a chunk at global index `s`, as an element of `ZMod p`. -/
def shiftedDigestOf (q p : U128) (s : ℕ) (xs : List U128) : ZMod p.toNat :=
  shiftedSum (q.toNat : ZMod p.toNat) s (residues p.toNat xs)

theorem digestOf_append (q p : U128) (a b : List U128) :
    digestOf q p (a ++ b) = digestOf q p a + shiftedDigestOf q p a.length b := by
  rw [digestOf, residues_append, wsum_triWeight_append, length_residues]
  rfl

/-- The loop accumulates the shifted digest: the global index is the local one
    plus the shift. -/
theorem ksentryShiftedSpec_rep (hp : ModulusOk p) (q : U128) (xs : List U128) (shift : U64)
    (hn : xs.length + shift.toNat < 2 ^ 64) :
    Returns (ksentryShiftedSpec xs q p shift) fun d =>
      Rep p.toNat d (shiftedDigestOf q p shift.toNat xs) := by
  refine Returns.foldlM_wsum (Rep p.toNat) (rep_zero hp.pos) ?_
  intro i x acc z hi hacc
  have hindex : (BitVec.ofNat 64 i).toNat = i := toNat_ofNat_index (by omega)
  refine (checkedAdd_returns (by rw [hindex]; omega)).bind fun globalI hg => ?_
  refine (triangularExp_returns globalI).bind fun t ht => ?_
  refine (modPow_rep hp q t).bind fun w hw => ?_
  refine (modMul_rep hp x w).bind fun term hterm => ?_
  refine (checkedAdd_returns (hp.add_lt hacc.lt hterm.lt)).bind fun sum hsum => ?_
  refine (checkedRem_rep hp.pos).mono fun d hd => hd.congr ?_
  rw [hsum, Nat.cast_add, hacc.cast, hterm.cast, hw.cast, ht, hg, hindex, add_comm i]
  rfl

/-! ## Segment composition -/

/-- A run that crosses the cut between `a` and `b` ends in the digest of `a`
    plus the digest of `b` recomputed at the global indices from `a.len()` on. -/
theorem ksentryFast_append (hp : ModulusOk p) (hq : 0 < q.toNat) {a b : List U128}
    (hn : a.length + b.length < 2 ^ 64) :
    ∃ sta st d, ksentryFast a q p = .ok sta ∧ ksentryFast (a ++ b) q p = .ok st ∧
      ksentryShiftedSpec b q p (BitVec.ofNat 64 a.length) = .ok d ∧
      sta.digest.toNat + d.toNat < 2 ^ 128 ∧
      st.digest.toNat = (sta.digest.toNat + d.toNat) % p.toNat := by
  have ha : (BitVec.ofNat 64 a.length).toNat = a.length := toNat_ofNat_index (by omega)
  obtain ⟨sta, hsta, hda⟩ := ksentryFast_digest hp hq a (by omega)
  obtain ⟨st, hst, hd⟩ := ksentryFast_digest hp hq (a ++ b)
    (by rw [List.length_append]; exact hn)
  obtain ⟨d, hshift, hdb⟩ :=
    ksentryShiftedSpec_rep hp q b (BitVec.ofNat 64 a.length) (by rw [ha]; omega)
  have hsum : digestOf q p (a ++ b) = ((sta.digest.toNat + d.toNat : ℕ) : ZMod p.toNat) := by
    rw [digestOf_append, Nat.cast_add, hda.cast, hdb.cast, ha]
  exact ⟨sta, st, d, hsta, hst, hshift, hp.add_lt hda.lt hdb.lt, (hd.congr hsum).toNat_eq_mod⟩

/-- The cut of `[1, 2, 3]` after its first element. -/
theorem ksentryFast_append_demo :
    ∃ sta st d, ksentryFast [1#128] 7#128 1000000007#128 = .ok sta ∧
      ksentryFast ([1#128] ++ [2#128, 3#128]) 7#128 1000000007#128 = .ok st ∧
      ksentryShiftedSpec [2#128, 3#128] 7#128 1000000007#128 (BitVec.ofNat 64 1) = .ok d ∧
      sta.digest.toNat + d.toNat < 2 ^ 128 ∧
      st.digest.toNat = (sta.digest.toNat + d.toNat) % 1000000007 :=
  ksentryFast_append modulusOk_demo (by decide) (by decide)

/-! ## The anti-rebase law -/

/-- A scalar that rebases one chunk, as an equation in `ZMod p`. -/
theorem rebases_chunk_iff (hp : ModulusOk p) (hq : 0 < q.toNat) {xs : List U128} {shift : U64}
    (hn : xs.length + shift.toNat < 2 ^ 64) (c : U128) :
    (∃ st d, ksentryFast xs q p = .ok st ∧ ksentryShiftedSpec xs q p shift = .ok d ∧
      modMul c st.digest p = .ok d) ↔
      shiftedDigestOf q p shift.toNat xs = (c.toNat : ZMod p.toNat) * digestOf q p xs := by
  obtain ⟨st, hst, hdst⟩ := ksentryFast_digest hp hq xs (by omega)
  obtain ⟨d, hd, hdd⟩ := ksentryShiftedSpec_rep hp q xs shift hn
  obtain ⟨r, hr, hdr⟩ := modMul_rep hp c st.digest
  rw [hdst.cast] at hdr
  rw [← hdd.eq_iff hdr]
  constructor
  · rintro ⟨st', d', hst', hd', hmul⟩
    rw [hst] at hst'
    rw [hd] at hd'
    cases hst'
    cases hd'
    rw [hr] at hmul
    cases hmul
    rfl
  · rintro rfl
    exact ⟨st, d, hst, hd, hr⟩

/-- Over a prime field, one scalar `c < p` turns the local digest of every chunk
    of length `n ≥ 2` into its digest at `s` exactly when `q^s = 1 mod p`. -/
theorem ksentry_rebase_iff (hprime : p.toNat.Prime) (hle : p.toNat ≤ 2 ^ 64)
    (hq : q.toNat % p.toNat ≠ 0) {s : U64} {n : ℕ} (hn : 2 ≤ n) (hsn : s.toNat + n < 2 ^ 64) :
    (∃ c : U128, c.toNat < p.toNat ∧ ∀ xs : List U128, xs.length = n →
      ∃ st d, ksentryFast xs q p = .ok st ∧ ksentryShiftedSpec xs q p s = .ok d ∧
        modMul c st.digest p = .ok d) ↔
      q.toNat ^ s.toNat % p.toNat = 1 := by
  have hp : ModulusOk p := ⟨hprime.one_lt, hle⟩
  have : Fact p.toNat.Prime := ⟨hprime⟩
  have hq0 := pos_of_mod_ne_zero hq
  have hqz : (q.toNat : ZMod p.toNat) ≠ 0 := natCast_ne_zero_iff_mod.mpr hq
  have hchunk : ∀ (c : U128) (xs : List U128), xs.length = n →
      ((∃ st d, ksentryFast xs q p = .ok st ∧ ksentryShiftedSpec xs q p s = .ok d ∧
        modMul c st.digest p = .ok d) ↔
        shiftedDigestOf q p s.toNat xs = (c.toNat : ZMod p.toNat) * digestOf q p xs) :=
    fun c xs hxs => rebases_chunk_iff hp hq0 (by omega) c
  have hwidth : p.toNat ≤ 2 ^ 128 := p.isLt.le
  rw [← natCast_pow_eq_one_iff_mod hp.one_lt, ← rebaseable_iff hqz s.toNat hn]
  constructor
  · rintro ⟨c, -, hc⟩
    -- Every list of residues comes from a stream of `u128` values.
    refine ⟨(c.toNat : ZMod p.toNat), fun zs hzs => ?_⟩
    have hlen : (zs.map (ofResidue 128)).length = n := by rw [List.length_map, hzs]
    have h := (hchunk c _ hlen).mp (hc _ hlen)
    rwa [shiftedDigestOf, digestOf, residues_map_ofResidue hp.pos hwidth] at h
  · rintro ⟨c, hc⟩
    have hrep := rep_ofResidue hp.pos hwidth c
    refine ⟨ofResidue 128 c, hrep.lt, fun xs hxs => (hchunk _ xs hxs).mpr ?_⟩
    rw [hrep.cast]
    exact hc _ (by rw [length_residues, hxs])

/-- With `q = 7` and `p = 101` no scalar rebases the chunks of length `2` by one
    position, the shift that the demo tries. -/
theorem ksentry_rebase_iff_shift_one :
    ¬ ∃ c : U128, c.toNat < 101 ∧ ∀ xs : List U128, xs.length = 2 →
      ∃ st d, ksentryFast xs 7#128 101#128 = .ok st ∧
        ksentryShiftedSpec xs 7#128 101#128 1#64 = .ok d ∧
        modMul c st.digest 101#128 = .ok d := by
  have h := ksentry_rebase_iff (q := 7#128) (p := 101#128) (s := 1#64) (n := 2)
    (by norm_num) (by decide) (by decide) le_rfl (by decide)
  exact fun hc => absurd (h.mp hc) (by decide)

/-! ## The demo -/

theorem fakeScalarRebase_rep (hp : ModulusOk p) (localDigest : U128) (scalarExp : U64) :
    Returns (fakeScalarRebase localDigest q p scalarExp) fun r =>
      Rep p.toNat r ((localDigest.toNat : ZMod p.toNat) * (q.toNat : ZMod p.toNat) ^ scalarExp.toNat) := by
  refine (modPow_rep hp q scalarExp.widen).bind fun scalar hscalar => ?_
  refine (modMul_rep hp localDigest scalar).mono fun r hr => hr.congr ?_
  rw [hscalar.cast, U64.toNat_widen]

/-- The residues of the two one-hot chunks. -/
theorem residues_hot_zero (p : ℕ) : residues p [1#128, 0#128] = [1] ++ List.replicate 1 0 := by
  simp [residues]

theorem residues_hot_one (p : ℕ) : residues p [0#128, 1#128] = [0, 1] ++ List.replicate 0 0 := by
  simp [residues]

/-- The demo reports that the scalar `q` of the first chunk fails on the second
    one. That is so exactly when `q² ≠ q³ mod p`. -/
theorem demoKsentryNotOneScalarRebase_returns (hp : ModulusOk p) (hq : 0 < q.toNat) :
    Returns (demoKsentryNotOneScalarRebase q p) fun b =>
      b = true ↔ q.toNat ^ 2 % p.toNat ≠ q.toNat ^ 3 % p.toNat := by
  refine (ksentryFast_digest hp hq _ (by decide)).bind fun localA hA => ?_
  refine (ksentryFast_digest hp hq _ (by decide)).bind fun localB hB => ?_
  refine (ksentryShiftedSpec_rep hp q _ 1#64 (by decide)).bind fun shiftedA hSA => ?_
  refine (ksentryShiftedSpec_rep hp q _ 1#64 (by decide)).bind fun shiftedB hSB => ?_
  refine (fakeScalarRebase_rep hp localA.digest 1#64).bind fun fakeA hFA => ?_
  refine (fakeScalarRebase_rep hp localB.digest 1#64).bind fun fakeB hFB => ?_
  have h1 : (1#64).toNat = 1 := rfl
  -- The scalar taken from the first chunk fits the first chunk.
  have hfit : fakeA = shiftedA := by
    rw [hFA.eq_iff hSA, hA.cast, digestOf, shiftedDigestOf, ← shiftedSum_zero, residues_hot_zero,
      shiftedSum_hot_zero, shiftedSum_hot_zero, triWeight_zero, one_mul]
    rfl
  have hfail : fakeB = shiftedB ↔ q.toNat ^ 2 % p.toNat = q.toNat ^ 3 % p.toNat := by
    rw [hFB.eq_iff hSB, hB.cast, digestOf, shiftedDigestOf, ← shiftedSum_zero, residues_hot_one,
      shiftedSum_hot_one, shiftedSum_hot_one, h1, zero_add, triWeight_one, pow_one, ← sq,
      ← ZMod.natCast_eq_natCast_iff', Nat.cast_pow, Nat.cast_pow]
    rfl
  refine Returns.pure ?_
  rw [decide_eq_true_iff, Ne, hfail]
  exact ⟨fun h => h.2, fun h => ⟨hfit, h⟩⟩

end

end TimeFence.Core
