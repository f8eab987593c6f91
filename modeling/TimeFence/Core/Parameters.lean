import TimeFence.Core.KSentry

/-!
# What the constructor's assertions admit

`KSentry::new` asserts `p > 1` and `q > 0` and then reduces `q` modulo `p`. The
two assertions leave room for two defects.

* `neverOverflows_iff`: a modulus above `2^64` lets a product of two residues
  leave the `u128` range. All accepted bases are safe exactly when `p ≤ 2^64`; for
  a single base the exact condition is `ParametersFit`.
* `nondegenerate_iff`: a base that is a multiple of `p` passes `q > 0` and is
  reduced to `0`. Over a prime field the weights stay nonzero exactly when
  `q mod p ≠ 0`.
-/

namespace TimeFence.Core

open TimeFence.Common TimeFence.Algebra

section

variable {q p : U128}

/-! ## Overflow -/

/-- With the parameters `q` and `p` no product and no sum of any run leaves the
    `u128` range. The run is that of the registers; the position, which has its
    own limit of `2^64`, is left aside. -/
def NeverOverflows (q p : U128) : Prop :=
  ∀ xs : List U128, ∃ st₀ st, KSentry.new q p = .ok st₀ ∧ xs.foldlM KSentry.accumulate st₀ = .ok st

/-- The condition on `q` and `p`: the largest residue times each weight fits, and
    so does the sum of two residues, unless all weights but the first vanish. -/
structure ParametersFit (q p : ℕ) : Prop where
  product : ∀ n, (p - 1) * (q ^ tri n % p) < 2 ^ 128
  sum : p ≤ 2 ^ 127 ∨ q % p = 0

/-- The registers of a run, as numbers. -/
theorem KSentry.Refines.weight_eq {st : KSentry} {m : ℕ} {zs : List (ZMod p.toNat)}
    (h : st.Refines q p m (Registers.run (q.toNat : ZMod p.toNat) zs)) :
    st.weight.toNat = q.toNat ^ tri zs.length % p.toNat := by
  have hweight := h.weight_rep
  rw [Registers.run_eq] at hweight
  have hcast : Rep p.toNat st.weight ((q.toNat ^ tri zs.length : ℕ) : ZMod p.toNat) :=
    hweight.congr (by push_cast; rfl)
  exact hcast.toNat_eq_mod

/-- Under the condition every update fits. -/
theorem ParametersFit.fits (hf : ParametersFit q.toNat p.toNat) {st : KSentry} {m : ℕ}
    {zs : List (ZMod p.toNat)}
    (h : st.Refines q p m (Registers.run (q.toNat : ZMod p.toNat) zs)) (x : U128) : st.Fits x := by
  have hpos := h.pos
  have hweight := h.weight_eq
  have hx : x.toNat % st.p.toNat ≤ p.toNat - 1 := by
    rw [h.p_eq]
    have := Nat.mod_lt x.toNat hpos
    omega
  have hstep : st.step.toNat ≤ p.toNat - 1 := Nat.le_sub_one_of_lt h.step_rep.lt
  have hprod := hf.product zs.length
  rw [← hweight] at hprod
  refine ⟨(Nat.mul_le_mul_right _ hx).trans_lt hprod, ?_, ?_, ?_⟩
  · rcases hf.sum with hle | hzero
    · have hacc := h.acc_rep.lt
      have hterm : x.toNat % st.p.toNat * st.weight.toNat % st.p.toNat < p.toNat := by
        rw [h.p_eq]
        exact Nat.mod_lt _ hpos
      omega
    · -- The first update adds to `0`, the later ones add `0`.
      cases zs with
      | nil =>
        have hacc : st.acc = 0#128 := h.acc_rep.unique (rep_zero hpos)
        have hmod := Nat.mod_lt (x.toNat % st.p.toNat * st.weight.toNat) (y := st.p.toNat)
          (by rw [h.p_eq]; exact hpos)
        have hlt := st.p.isLt
        rw [hacc, BitVec.toNat_zero, zero_add]
        omega
      | cons z zs =>
        have htri : tri (z :: zs).length ≠ 0 := by
          rw [List.length_cons, tri_succ]
          omega
        rw [Nat.pow_mod, hzero, zero_pow htri, Nat.zero_mod] at hweight
        rw [hweight, mul_zero, Nat.zero_mod, add_zero]
        exact st.acc.isLt
  · rw [mul_comm]
    exact (Nat.mul_le_mul_right _ hstep).trans_lt hprod
  · have hone := hf.product 1
    rw [tri_one, pow_one, ← h.q_rep.toNat_eq_mod] at hone
    exact (Nat.mul_le_mul_right _ hstep).trans_lt hone

/-- The run of the registers follows the abstract machine as far as it goes. -/
theorem accumulate_run_refines (hp : 1 < p.toNat) (hq : 0 < q.toNat) {st₀ st : KSentry}
    {xs : List U128} (hnew : KSentry.new q p = .ok st₀)
    (hrun : xs.foldlM KSentry.accumulate st₀ = .ok st) :
    st.Refines q p 0 (Registers.run (q.toNat : ZMod p.toNat) (residues p.toNat xs)) := by
  refine foldlM_invariant (fun pre (st : KSentry) => st.Refines q p 0
    (Registers.run (q.toNat : ZMod p.toNat) (residues p.toNat pre))) ?_ ?_ hrun
  · exact (KSentry.new_refines hp hq).of_eq_ok hnew
  · intro pre x st st' hst hx
    have hfits := KSentry.fits_of_accumulate hst hx
    rw [residues_concat, Registers.run_concat]
    exact ((KSentry.accumulate_refines hst hfits).of_eq_ok hx).2

/-- Without overflow, every value fits after every stream. -/
theorem NeverOverflows.fits (hp : 1 < p.toNat) (hq : 0 < q.toNat) (hno : NeverOverflows q p)
    (xs : List U128) (x : U128) :
    ∃ st : KSentry, st.Fits x ∧
      st.Refines q p 0 (Registers.run (q.toNat : ZMod p.toNat) (residues p.toNat xs)) := by
  obtain ⟨st₀, st', hnew, hrun⟩ := hno (xs ++ [x])
  obtain ⟨st, hpre, hx⟩ := foldlM_concat_eq_ok_iff.mp hrun
  have hst := accumulate_run_refines hp hq hnew hpre
  exact ⟨st, KSentry.fits_of_accumulate hst hx, hst⟩

/-- After zeros each weight meets the largest residue. -/
theorem NeverOverflows.product (hp : 1 < p.toNat) (hq : 0 < q.toNat) (hno : NeverOverflows q p)
    (n : ℕ) : (p.toNat - 1) * (q.toNat ^ tri n % p.toNat) < 2 ^ 128 := by
  have hmaxmod : (p.toNat - 1) % p.toNat = p.toNat - 1 := Nat.mod_eq_of_lt (by omega)
  obtain ⟨st, hfits, hst⟩ := hno.fits hp hq (List.replicate n 0#128) (p - 1#128)
  have hterm := hfits.term
  rwa [hst.p_eq, toNat_maxResidue hp, hmaxmod, hst.weight_eq, length_residues,
    List.length_replicate] at hterm

/-- Above `2^127` the only weight that fits, apart from `0`, is `1`, and then two
    residues overflow. -/
theorem NeverOverflows.sum (hp : 1 < p.toNat) (hq : 0 < q.toNat) (hno : NeverOverflows q p) :
    p.toNat ≤ 2 ^ 127 ∨ q.toNat % p.toNat = 0 := by
  have hmax := toNat_maxResidue hp
  have hmaxmod : (p.toNat - 1) % p.toNat = p.toNat - 1 := Nat.mod_eq_of_lt (by omega)
  by_contra hneither
  rw [not_or, not_le] at hneither
  obtain ⟨hlarge, hne⟩ := hneither
  have hone : q.toNat % p.toNat = 1 := by
    have h1 := hno.product hp hq 1
    rw [tri_one, pow_one] at h1
    by_contra hne1
    have hmul : (p.toNat - 1) * 2 ≤ (p.toNat - 1) * (q.toNat % p.toNat) :=
      Nat.mul_le_mul_left _ (by omega)
    omega
  obtain ⟨st, hfits, hst⟩ := hno.fits hp hq [p - 1#128] (p - 1#128)
  have hweight : st.weight.toNat = 1 := by
    rw [hst.weight_eq, length_residues, List.length_singleton, tri_one, pow_one, hone]
  have hacc : st.acc.toNat = p.toNat - 1 := by
    have hrep := hst.acc_rep
    rw [Registers.run_acc, residues_singleton, wsum_singleton, triWeight_zero, mul_one, hmax]
      at hrep
    rw [hrep.toNat_eq_mod, hmaxmod]
  have hsum := hfits.sum
  rw [hacc, hst.p_eq, hmax, hmaxmod, hweight, mul_one, hmaxmod] at hsum
  omega

theorem ParametersFit.neverOverflows (hp : 1 < p.toNat) (hq : 0 < q.toNat)
    (hf : ParametersFit q.toNat p.toNat) : NeverOverflows q p := by
  intro xs
  obtain ⟨st₀, hnew, h₀⟩ := KSentry.new_refines hp hq
  have hrun : Returns (xs.foldlM KSentry.accumulate st₀) fun st =>
      st.Refines q p 0 (Registers.run (q.toNat : ZMod p.toNat) (residues p.toNat xs)) := by
    refine Returns.foldlM (fun pre (st : KSentry) =>
      st.Refines q p 0 (Registers.run (q.toNat : ZMod p.toNat) (residues p.toNat pre))) h₀ ?_
    intro pre x post st _ hst
    rw [residues_concat, Registers.run_concat]
    exact (KSentry.accumulate_refines hst (hf.fits hst x)).mono fun _ h => h.2
  obtain ⟨st, hst, -⟩ := hrun
  exact ⟨st₀, st, hnew, hst⟩

theorem neverOverflows_iff_parametersFit (hp : 1 < p.toNat) (hq : 0 < q.toNat) :
    NeverOverflows q p ↔ ParametersFit q.toNat p.toNat := by
  constructor
  · intro hno
    exact ⟨hno.product hp hq, hno.sum hp hq⟩
  · intro hf
    exact hf.neverOverflows hp hq

/-- A debug build then runs through every stream that it can count. -/
theorem NeverOverflows.ksentryFast_returns (hp : 1 < p.toNat) (hq : 0 < q.toNat)
    (hno : NeverOverflows q p) {xs : List U128} (hn : xs.length < 2 ^ 64) :
    ∃ st, ksentryFast xs q p = .ok st := by
  have hf := (neverOverflows_iff_parametersFit hp hq).mp hno
  obtain ⟨st, hst, -⟩ := ksentryFast_refines_of_fits hp hq (fun _ _ _ x h => hf.fits h x) hn
  exact ⟨st, hst⟩

/-- Which accepted parameters are free of overflow: all bases exactly when
    `p ≤ 2^64`, and a single base exactly when the largest residue times each of
    its weights fits and two residues can be added. -/
theorem neverOverflows_iff (hp : 1 < p.toNat) (hq : 0 < q.toNat) :
    ((∀ q' : U128, 0 < q'.toNat → NeverOverflows q' p) ↔ p.toNat ≤ 2 ^ 64) ∧
      (NeverOverflows q p ↔ ParametersFit q.toNat p.toNat) ∧
      (NeverOverflows q p → ∀ xs : List U128, xs.length < 2 ^ 64 →
        ∃ st, ksentryFast xs q p = .ok st) := by
  refine ⟨?_, neverOverflows_iff_parametersFit hp hq,
    fun hno xs hn => hno.ksentryFast_returns hp hq hn⟩
  constructor
  · intro hall
    -- The base `-1` has the largest residue as a weight.
    have hmax := toNat_maxResidue hp
    have hf := (neverOverflows_iff_parametersFit hp (by rw [hmax]; omega)).mp
      (hall (p - 1#128) (by rw [hmax]; omega))
    have hsq := hf.product 1
    rw [hmax, tri_one, pow_one, Nat.mod_eq_of_lt (by omega)] at hsq
    exact le_of_maxResidue_sq_lt hsq
  · intro hle q' hq'
    have hok : ModulusOk p := ⟨hp, hle⟩
    refine (neverOverflows_iff_parametersFit hp hq').mpr ⟨fun n => ?_, .inl (by omega)⟩
    exact hok.mul_lt (by omega) (Nat.mod_lt _ hok.pos)

/-- The parameters of the repository's tests are free of overflow. -/
theorem neverOverflows_iff_demo : NeverOverflows 7#128 1000000007#128 :=
  (neverOverflows_iff (q := 7#128) (p := 1000000007#128) (by decide) (by decide)).1.mpr
    (by decide) 7#128 (by decide)

/-- With `p = 2^64 + 1` and `q = 2^64` the first update multiplies
    `2^64 · 2^64` and panics. -/
theorem update_overflow_above_two_pow_64 :
    ∃ st₀, KSentry.new 18446744073709551616#128 18446744073709551617#128 = .ok st₀ ∧
      st₀.update 0#128 = .error .arithmeticOverflow :=
  ⟨_, rfl, rfl⟩

/-! ## Degenerate bases -/

/-- The states that `new` and any number of updates lead to. -/
inductive KSentry.Reachable (q p : U128) : KSentry → Prop where
  | new {st : KSentry} (h : KSentry.new q p = .ok st) : Reachable q p st
  | update {st st' : KSentry} {x : U128} (h : Reachable q p st) (hx : st.update x = .ok st') :
      Reachable q p st'

/-- Every reachable state holds the registers of some stream. -/
theorem KSentry.Reachable.refines (hp : 1 < p.toNat) (hq : 0 < q.toNat) {st : KSentry}
    (h : KSentry.Reachable q p st) :
    ∃ zs : List (ZMod p.toNat),
      st.Refines q p zs.length (Registers.run (q.toNat : ZMod p.toNat) zs) := by
  induction h with
  | new hnew => exact ⟨[], (KSentry.new_refines hp hq).of_eq_ok hnew⟩
  | @update st st' x _ hx ih =>
    obtain ⟨zs, hst⟩ := ih
    refine ⟨zs ++ [(x.toNat : ZMod p.toNat)], ?_⟩
    rw [List.length_append, List.length_singleton, Registers.run_concat]
    exact KSentry.update_refines_of_ok hst hx

/-- Every event counts from this state on: both weight registers are nonzero,
    and a nonzero residue changes the accumulator. -/
structure KSentry.Nondegenerate (p : U128) (st : KSentry) : Prop where
  weight_ne : st.weight ≠ 0#128
  step_ne : st.step ≠ 0#128
  acc_ne : ∀ x st', x.toNat % p.toNat ≠ 0 → st.update x = .ok st' → st'.acc ≠ st.acc

/-- Over a prime field, no reachable state is degenerate exactly when the base is
    not a multiple of `p`. -/
theorem nondegenerate_iff (hprime : p.toNat.Prime) (hle : p.toNat ≤ 2 ^ 64) (hq : 0 < q.toNat) :
    (∀ st, KSentry.Reachable q p st → st.Nondegenerate p) ↔ q.toNat % p.toNat ≠ 0 := by
  have hp : ModulusOk p := ⟨hprime.one_lt, hle⟩
  have : Fact p.toNat.Prime := ⟨hprime⟩
  have hzero : Rep p.toNat 0#128 0 := rep_zero hp.pos
  constructor
  · intro hall hmod
    -- The first state has `q mod p` in its step register.
    obtain ⟨st₀, hnew, h₀⟩ := KSentry.new_refines (q := q) hp.one_lt hq
    apply (hall st₀ (.new hnew)).step_ne
    apply h₀.step_rep.unique
    refine hzero.congr ?_
    show 0 = (q.toNat : ZMod p.toNat)
    rw [eq_comm, ZMod.natCast_eq_zero_iff, Nat.dvd_iff_mod_eq_zero]
    exact hmod
  · intro hmod st hreach
    have hqz : (q.toNat : ZMod p.toNat) ≠ 0 := natCast_ne_zero_iff_mod.mpr hmod
    obtain ⟨zs, hst⟩ := hreach.refines hprime.one_lt hq
    have hweight : (Registers.run (q.toNat : ZMod p.toNat) zs).weight ≠ 0 := by
      rw [Registers.run_eq]
      exact pow_ne_zero _ hqz
    have hstep : (Registers.run (q.toNat : ZMod p.toNat) zs).step ≠ 0 := by
      rw [Registers.run_eq]
      exact pow_ne_zero _ hqz
    refine ⟨?_, ?_, ?_⟩
    · rwa [Ne, hst.weight_rep.eq_iff hzero]
    · rwa [Ne, hst.step_rep.eq_iff hzero]
    · intro x st' hx hok
      have hst' := KSentry.update_refines_of_ok hst hok
      rw [Ne, hst'.acc_rep.eq_iff hst.acc_rep, Registers.update, add_eq_left]
      exact mul_ne_zero (natCast_ne_zero_iff_mod.mpr hx) hweight

/-- With `q = 7` and `p = 101` the state after the events `5` and `9` is not
    degenerate. -/
theorem nondegenerate_iff_seven :
    ∃ st₀ st₁ st₂, KSentry.new 7#128 101#128 = .ok st₀ ∧ st₀.update 5#128 = .ok st₁ ∧
      st₁.update 9#128 = .ok st₂ ∧ st₂.Nondegenerate 101#128 := by
  have hall := (nondegenerate_iff (q := 7#128) (p := 101#128) (by norm_num) (by decide)
    (by decide)).mpr (by decide)
  refine ⟨_, _, _, rfl, rfl, rfl, hall _ ?_⟩
  exact .update (x := 9#128) (.update (x := 5#128) (.new rfl) rfl) rfl

/-- With `q = p = 101` the constructor accepts the base, its step register is
    `0`, after one event the weight is `0` too, and the second event is ignored. -/
theorem multiple_of_modulus_degenerate :
    (101#128).toNat.Prime ∧ (9#128).toNat % (101#128).toNat ≠ 0 ∧
      ∃ st₀ st₁ st₂, KSentry.new 101#128 101#128 = .ok st₀ ∧ st₀.step = 0#128 ∧
        st₀.update 5#128 = .ok st₁ ∧ st₁.weight = 0#128 ∧
        st₁.update 9#128 = .ok st₂ ∧ st₂.acc = st₁.acc :=
  ⟨by norm_num, by decide, _, _, _, rfl, rfl, rfl, rfl, rfl, rfl⟩

end

end TimeFence.Core
