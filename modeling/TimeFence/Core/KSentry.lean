import TimeFence.Core.ModArith
import TimeFence.Algebra.Registers

/-!
# The K-Sentry accumulator

Model of `timefence-core/src/ksentry.rs`: the `KSentry` state with its `new`,
`update`, `digest`, `position` and `checkpoint` (lines 11–83), and the two ways
of digesting a whole stream, `ksentry_fast` and `ksentry_spec` (lines 115–138).

`KSentry.Refines` links a state to the registers of the abstract machine over
`ZMod p`. `new` establishes it and `update` keeps it (`KSentry.update_refines`),
so a run over a stream ends in the registers of that stream
(`ksentryFast_refines`). The length of a slice is a `usize`, so `xs.length < 2 ^ 64`
holds of every stream. Results:

* `ksentry_streaming_invariant`: the closed form of every field after any
  stream of `u128` values.
* `ksentryFast_eq_ksentrySpec`: the updater agrees with the slow recomputation
  of every weight.
-/

namespace TimeFence.Core

open TimeFence.Common TimeFence.Algebra

/-! ## Model -/

/-- `struct KSentry` (lines 11–19). -/
structure KSentry where
  q : U128
  p : U128
  n : U64
  acc : U128
  weight : U128
  step : U128
  deriving DecidableEq, Repr

/-- `struct KSCheckpoint` (lines 73–83). -/
structure KSCheckpoint where
  streamId : String
  epoch : U64
  endSeq : U64
  digest : U128
  weight : U128
  step : U128
  q : U128
  p : U128
  deriving DecidableEq, Repr

/-- Model of `KSentry::new` (lines 22–34). -/
def KSentry.new (q p : U128) : Exec KSentry := do
  assertThat (1#128 < p) "p must be > 1"
  assertThat (0#128 < q) "q must be > 0"
  let q' ← checkedRem q p
  let step ← checkedRem q p
  pure { q := q', p := p, n := 0#64, acc := 0#128, weight := 1#128, step := step }

/-- Model of `KSentry::update` (lines 36–49). -/
def KSentry.update (st : KSentry) (x : U128) : Exec KSentry := do
  let x ← checkedRem x st.p
  let term ← modMul x st.weight st.p
  let acc ← modAdd st.acc term st.p
  let weight ← modMul st.weight st.step st.p
  let step ← modMul st.step st.q st.p
  let n ← checkedAdd st.n 1#64
  pure { st with acc := acc, weight := weight, step := step, n := n }

/-- The products and the sum of `update`: all of it but `self.n += 1`. -/
def KSentry.accumulate (st : KSentry) (x : U128) : Exec KSentry := do
  let x ← checkedRem x st.p
  let term ← modMul x st.weight st.p
  let acc ← modAdd st.acc term st.p
  let weight ← modMul st.weight st.step st.p
  let step ← modMul st.step st.q st.p
  pure { st with acc := acc, weight := weight, step := step }

/-- Model of `KSentry::digest` (lines 51–53). -/
def KSentry.digest (st : KSentry) : U128 := st.acc

/-- Model of `KSentry::position` (lines 55–57). -/
def KSentry.position (st : KSentry) : U64 := st.n

/-- Model of `KSentry::checkpoint` (lines 59–70). -/
def KSentry.checkpoint (st : KSentry) (streamId : String) (epoch : U64) : KSCheckpoint :=
  { streamId := streamId, epoch := epoch, endSeq := st.n, digest := st.acc, weight := st.weight,
    step := st.step, q := st.q, p := st.p }

/-- Model of `ksentry_spec` (lines 117–127). -/
def ksentrySpec (xs : List U128) (q p : U128) : Exec U128 :=
  xs.zipIdx.foldlM (fun acc (x, i) => do
    let t ← triangularExp (BitVec.ofNat 64 i)
    let w ← modPow q t p
    let term ← modMul x w p
    modAdd acc term p) 0#128

/-- Model of `ksentry_fast` (lines 130–138). -/
def ksentryFast (xs : List U128) (q p : U128) : Exec KSentry := do
  let st ← KSentry.new q p
  xs.foldlM KSentry.update st

/-! ## Refinement of the abstract registers -/

/-- After `n` elements `st` holds the residues of the registers `r`, for the
    parameters `q` and `p`. -/
structure KSentry.Refines (q p : U128) (n : ℕ) (st : KSentry) (r : Registers (ZMod p.toNat)) :
    Prop where
  p_eq : st.p = p
  n_eq : st.n.toNat = n
  q_rep : Rep p.toNat st.q (q.toNat : ZMod p.toNat)
  acc_rep : Rep p.toNat st.acc r.acc
  weight_rep : Rep p.toNat st.weight r.weight
  step_rep : Rep p.toNat st.step r.step

section

variable {q p : U128}

theorem KSentry.new_refines (hp : 1 < p.toNat) (hq : 0 < q.toNat) :
    Returns (KSentry.new q p) fun st => st.Refines q p 0 (.init (q.toNat : ZMod p.toNat)) := by
  have hpos : 0 < p.toNat := by omega
  rw [KSentry.new, assertThat_of (one_lt_of_toNat (by norm_num) hp), ok_bind,
    assertThat_of (zero_lt_of_toNat hq), ok_bind]
  refine (checkedRem_rep hpos).bind fun q' hq' => ?_
  refine (checkedRem_rep hpos).bind fun step hstep => ?_
  exact Returns.pure
    { p_eq := rfl
      n_eq := rfl
      q_rep := hq'
      acc_rep := rep_zero hpos
      weight_rep := rep_one (by norm_num) hp
      step_rep := hstep }

/-- The products and the sum that `update` computes from these registers fit in
    a `u128`. -/
structure KSentry.Fits (st : KSentry) (x : U128) : Prop where
  term : x.toNat % st.p.toNat * st.weight.toNat < 2 ^ 128
  sum : st.acc.toNat + x.toNat % st.p.toNat * st.weight.toNat % st.p.toNat < 2 ^ 128
  weight : st.weight.toNat * st.step.toNat < 2 ^ 128
  step : st.step.toNat * st.q.toNat < 2 ^ 128

theorem KSentry.update_eq (st : KSentry) (x : U128) :
    st.update x = (do
      let st' ← st.accumulate x
      let n ← checkedAdd st.n 1#64
      pure { st' with n := n }) := by
  unfold KSentry.update KSentry.accumulate
  simp only [bind_assoc, pure_bind]

section Step

variable {st st' : KSentry} {n : ℕ} {r : Registers (ZMod p.toNat)} {x : U128}

theorem KSentry.Refines.pos (h : st.Refines q p n r) : 0 < p.toNat :=
  (Nat.zero_le _).trans_lt h.q_rep.lt

/-- The step lemma of the registers: where nothing overflows, they follow the
    abstract machine. -/
theorem KSentry.accumulate_refines (h : st.Refines q p n r) (hfits : st.Fits x) :
    Returns (st.accumulate x) fun st' => st'.n = st.n ∧
      st'.Refines q p n (r.update (q.toNat : ZMod p.toNat) (x.toNat : ZMod p.toNat)) := by
  have hpos := h.pos
  obtain ⟨hpe, hne, hq, hacc, hweight, hstep⟩ := h
  obtain ⟨hterm, hsum, hw, hs⟩ := hfits
  rw [hpe] at hterm hsum
  -- The registers are residues already.
  have hqmod := Nat.mod_eq_of_lt hq.lt
  have haccmod := Nat.mod_eq_of_lt hacc.lt
  have hweightmod := Nat.mod_eq_of_lt hweight.lt
  have hstepmod := Nat.mod_eq_of_lt hstep.lt
  rw [KSentry.accumulate, hpe]
  refine (checkedRem_returns hpos).bind fun x' hx' => ?_
  have hxmod : x'.toNat % p.toNat = x.toNat % p.toNat := by rw [hx', Nat.mod_mod]
  refine (modMul_rep_of_lt hpos (by rwa [hxmod, hweightmod])).bind fun term ht => ?_
  have htval : term.toNat = x.toNat % p.toNat * st.weight.toNat % p.toNat := by
    rw [← Nat.cast_mul, hx'] at ht
    exact ht.toNat_eq_mod
  refine (modAdd_rep_of_lt hpos (by rw [haccmod, htval, Nat.mod_mod]; exact hsum)).bind
    fun acc' hacc' => ?_
  refine (modMul_rep_of_lt hpos (by rwa [hweightmod, hstepmod])).bind fun weight' hweight' => ?_
  refine (modMul_rep_of_lt hpos (by rwa [hstepmod, hqmod])).bind fun step' hstep' => ?_
  refine Returns.pure ⟨rfl,
    { p_eq := rfl
      n_eq := hne
      q_rep := hq
      acc_rep := hacc'.congr ?_
      weight_rep := hweight'.congr ?_
      step_rep := hstep'.congr ?_ }⟩
  · rw [hacc.cast, ht.cast, hx', ZMod.natCast_mod, hweight.cast]
    rfl
  · rw [hweight.cast, hstep.cast]
    rfl
  · rw [hstep.cast, hq.cast]
    rfl

/-- Registers that were computed have not overflowed. -/
theorem KSentry.fits_of_accumulate (h : st.Refines q p n r) (hok : st.accumulate x = .ok st') :
    st.Fits x := by
  have hpos := h.pos
  obtain ⟨hpe, -, hq, hacc, hweight, hstep⟩ := h
  rw [KSentry.accumulate, hpe] at hok
  obtain ⟨x', hx', hok⟩ := bind_eq_ok_iff.mp hok
  obtain ⟨term, hterm, hok⟩ := bind_eq_ok_iff.mp hok
  obtain ⟨acc', hacc', hok⟩ := bind_eq_ok_iff.mp hok
  obtain ⟨weight', hweight', hok⟩ := bind_eq_ok_iff.mp hok
  obtain ⟨step', hstep', -⟩ := bind_eq_ok_iff.mp hok
  have hxval := (checkedRem_returns hpos).of_eq_ok hx'
  have htermlt := lt_of_modMul hpos hterm
  have htval := (modMul_rep_of_lt hpos htermlt).of_eq_ok hterm
  rw [← Nat.cast_mul, hxval] at htval
  have hsumlt := lt_of_modAdd hpos hacc'
  rw [htval.toNat_eq_mod, Nat.mod_mod, Nat.mod_eq_of_lt hacc.lt] at hsumlt
  rw [hxval, Nat.mod_mod, Nat.mod_eq_of_lt hweight.lt] at htermlt
  have hwlt := lt_of_modMul hpos hweight'
  rw [Nat.mod_eq_of_lt hweight.lt, Nat.mod_eq_of_lt hstep.lt] at hwlt
  have hslt := lt_of_modMul hpos hstep'
  rw [Nat.mod_eq_of_lt hstep.lt, Nat.mod_eq_of_lt hq.lt] at hslt
  rw [← hpe] at htermlt hsumlt
  exact ⟨htermlt, hsumlt, hwlt, hslt⟩

/-- Below `2^64` everything fits. -/
theorem KSentry.fits_of_modulusOk (hp : ModulusOk p) (h : st.Refines q p n r) (x : U128) :
    st.Fits x := by
  have hx : x.toNat % st.p.toNat < p.toNat := by
    rw [h.p_eq]
    exact Nat.mod_lt _ hp.pos
  have hterm : x.toNat % st.p.toNat * st.weight.toNat % st.p.toNat < p.toNat := by
    rw [h.p_eq]
    exact Nat.mod_lt _ hp.pos
  exact ⟨hp.mul_lt hx h.weight_rep.lt, hp.add_lt h.acc_rep.lt hterm,
    hp.mul_lt h.weight_rep.lt h.step_rep.lt, hp.mul_lt h.step_rep.lt h.q_rep.lt⟩

/-- The step lemma of `update`: besides the registers only the position can
    overflow. -/
theorem KSentry.update_refines_of_fits (h : st.Refines q p n r) (hfits : st.Fits x)
    (hn : n + 1 < 2 ^ 64) :
    Returns (st.update x) fun st' =>
      st'.Refines q p (n + 1) (r.update (q.toNat : ZMod p.toNat) (x.toNat : ZMod p.toNat)) := by
  have hadd : st.n.toNat + (1#64).toNat < 2 ^ 64 := by rw [h.n_eq]; exact hn
  rw [KSentry.update_eq]
  refine (KSentry.accumulate_refines h hfits).bind fun st' ⟨_, h'⟩ => ?_
  refine (checkedAdd_returns hadd).bind fun n' hn' => Returns.pure ?_
  exact { h' with n_eq := by rw [hn', h.n_eq]; rfl }

/-- For a modulus up to `2^64` the position is the only register that can
    overflow. -/
theorem KSentry.update_refines (hp : ModulusOk p) (h : st.Refines q p n r) (hn : n + 1 < 2 ^ 64)
    (x : U128) :
    Returns (st.update x) fun st' =>
      st'.Refines q p (n + 1) (r.update (q.toNat : ZMod p.toNat) (x.toNat : ZMod p.toNat)) :=
  KSentry.update_refines_of_fits h (KSentry.fits_of_modulusOk hp h x) hn

/-- The partial version: an update that returned followed the abstract machine. -/
theorem KSentry.update_refines_of_ok (h : st.Refines q p n r) (hok : st.update x = .ok st') :
    st'.Refines q p (n + 1) (r.update (q.toNat : ZMod p.toNat) (x.toNat : ZMod p.toNat)) := by
  have hcopy := hok
  rw [KSentry.update_eq] at hcopy
  obtain ⟨st₁, hregisters, hcopy⟩ := bind_eq_ok_iff.mp hcopy
  obtain ⟨m, hcount, -⟩ := bind_eq_ok_iff.mp hcopy
  have hn := lt_of_checkedAdd hcount
  rw [h.n_eq] at hn
  exact (KSentry.update_refines_of_fits h (KSentry.fits_of_accumulate h hregisters) hn).of_eq_ok hok

end Step

/-- The run lemma: where nothing overflows, the state after any stream refines the
    registers of the abstract machine run on the same stream. -/
theorem ksentryFast_refines_of_fits (hp : 1 < p.toNat) (hq : 0 < q.toNat)
    (hfits : ∀ (st : KSentry) n zs x,
      st.Refines q p n (Registers.run (q.toNat : ZMod p.toNat) zs) → st.Fits x)
    {xs : List U128} (hn : xs.length < 2 ^ 64) :
    Returns (ksentryFast xs q p) fun st =>
      st.Refines q p xs.length (Registers.run (q.toNat : ZMod p.toNat) (residues p.toNat xs)) := by
  refine (KSentry.new_refines hp hq).bind fun st₀ h₀ => ?_
  refine Returns.foldlM
    (fun pre (st : KSentry) =>
      st.Refines q p pre.length (Registers.run (q.toNat : ZMod p.toNat) (residues p.toNat pre)))
    h₀ fun pre x post st hxs hst => ?_
  have hlen := Nat.lt_of_le_of_lt (length_lt_of_split hxs) hn
  rw [List.length_append, List.length_singleton, residues_concat, Registers.run_concat]
  exact KSentry.update_refines_of_fits hst (hfits st _ _ x hst) hlen

theorem ksentryFast_refines (hp : ModulusOk p) (hq : 0 < q.toNat) {xs : List U128}
    (hn : xs.length < 2 ^ 64) :
    Returns (ksentryFast xs q p) fun st =>
      st.Refines q p xs.length (Registers.run (q.toNat : ZMod p.toNat) (residues p.toNat xs)) :=
  ksentryFast_refines_of_fits hp.one_lt hq
    (fun _ _ _ x hst => KSentry.fits_of_modulusOk hp hst x) hn

/-- The digest of a stream as an element of `ZMod p`. -/
def digestOf (q p : U128) (xs : List U128) : ZMod p.toNat :=
  wsum (triWeight (q.toNat : ZMod p.toNat)) (residues p.toNat xs)

theorem ksentryFast_digest (hp : ModulusOk p) (hq : 0 < q.toNat) (xs : List U128)
    (hn : xs.length < 2 ^ 64) :
    Returns (ksentryFast xs q p) fun st => Rep p.toNat st.digest (digestOf q p xs) :=
  (ksentryFast_refines hp hq hn).mono fun _ h => h.acc_rep.congr (Registers.run_acc _ _)

/-- The digest as a residue of natural numbers. -/
theorem digestOf_eq_cast (q p : U128) (xs : List U128) :
    digestOf q p xs = ((∑ i : Fin xs.length, xs[i].toNat * q.toNat ^ tri i : ℕ) : ZMod p.toNat) := by
  rw [← wsum_residues p.toNat (fun i => q.toNat ^ tri i), digestOf]
  apply wsum_congr
  intro i _
  rw [triWeight, Nat.cast_pow]

/-! ## The streaming invariant -/

/-- For every stream of fewer than `2^64` values, `KSentry::new` and the updates
    return, and every register holds its closed form: `acc = Σ xᵢ·q^(Tᵢ) mod p`,
    `weight = q^(Tₙ) mod p` and `step = q^(n+1) mod p`, all below `p`. The
    accessors and the checkpoint expose these registers. -/
theorem ksentry_streaming_invariant (hp : ModulusOk p) (hq : 0 < q.toNat) {xs : List U128}
    (hn : xs.length < 2 ^ 64) :
    ∃ st₀ st, KSentry.new q p = .ok st₀ ∧ xs.foldlM KSentry.update st₀ = .ok st ∧
      st.acc.toNat = (∑ i : Fin xs.length, xs[i].toNat * q.toNat ^ tri i) % p.toNat ∧
      st.weight.toNat = q.toNat ^ tri xs.length % p.toNat ∧
      st.step.toNat = q.toNat ^ (xs.length + 1) % p.toNat ∧
      st.q.toNat = q.toNat % p.toNat ∧ st.p = p ∧
      st.position.toNat = xs.length ∧
      st.acc.toNat < p.toNat ∧ st.weight.toNat < p.toNat ∧ st.step.toNat < p.toNat ∧
      st.digest = st.acc ∧
      ∀ streamId epoch, st.checkpoint streamId epoch =
        { streamId := streamId, epoch := epoch, endSeq := st.position, digest := st.acc,
          weight := st.weight, step := st.step, q := st.q, p := p } := by
  obtain ⟨st₀, hnew, -⟩ := KSentry.new_refines hp.one_lt hq
  obtain ⟨st, hrun, h⟩ := ksentryFast_refines hp hq hn
  rw [ksentryFast, hnew, ok_bind] at hrun
  rw [Registers.run_eq, length_residues] at h
  have hacc : Rep p.toNat st.acc (digestOf q p xs) := h.acc_rep
  rw [digestOf_eq_cast] at hacc
  have hweight : Rep p.toNat st.weight ((q.toNat ^ tri xs.length : ℕ) : ZMod p.toNat) :=
    h.weight_rep.congr (by push_cast; rfl)
  have hstep : Rep p.toNat st.step ((q.toNat ^ (xs.length + 1) : ℕ) : ZMod p.toNat) :=
    h.step_rep.congr (by push_cast; rfl)
  refine ⟨st₀, st, hnew, hrun, hacc.toNat_eq_mod, hweight.toNat_eq_mod, hstep.toNat_eq_mod,
    h.q_rep.toNat_eq_mod, h.p_eq, h.n_eq, hacc.lt, hweight.lt, hstep.lt, rfl, ?_⟩
  intro streamId epoch
  rw [← h.p_eq]
  rfl

/-- The stream `[3, 9]` with the parameters of the repository's tests. -/
theorem ksentry_streaming_invariant_demo :
    ∃ st₀ st, KSentry.new 7#128 1000000007#128 = .ok st₀ ∧
      [3#128, 9#128].foldlM KSentry.update st₀ = .ok st ∧
      st.acc.toNat = 66 ∧ st.weight.toNat = 343 ∧ st.step.toNat = 343 ∧
      st.position.toNat = 2 := by
  have hn : [3#128, 9#128].length < 2 ^ 64 := by decide
  obtain ⟨st₀, st, hnew, hrun, hacc, hweight, hstep, -, -, hpos, -⟩ :=
    ksentry_streaming_invariant (q := 7#128) modulusOk_demo (by decide) hn
  refine ⟨st₀, st, hnew, hrun, ?_, ?_, ?_, hpos⟩
  · rw [hacc]
    decide
  · rw [hweight]
    decide
  · rw [hstep]
    decide

/-! ## Fast path and slow path -/

theorem ksentrySpec_rep (hp : ModulusOk p) {xs : List U128} (hn : xs.length < 2 ^ 64) :
    Returns (ksentrySpec xs q p) fun d => Rep p.toNat d (digestOf q p xs) := by
  refine Returns.foldlM_wsum (Rep p.toNat) (rep_zero hp.pos) ?_
  intro i x acc z hi hacc
  have hindex := toNat_ofNat_index (hi.trans hn)
  refine (triangularExp_returns _).bind fun t ht => ?_
  refine (modPow_rep hp q t).bind fun w hw => ?_
  refine (modMul_rep hp x w).bind fun term hterm => ?_
  refine (modAdd_rep hp acc term).mono fun d hd => hd.congr ?_
  rw [hacc.cast, hterm.cast, hw.cast, ht, hindex]
  rfl

/-- The updater and the recomputation of every weight by square-and-multiply
    give the same digest, and the position is the length of the stream. -/
theorem ksentryFast_eq_ksentrySpec (hp : ModulusOk p) (hq : 0 < q.toNat) {xs : List U128}
    (hn : xs.length ≤ 2 ^ 64 - 1) :
    ∃ st d, ksentryFast xs q p = .ok st ∧ ksentrySpec xs q p = .ok d ∧ st.digest = d ∧
      st.position.toNat = xs.length := by
  have hn' : xs.length < 2 ^ 64 := by omega
  obtain ⟨st, hst, h⟩ := ksentryFast_refines hp hq hn'
  obtain ⟨d, hd, hdigest⟩ := ksentrySpec_rep (q := q) hp hn'
  have hacc : Rep p.toNat st.digest (digestOf q p xs) := h.acc_rep.congr (Registers.run_acc _ _)
  exact ⟨st, d, hst, hd, hacc.unique hdigest, h.n_eq⟩

/-- The stream of the repository's own comparison test. -/
theorem ksentryFast_eq_ksentrySpec_demo :
    ∃ st d,
      ksentryFast [3#128, 9#128, 12#128, 99#128, 5#128, 8#128] 7#128 1000000007#128 = .ok st ∧
      ksentrySpec [3#128, 9#128, 12#128, 99#128, 5#128, 8#128] 7#128 1000000007#128 = .ok d ∧
      st.digest = d ∧ st.position.toNat = 6 :=
  ksentryFast_eq_ksentrySpec modulusOk_demo (by decide) (by decide)

end

end TimeFence.Core
