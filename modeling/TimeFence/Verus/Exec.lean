import TimeFence.Common.ModU64
import TimeFence.Verus.Spec

/-!
# Executable code of the verified artifact

Model of the executable functions of
`proofs/finaltest_timefence_core_verified.rs` (lines 738–954): the `u64`
accumulator whose weights are computed by a loop of `T_i` multiplications.

`runFromEmptyK_eq_ramanujanSpec` is the postcondition that the artifact states:
the run returns `ramanujan_spec` of the log, a value below `p`.
-/

namespace TimeFence.Verus

open TimeFence.Common TimeFence.Algebra

/-! ## Model -/

/-- `struct KSentry` (lines 738–742). -/
structure KSentry where
  state : U64
  q : U64
  p : U64
  deriving DecidableEq, Repr

/-- Model of `calculate_weight_internal` (lines 862–925). -/
def KSentry.calculateWeightInternal (self : KSentry) (i : U64) : Exec U64 := do
  let s ← checkedAdd i 1#64
  let m ← checkedMul i s
  let targetExp := m / 2#64
  let oneMod ← checkedRem 1#128 self.p.widen
  whileLt targetExp.toNat (fun _ res => mulModU64 res self.q self.p) 0 (U128.truncate oneMod)

/-- The body of the loop of `ingest_telemetry_k` (lines 795–818). -/
def KSentry.ingestStep (logs : List U64) (i : ℕ) (self : KSentry) : Exec KSentry := do
  let li ← index logs i
  let weight ← self.calculateWeightInternal (BitVec.ofNat 64 i)
  let termU64 ← mulModU64 li weight self.p
  let state ← addModU64 self.state termU64 self.p
  pure { self with state }

/-- Model of `ingest_telemetry_k` (lines 746–860). The bound `k` occurs only in
    its precondition. -/
def KSentry.ingestTelemetryK (self : KSentry) (logs : List U64) (_k : U64) : Exec KSentry :=
  whileLt logs.length (KSentry.ingestStep logs) 0 self

/-- Model of `run_from_empty_k` (lines 932–954). -/
def runFromEmptyK (logs : List U64) (q p k : U64) : Exec U64 := do
  let ks ← KSentry.ingestTelemetryK { state := 0#64, q, p } logs k
  pure ks.state

/-! ## The weights -/

/-- The invariant of the loop: after `curr` iterations `res` represents
    `q^curr`. -/
theorem KSentry.calculateWeightInternal_rep {self : KSentry} (hp : 1 < self.p.toNat) {i : U64}
    (hi : i.toNat < 2 ^ 32) :
    Returns (self.calculateWeightInternal i) fun w =>
      Rep self.p.toNat w ((self.q.toNat : ZMod self.p.toNat) ^ tri i.toNat) := by
  have hpos : 0 < self.p.toNat := by omega
  have h1 : (1#64).toNat = 1 := rfl
  have h1' : (1#128).toNat = 1 := rfl
  refine (checkedAdd_returns (by rw [h1]; omega)).bind fun s hs => ?_
  rw [h1] at hs
  refine (checkedMul_returns (by rw [hs]; exact mul_succ_lt_of_u32 hi)).bind fun m hm => ?_
  have htarget : (m / 2#64).toNat = tri i.toNat := by
    rw [BitVec.toNat_udiv, hm, hs]
    rfl
  refine (checkedRem_returns (by rwa [U64.toNat_widen])).bind fun oneMod hone => ?_
  rw [h1', U64.toNat_widen, Nat.mod_eq_of_lt hp] at hone
  have hres : Rep self.p.toNat (U128.truncate oneMod) ((self.q.toNat : ZMod self.p.toNat) ^ 0) := by
    rw [pow_zero, Common.Rep, U128.toNat_truncate (by omega), hone, Nat.cast_one]
    exact ⟨hp, rfl⟩
  rw [htarget]
  refine Returns.whileLt (fun curr res =>
    Rep self.p.toNat res ((self.q.toNat : ZMod self.p.toNat) ^ curr)) ?_ (Nat.zero_le _) hres
  intro curr res _ hres
  refine (mulModU64_rep hpos res self.q).mono fun r hr => hr.congr ?_
  rw [hres.cast, pow_succ]

/-! ## The run -/

/-- One iteration adds the weighted element at its index. -/
theorem KSentry.ingestStep_rep (self : KSentry) (hp : 1 < self.p.toNat) {logs : List U64} {i : ℕ}
    (hi : i < logs.length) (hn : logs.length ≤ 2 ^ 32) {z : ZMod self.p.toNat}
    (hz : Rep self.p.toNat self.state z) :
    Returns (KSentry.ingestStep logs i self) fun ks => ks.q = self.q ∧ ks.p = self.p ∧
      Rep self.p.toNat ks.state (z + logs[i].toNat * (self.q.toNat : ZMod self.p.toNat) ^ tri i) := by
  have hin : (BitVec.ofNat 64 i).toNat = i := toNat_ofNat_index (by omega)
  rw [KSentry.ingestStep, index_of_lt hi, ok_bind]
  refine (calculateWeightInternal_rep hp (by rw [hin]; omega)).bind fun w hw => ?_
  refine (mulModU64_rep (by omega) logs[i] w).bind fun term hterm => ?_
  refine (addModU64_rep hz.lt hterm.lt).bind fun state hstate => ?_
  refine Returns.pure ⟨rfl, rfl, hstate.congr ?_⟩
  rw [hz.cast, hterm.cast, hw.cast, hin]

/-- The accumulator over a log that the precondition admits. -/
theorem runFromEmptyK_rep (logs : List U64) (q : U64) {p : U64} (k : U64) (hp : 1 < p.toNat)
    (hn : logs.length ≤ 2 ^ 32) :
    Returns (runFromEmptyK logs q p k) fun out =>
      Rep p.toNat out (wsum (fun i => (q.toNat : ZMod p.toNat) ^ tri i) (residues p.toNat logs)) := by
  have hloop : Returns (KSentry.ingestTelemetryK { state := 0#64, q, p } logs k) fun ks =>
      ks.q = q ∧ ks.p = p ∧ Rep p.toNat ks.state (wsum (fun i => (q.toNat : ZMod p.toNat) ^ tri i)
        (residues p.toNat (logs.take logs.length))) := by
    -- The state of iteration `i` is the accumulator of the first `i` elements.
    refine Returns.whileLt (fun i (ks : KSentry) => ks.q = q ∧ ks.p = p ∧
      Rep p.toNat ks.state (wsum (fun i => (q.toNat : ZMod p.toNat) ^ tri i)
        (residues p.toNat (logs.take i)))) ?_ (Nat.zero_le _) ?_
    · rintro i ⟨state, q, p⟩ hi ⟨rfl, rfl, hz⟩
      refine (KSentry.ingestStep_rep ⟨state, q, p⟩ hp hi hn hz).mono ?_
      rintro ks ⟨hq', hp', hz'⟩
      refine ⟨hq', hp', hz'.congr ?_⟩
      have htake : logs.take (i + 1) = logs.take i ++ [logs[i]] :=
        (List.take_append_getElem hi).symm
      rw [htake, residues_concat, wsum_concat, length_residues, List.length_take,
        Nat.min_eq_left hi.le]
    · exact ⟨rfl, rfl, (rep_zero (by omega)).congr (wsum_nil _).symm⟩
  rw [List.take_length] at hloop
  exact hloop.bind fun ks ⟨_, _, hz⟩ => Returns.pure hz

/-- The postcondition that the artifact states for `run_from_empty_k`. -/
theorem runFromEmptyK_eq_ramanujanSpec {logs : List U64} {q p : U64} (k : U64) (hp : 1 < p.toNat)
    (hn : logs.length ≤ 2 ^ 32) :
    Returns (runFromEmptyK logs q p k) fun out =>
      (out.toNat : ℤ) = ramanujanSpec logs q.toNat p.toNat ∧ out < p := by
  refine (runFromEmptyK_rep logs q k hp hn).mono fun out hout => ⟨?_, BitVec.lt_def.mpr hout.lt⟩
  apply toNat_eq_ramanujanSpec (by omega)
  simpa using hout

end TimeFence.Verus
