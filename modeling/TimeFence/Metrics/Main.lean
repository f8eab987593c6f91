import TimeFence.Metrics.KSentry

/-!
# The metrics program with square exponents

Model of the accumulator of `ksentry-metrics/src/main.rs`: the metrics `KSentry`
with the exponent `i²` for the position `i`, computed with `checked_mul`. Besides
`ingest_telemetry` the program has two more copies of the accumulation loop, one
that keeps every prefix state and one that starts at an offset.

* `stateForLogs_exact`: the state of a log of up to `2^32` entries is the
  weighted sum modulo `p`, and a longer log makes `weight_for_index` panic.
* `loops_agree`: the three loops agree at every cut of a log.
-/

namespace TimeFence.Metrics.Main

open TimeFence.Common TimeFence.Algebra

/-! ## Model -/

/-- The exponent of `weight_for_index` (lines 78–81). -/
def squareExponent (ii : U64) : Exec U64 :=
  expect "weight_for_index: exponent overflow" (optionMul ii ii)

/-- Model of `weight_for_index` (lines 76–83). -/
def weightForIndex (self : KSentry) (i : ℕ) : Exec U64 := self.weightForIndex squareExponent i

/-- Model of `ingest_telemetry` (lines 85–94). -/
def ingestTelemetry (self : KSentry) (logs : List U64) : Exec KSentry :=
  self.ingestTelemetry squareExponent logs

/-- Model of `state_for_logs` (lines 96–100). -/
def stateForLogs (self : KSentry) (logs : List U64) : Exec U64 :=
  self.stateForLogs squareExponent logs

/-- The statements with which the other two loops end an iteration (lines
    108–111 and 128–131). -/
def addWeighted (self : KSentry) (state li : U64) (idx : ℕ) : Exec U64 :=
  self.addWeighted squareExponent state li idx

/-- Model of `prefix_states` (lines 102–116). -/
def prefixStates (self : KSentry) (logs : List U64) : Exec (List U64) :=
  self.prefixStates squareExponent logs

/-- Model of `shifted_state_for_logs` (lines 118–135). -/
def shiftedStateForLogs (self : KSentry) (logs : List U64) (offset : ℕ) : Exec U64 :=
  logs.zipIdx.foldlM (fun state (liRaw, j) => do
    let li ← checkedRem liRaw self.p
    let idx ← expect "shifted_state_for_logs: index overflow" (optionAddIndex offset j)
    addWeighted self state li idx) 0#64

/-- Model of `test_composition_theorem` (lines 317–332). -/
def testCompositionTheorem (ks : KSentry) (logs : List U64) :
    Exec (Option (U64 × U64 × U64 × U64 × Bool)) :=
  if logs.length < 2 then pure none
  else do
    let mid := logs.length / 2
    let a := logs.take mid
    let b := logs.drop mid
    let stateA ← stateForLogs ks a
    let shiftedB ← shiftedStateForLogs ks b a.length
    let sum ← checkedAdd stateA.widen shiftedB.widen
    let composed ← checkedRem sum ks.p.widen
    let composed := U128.truncate composed
    let direct ← stateForLogs ks logs
    pure (some (stateA, shiftedB, composed, direct, composed == direct))

/-! ## Specifications -/

/-- The weight `q^(i²)` of the position `i`. -/
def squareWeight {R : Type*} [Monoid R] (q : R) (i : ℕ) : R := q ^ (i * i)

theorem squareExponent_returns {i : ℕ} (h : i < 2 ^ 32) :
    Returns (squareExponent (BitVec.ofNat 64 i)) fun t => t.toNat = i * i := by
  have hi : (BitVec.ofNat 64 i).toNat = i := toNat_ofNat_index (by omega)
  have hlt : i * i < 2 ^ 32 * 2 ^ 32 := Nat.mul_lt_mul'' h h
  obtain ⟨t, ht, hsq⟩ := optionMul_eq_some (a := BitVec.ofNat 64 i) (b := BitVec.ofNat 64 i)
    (by rw [hi]; exact hlt)
  rw [hi] at hsq
  rw [squareExponent, ht, expect_some]
  exact Returns.ok hsq

/-- The first index whose square does not fit. -/
theorem squareExponent_two_pow :
    squareExponent (BitVec.ofNat 64 (2 ^ 32)) =
      .error (.expectFailed "weight_for_index: exponent overflow") := by
  have hi : (BitVec.ofNat 64 (2 ^ 32)).toNat = 2 ^ 32 := toNat_ofNat_index (by norm_num)
  rw [squareExponent, optionMul_eq_none (by rw [hi]; norm_num)]
  rfl

section

variable {ks : KSentry} {logs : List U64}

/-- The weighted sum of a log in `ZMod p`, its first entry at the position
    `offset`. -/
def sumFrom (ks : KSentry) (offset : ℕ) (logs : List U64) : ZMod ks.p.toNat :=
  wsum (fun j => squareWeight (ks.q.toNat : ZMod ks.p.toNat) (offset + j))
    (residues ks.p.toNat logs)

@[simp] theorem sumFrom_nil (ks : KSentry) (offset : ℕ) : sumFrom ks offset [] = 0 := wsum_nil _

/-- Cutting a log. -/
theorem sumFrom_append (ks : KSentry) (offset : ℕ) (a b : List U64) :
    sumFrom ks offset (a ++ b) = sumFrom ks offset a + sumFrom ks (offset + a.length) b := by
  rw [sumFrom, residues_append, wsum_append, length_residues]
  simp only [← add_assoc]
  rfl

theorem stateForLogs_rep (hp : 1 < ks.p.toNat) (hn : logs.length ≤ 2 ^ 32) :
    Returns (stateForLogs ks logs) fun d => Rep ks.p.toNat d (sumFrom ks 0 logs) := by
  have h := KSentry.stateForLogs_rep hp logs (fun i => i * i)
    fun i hi => squareExponent_returns (show i < 2 ^ 32 by omega)
  refine h.mono fun d hd => hd.congr ?_
  simp only [sumFrom, squareWeight, zero_add]

theorem addWeighted_rep (hp : 1 < ks.p.toNat) {state li : U64} {z x : ZMod ks.p.toNat}
    (hstate : Rep ks.p.toNat state z) (hli : Rep ks.p.toNat li x) {idx : ℕ} (hidx : idx < 2 ^ 32) :
    Returns (addWeighted ks state li idx) fun s =>
      Rep ks.p.toNat s (z + x * squareWeight (ks.q.toNat : ZMod ks.p.toNat) idx) :=
  KSentry.addWeighted_rep hp hstate hli (squareExponent_returns hidx)

/-- The entry `k` is the state after `k + 1` entries of the log. -/
theorem prefixStates_rep (hp : 1 < ks.p.toNat) (hn : logs.length ≤ 2 ^ 32) :
    Returns (prefixStates ks logs) fun states => states.length = logs.length ∧
      ∀ k s, states[k]? = some s → Rep ks.p.toNat s (sumFrom ks 0 (logs.take (k + 1))) := by
  have h := KSentry.prefixStates_rep hp logs (fun i => i * i)
    fun i hi => squareExponent_returns (show i < 2 ^ 32 by omega)
  refine h.mono fun states hstates => ⟨hstates.1, fun k s hs => (hstates.2 k s hs).congr ?_⟩
  simp only [KSentry.sumOf, sumFrom, squareWeight, zero_add]

theorem shiftedStateForLogs_rep (hp : 1 < ks.p.toNat) {offset : ℕ}
    (hn : offset + logs.length ≤ 2 ^ 32) :
    Returns (shiftedStateForLogs ks logs offset) fun s =>
      Rep ks.p.toNat s (sumFrom ks offset logs) := by
  have hpos : 0 < ks.p.toNat := by omega
  refine Returns.foldlM_wsum (Rep ks.p.toNat) (rep_zero hpos) ?_
  intro j x s z hj hs
  refine (checkedRem_rep hpos).bind fun li hli => ?_
  rw [optionAddIndex_of_lt (show offset + j < 2 ^ 64 by omega), expect_some, ok_bind]
  exact addWeighted_rep hp hs hli (by omega)

/-- A log that is too long panics at the index `2^32`. -/
theorem stateForLogs_eq_error (hp : 1 < ks.p.toNat) (hn : 2 ^ 32 < logs.length) :
    stateForLogs ks logs = .error (.expectFailed "weight_for_index: exponent overflow") :=
  KSentry.stateForLogs_eq_error hp hn (fun i => i * i) (fun _ hi => squareExponent_returns hi)
    squareExponent_two_pow

/-- The sum of a whole log as a residue of natural numbers. -/
theorem sumFrom_zero_eq_cast (ks : KSentry) (logs : List U64) :
    sumFrom ks 0 logs =
      ((∑ i : Fin logs.length, logs[i].toNat * ks.q.toNat ^ (i * i : ℕ) : ℕ) :
        ZMod ks.p.toNat) := by
  rw [← wsum_residues ks.p.toNat (fun i => ks.q.toNat ^ (i * i)), sumFrom]
  apply wsum_congr
  intro i _
  rw [squareWeight, zero_add, Nat.cast_pow]

end

/-! ## The state of a log -/

/-- For all parameters that `new` accepts, no operation of the accumulator
    overflows on a log of up to `2^32` entries and the state is the weighted sum
    modulo `p`; a longer log makes `weight_for_index` panic. -/
theorem stateForLogs_exact {q p : U64} (hq : 1 ≤ q.toNat) (hp : 1 < p.toNat) (logs : List U64) :
    ∃ ks, KSentry.new q p = .ok ks ∧
      (logs.length ≤ 2 ^ 32 → ∃ d, stateForLogs ks logs = .ok d ∧
        d.toNat = (∑ i : Fin logs.length, logs[i].toNat * q.toNat ^ (i * i : ℕ)) % p.toNat) ∧
      (2 ^ 32 < logs.length →
        stateForLogs ks logs = .error (.expectFailed "weight_for_index: exponent overflow")) := by
  obtain ⟨ks, hks, rfl, rfl⟩ := KSentry.exists_new hp hq
  refine ⟨ks, hks, fun hn => ?_, fun hn => stateForLogs_eq_error hp hn⟩
  obtain ⟨d, hd, hrep⟩ := stateForLogs_rep hp hn
  rw [sumFrom_zero_eq_cast] at hrep
  exact ⟨d, hd, hrep.toNat_eq_mod⟩

/-- Two entries at the largest prime below `2^64`. -/
theorem stateForLogs_exact_max :
    ∃ ks, KSentry.new 3#64 18446744073709551557#64 = .ok ks ∧
      ∃ d, stateForLogs ks [18446744073709551615#64, 18446744073709551556#64] = .ok d ∧
        d.toNat = 55 := by
  obtain ⟨ks, hks, hstate, -⟩ := stateForLogs_exact (q := 3#64) (p := 18446744073709551557#64)
    (by decide) (by decide) [18446744073709551615#64, 18446744073709551556#64]
  obtain ⟨d, hd, hval⟩ := hstate (by decide)
  exact ⟨ks, hks, d, hd, by rw [hval]; decide⟩

/-! ## The three loops -/

section

variable {ks : KSentry} {logs : List U64}

/-- The two parts of a log, the second one started at the cut. -/
theorem state_eq_of_cut {k : ℕ} (hk : k ≤ logs.length) {d dk s : U64}
    (hd : Rep ks.p.toNat d (sumFrom ks 0 logs))
    (hdk : Rep ks.p.toNat dk (sumFrom ks 0 (logs.take k)))
    (hs : Rep ks.p.toNat s (sumFrom ks k (logs.drop k))) :
    d.toNat = (dk.toNat + s.toNat) % ks.p.toNat := by
  have hsum := sumFrom_append ks 0 (logs.take k) (logs.drop k)
  rw [List.take_append_drop, List.length_take_of_le hk, zero_add, ← hdk.cast, ← hs.cast,
    ← Nat.cast_add] at hsum
  rw [hsum] at hd
  exact hd.toNat_eq_mod

/-- The composition test computes the sum of two residues in `u128`. -/
theorem testCompositionTheorem_eq_true (hp : 1 < ks.p.toNat) (hn : logs.length ≤ 2 ^ 32)
    (h2 : 2 ≤ logs.length) :
    ∃ stateA shiftedB composed direct,
      testCompositionTheorem ks logs = .ok (some (stateA, shiftedB, composed, direct, true)) ∧
      stateForLogs ks (logs.take (logs.length / 2)) = .ok stateA ∧
      shiftedStateForLogs ks (logs.drop (logs.length / 2)) (logs.length / 2) = .ok shiftedB ∧
      composed.toNat = (stateA.toNat + shiftedB.toNat) % ks.p.toNat ∧
      stateForLogs ks logs = .ok direct := by
  have hmid : logs.length / 2 ≤ logs.length := Nat.div_le_self _ _
  have hlen : (logs.take (logs.length / 2)).length = logs.length / 2 := List.length_take_of_le hmid
  have htotal : logs.length / 2 + (logs.drop (logs.length / 2)).length ≤ 2 ^ 32 := by
    rw [List.length_drop]
    omega
  have hfirst : (logs.take (logs.length / 2)).length ≤ 2 ^ 32 := by omega
  obtain ⟨d, hd, hrep⟩ := stateForLogs_rep hp hn
  obtain ⟨a, ha, hrepa⟩ := stateForLogs_rep hp hfirst
  obtain ⟨b, hb, hrepb⟩ := shiftedStateForLogs_rep hp htotal
  have hcut := state_eq_of_cut hmid hrep hrepa hrepb
  -- The two states are 64-bit values, so their sum fits.
  have halt := a.isLt
  have hblt := b.isLt
  obtain ⟨sum, hsum, hsumval⟩ := checkedAdd_returns (a := a.widen) (b := b.widen) (by
    rw [U64.toNat_widen, U64.toNat_widen]
    omega)
  obtain ⟨composed, hcomposed, hcomposedval⟩ := checkedRem_returns (a := sum) (b := ks.p.widen) (by
    rw [U64.toNat_widen]
    omega)
  rw [hsumval, U64.toNat_widen, U64.toNat_widen, U64.toNat_widen, ← hcut] at hcomposedval
  have heq : U128.truncate composed = d := by
    apply BitVec.eq_of_toNat_eq
    rw [U128.toNat_truncate (by rw [hcomposedval]; exact d.isLt), hcomposedval]
  refine ⟨a, b, d, d, ?_, ha, hb, hcut, hd⟩
  rw [testCompositionTheorem, if_neg (by omega)]
  simp only [ha, hb, hd, hlen, hsum, hcomposed, heq, ok_bind, beq_self_eq_true]
  rfl

end

/-- The three loops of the program, for all parameters that `new` accepts and all
    logs of up to `2^32` entries. At every cut `k` the prefix state is the state
    of the first part, and the state of the log is the sum modulo `p` of the
    state of the first part and the state of the second part at offset `k`. So
    the composition test of the program succeeds, and its four values are the
    states of the two halves, their sum and the state of the log. -/
theorem loops_agree {q p : U64} (hq : 1 ≤ q.toNat) (hp : 1 < p.toNat) {logs : List U64}
    (hn : logs.length ≤ 2 ^ 32) :
    ∃ ks, KSentry.new q p = .ok ks ∧
      (∃ states d, prefixStates ks logs = .ok states ∧ stateForLogs ks logs = .ok d ∧
        states.length = logs.length ∧
        ∀ k ≤ logs.length, ∃ dk s, stateForLogs ks (logs.take k) = .ok dk ∧
          shiftedStateForLogs ks (logs.drop k) k = .ok s ∧
          (k = 0 → dk = 0#64) ∧ (0 < k → states[k - 1]? = some dk) ∧
          d.toNat = (dk.toNat + s.toNat) % p.toNat) ∧
      (2 ≤ logs.length → ∃ stateA shiftedB composed direct,
        testCompositionTheorem ks logs = .ok (some (stateA, shiftedB, composed, direct, true)) ∧
        stateForLogs ks (logs.take (logs.length / 2)) = .ok stateA ∧
        shiftedStateForLogs ks (logs.drop (logs.length / 2)) (logs.length / 2) = .ok shiftedB ∧
        composed.toNat = (stateA.toNat + shiftedB.toNat) % p.toNat ∧
        stateForLogs ks logs = .ok direct) := by
  obtain ⟨ks, hks, rfl, rfl⟩ := KSentry.exists_new hp hq
  refine ⟨ks, hks, ?_, testCompositionTheorem_eq_true hp hn⟩
  obtain ⟨states, hstates, hlen, hprefix⟩ := prefixStates_rep hp hn
  obtain ⟨d, hd, hrep⟩ := stateForLogs_rep hp hn
  refine ⟨states, d, hstates, hd, hlen, fun k hk => ?_⟩
  have htake : (logs.take k).length ≤ 2 ^ 32 := by rw [List.length_take]; omega
  have hdrop : k + (logs.drop k).length ≤ 2 ^ 32 := by rw [List.length_drop]; omega
  obtain ⟨dk, hdk, hrepk⟩ := stateForLogs_rep hp htake
  obtain ⟨s, hs, hreps⟩ := shiftedStateForLogs_rep hp hdrop
  refine ⟨dk, s, hdk, hs, ?_, ?_, state_eq_of_cut hk hrep hrepk hreps⟩
  · rintro rfl
    exact hrepk.unique (rep_zero (show 0 < ks.p.toNat by omega))
  · intro hpos
    have hlt : k - 1 < states.length := by omega
    have hentry := hprefix (k - 1) _ (List.getElem?_eq_getElem hlt)
    rw [Nat.sub_add_cancel hpos] at hentry
    rw [List.getElem?_eq_getElem hlt, hentry.unique hrepk]

/-- The cut of `[5, 6, 7]` in front of its last entry, and the composition test, which
    cuts behind the first one. -/
theorem loops_agree_three :
    ∃ ks states d dk s, KSentry.new 3#64 101#64 = .ok ks ∧
      prefixStates ks [5#64, 6#64, 7#64] = .ok states ∧ states[1]? = some dk ∧
      stateForLogs ks [5#64, 6#64, 7#64] = .ok d ∧ shiftedStateForLogs ks [7#64] 2 = .ok s ∧
      d.toNat = (dk.toNat + s.toNat) % 101 ∧
      ∃ a b composed direct, testCompositionTheorem ks [5#64, 6#64, 7#64] =
          .ok (some (a, b, composed, direct, true)) ∧
        stateForLogs ks [5#64] = .ok a ∧ shiftedStateForLogs ks [6#64, 7#64] 1 = .ok b ∧
        composed.toNat = (a.toNat + b.toNat) % 101 := by
  obtain ⟨ks, hks, ⟨states, d, hstates, hd, -, hcut⟩, htest⟩ :=
    loops_agree (q := 3#64) (p := 101#64) (by decide) (by decide)
      (show [5#64, 6#64, 7#64].length ≤ 2 ^ 32 by decide)
  obtain ⟨dk, s, -, hs, -, hentry, hsum⟩ := hcut 2 (by decide)
  obtain ⟨a, b, composed, direct, hresult, ha, hb, hcomposed, -⟩ := htest (by decide)
  exact ⟨ks, states, d, dk, s, hks, hstates, hentry (by decide), hd, hs, hsum, a, b, composed, direct,
    hresult, ha, hb, hcomposed⟩

end TimeFence.Metrics.Main
