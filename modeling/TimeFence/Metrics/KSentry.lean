import TimeFence.Common.ModU64

/-!
# The metrics accumulator

Model of the `KSentry` of the metrics programs. `ksentry-metrics/src/main.rs`
and `ksentry-metrics/src/bin/main1.rs` differ in the exponent that
`weight_for_index` gives to a position, so the exponent is an argument here.

If the exponent of every position of the log is computed without panicking, so is
the state, and it represents the weighted sum of the log (`stateForLogs_rep`); and
so are the states of all prefixes (`prefixStates_rep`).
-/

namespace TimeFence.Metrics

open TimeFence.Common TimeFence.Algebra

/-! ## Model -/

/-- `struct KSentry`. -/
structure KSentry where
  state : U64
  q : U64
  p : U64
  deriving DecidableEq, Repr

namespace KSentry

/-- Model of `KSentry::new`. -/
def new (q p : U64) : Exec KSentry := do
  assertThat (1#64 < p) "p must be > 1"
  assertThat (1#64 ≤ q) "q must be >= 1"
  pure { state := 0#64, q, p }

/-- Model of `weight_for_index`. -/
def weightForIndex (exponent : U64 → Exec U64) (self : KSentry) (i : ℕ) : Exec U64 := do
  let exp ← exponent (BitVec.ofNat 64 i)
  powModU64 self.q exp self.p

/-- The body of the loop of `ingest_telemetry`. -/
def ingestStep (exponent : U64 → Exec U64) (self : KSentry) (liRaw : U64) (i : ℕ) :
    Exec KSentry := do
  let li ← checkedRem liRaw self.p
  let w ← self.weightForIndex exponent i
  let term ← mulModU64 li w self.p
  let sum ← addModU64 self.state term self.p
  let state ← checkedRem sum self.p
  pure { self with state }

/-- Model of `ingest_telemetry`. -/
def ingestTelemetry (exponent : U64 → Exec U64) (self : KSentry) (logs : List U64) :
    Exec KSentry :=
  logs.zipIdx.foldlM (fun ks (liRaw, i) => ks.ingestStep exponent liRaw i)
    { self with state := 0#64 }

/-- Model of `state_for_logs`. -/
def stateForLogs (exponent : U64 → Exec U64) (self : KSentry) (logs : List U64) : Exec U64 := do
  let tmp ← self.ingestTelemetry exponent logs
  pure tmp.state

/-- The statements with which the other loops over a log end an iteration. -/
def addWeighted (exponent : U64 → Exec U64) (self : KSentry) (state li : U64) (idx : ℕ) :
    Exec U64 := do
  let w ← self.weightForIndex exponent idx
  let term ← mulModU64 li w self.p
  let state ← addModU64 state term self.p
  checkedRem state self.p

/-- Model of `prefix_states`, on `(states, state)`. -/
def prefixStates (exponent : U64 → Exec U64) (self : KSentry) (logs : List U64) :
    Exec (List U64) := do
  let (states, _) ← logs.zipIdx.foldlM (fun (states, state) (liRaw, i) => do
    let li ← checkedRem liRaw self.p
    let state ← self.addWeighted exponent state li i
    pure (states ++ [state], state)) ([], 0#64)
  pure states

/-! ## Specification -/

theorem new_returns {q p : U64} (hp : 1 < p.toNat) (hq : 1 ≤ q.toNat) :
    KSentry.new q p = .ok { state := 0#64, q, p } := by
  have hq' : 1#64 ≤ q := by
    rw [BitVec.le_def]
    exact hq
  rw [new, assertThat_of (one_lt_of_toNat (by norm_num) hp), ok_bind, assertThat_of hq', ok_bind]
  rfl

/-- The accumulator that `new` returns has the given parameters. -/
theorem exists_new {q p : U64} (hp : 1 < p.toNat) (hq : 1 ≤ q.toNat) :
    ∃ ks, KSentry.new q p = .ok ks ∧ ks.q = q ∧ ks.p = p :=
  ⟨_, new_returns hp hq, rfl, rfl⟩

section

variable {exponent : U64 → Exec U64}

theorem weightForIndex_rep {ks : KSentry} (hp : 1 < ks.p.toNat) {i e : ℕ}
    (he : Returns (exponent (BitVec.ofNat 64 i)) fun t => t.toNat = e) :
    Returns (ks.weightForIndex exponent i) fun w =>
      Rep ks.p.toNat w ((ks.q.toNat : ZMod ks.p.toNat) ^ e) := by
  refine he.bind fun t ht => ?_
  rw [← ht]
  exact powModU64_rep hp ks.q t

/-- The statements add the weighted element. -/
theorem addWeighted_rep {ks : KSentry} (hp : 1 < ks.p.toNat) {state li : U64}
    {z x : ZMod ks.p.toNat} (hstate : Rep ks.p.toNat state z) (hli : Rep ks.p.toNat li x) {i e : ℕ}
    (he : Returns (exponent (BitVec.ofNat 64 i)) fun t => t.toNat = e) :
    Returns (ks.addWeighted exponent state li i) fun s =>
      Rep ks.p.toNat s (z + x * (ks.q.toNat : ZMod ks.p.toNat) ^ e) := by
  have hpos : 0 < ks.p.toNat := by omega
  refine (weightForIndex_rep hp he).bind fun w hw => ?_
  refine (mulModU64_rep hpos li w).bind fun term hterm => ?_
  refine (addModU64_rep hstate.lt hterm.lt).bind fun sum hsum => ?_
  refine (checkedRem_rep hpos).mono fun s hs => hs.congr ?_
  rw [hsum.cast, hstate.cast, hterm.cast, hli.cast, hw.cast]

/-- One iteration adds the weighted element and keeps the parameters. -/
theorem ingestStep_rep (ks : KSentry) (hp : 1 < ks.p.toNat) {x : U64} {i e : ℕ}
    {z : ZMod ks.p.toNat}
    (he : Returns (exponent (BitVec.ofNat 64 i)) fun t => t.toNat = e)
    (hz : Rep ks.p.toNat ks.state z) :
    Returns (ks.ingestStep exponent x i) fun ks' => ks'.q = ks.q ∧ ks'.p = ks.p ∧
      Rep ks.p.toNat ks'.state (z + x.toNat * (ks.q.toNat : ZMod ks.p.toNat) ^ e) := by
  have hsplit : ks.ingestStep exponent x i = (do
      let li ← checkedRem x ks.p
      let state ← ks.addWeighted exponent ks.state li i
      pure { ks with state }) := by
    simp only [ingestStep, addWeighted, bind_assoc]
  rw [hsplit]
  refine (checkedRem_rep (show 0 < ks.p.toNat by omega)).bind fun li hli => ?_
  exact (addWeighted_rep hp hz hli he).bind fun state hstate => Returns.pure ⟨rfl, rfl, hstate⟩

/-- The loop keeps the parameters, and its state represents the weighted sum. -/
theorem ingestTelemetry_rep {ks : KSentry} (hp : 1 < ks.p.toNat) (logs : List U64) (e : ℕ → ℕ)
    (he : ∀ i < logs.length, Returns (exponent (BitVec.ofNat 64 i)) fun t => t.toNat = e i) :
    Returns (ks.ingestTelemetry exponent logs) fun ks' => ks'.q = ks.q ∧ ks'.p = ks.p ∧
      Rep ks.p.toNat ks'.state
        (wsum (fun i => (ks.q.toNat : ZMod ks.p.toNat) ^ e i) (residues ks.p.toNat logs)) := by
  refine Returns.foldlM_wsum (fun (ks' : KSentry) z =>
    ks'.q = ks.q ∧ ks'.p = ks.p ∧ Rep ks.p.toNat ks'.state z) ?_ ?_
  · exact ⟨rfl, rfl, rep_zero (by omega)⟩
  · rintro i x ⟨state, q, p⟩ z hi ⟨hq, hpe, hz⟩
    subst hq hpe
    exact ingestStep_rep ⟨state, ks.q, ks.p⟩ hp (he i hi) hz

/-- The state after a whole log. -/
theorem stateForLogs_rep {ks : KSentry} (hp : 1 < ks.p.toNat) (logs : List U64) (e : ℕ → ℕ)
    (he : ∀ i < logs.length, Returns (exponent (BitVec.ofNat 64 i)) fun t => t.toNat = e i) :
    Returns (ks.stateForLogs exponent logs) fun d =>
      Rep ks.p.toNat d
        (wsum (fun i => (ks.q.toNat : ZMod ks.p.toNat) ^ e i) (residues ks.p.toNat logs)) :=
  (ingestTelemetry_rep hp logs e he).bind fun _ h => Returns.pure h.2.2

/-- The weighted sum of a log, where the position `i` has the exponent `e i`. -/
def sumOf (ks : KSentry) (e : ℕ → ℕ) (logs : List U64) : ZMod ks.p.toNat :=
  wsum (fun i => (ks.q.toNat : ZMod ks.p.toNat) ^ e i) (residues ks.p.toNat logs)

theorem sumOf_concat (ks : KSentry) (e : ℕ → ℕ) (logs : List U64) (x : U64) :
    ks.sumOf e (logs ++ [x]) = ks.sumOf e logs +
      (x.toNat : ZMod ks.p.toNat) * (ks.q.toNat : ZMod ks.p.toNat) ^ e logs.length := by
  rw [sumOf, residues_concat, wsum_concat, length_residues]
  rfl

/-- The entry `k` is the state after `k + 1` entries of the log. -/
theorem prefixStates_rep {ks : KSentry} (hp : 1 < ks.p.toNat) (logs : List U64) (e : ℕ → ℕ)
    (he : ∀ i < logs.length, Returns (exponent (BitVec.ofNat 64 i)) fun t => t.toNat = e i) :
    Returns (ks.prefixStates exponent logs) fun states => states.length = logs.length ∧
      ∀ k s, states[k]? = some s → Rep ks.p.toNat s (ks.sumOf e (logs.take (k + 1))) := by
  have hpos : 0 < ks.p.toNat := by omega
  refine Returns.bind (Q := fun st => st.1.length = logs.length ∧
    Rep ks.p.toNat st.2 (ks.sumOf e logs) ∧
    ∀ k s, st.1[k]? = some s → Rep ks.p.toNat s (ks.sumOf e (logs.take (k + 1)))) ?_
    fun st hst => Returns.pure ⟨hst.1, hst.2.2⟩
  refine Returns.foldlM_zipIdx (fun pre (st : List U64 × U64) => st.1.length = pre.length ∧
    Rep ks.p.toNat st.2 (ks.sumOf e pre) ∧
    ∀ k s, st.1[k]? = some s → Rep ks.p.toNat s (ks.sumOf e (pre.take (k + 1)))) ?_ ?_
  · exact ⟨rfl, (rep_zero hpos).congr (wsum_nil _).symm, by simp⟩
  · rintro pre x post ⟨states, state⟩ hlogs ⟨hlen, hstate, hall⟩
    have hidx := length_lt_of_split hlogs
    refine (checkedRem_rep hpos).bind fun li hli => ?_
    refine (addWeighted_rep hp hstate hli (he pre.length hidx)).bind
      fun state' hstate' => Returns.pure ?_
    have hnew : Rep ks.p.toNat state' (ks.sumOf e (pre ++ [x])) :=
      hstate'.congr (ks.sumOf_concat e pre x).symm
    refine ⟨by simp [hlen], hnew, fun k s hs => ?_⟩
    dsimp only at hlen hall hs
    rcases Nat.lt_trichotomy k pre.length with hk | hk | hk
    · rw [List.getElem?_append_left (by omega)] at hs
      rw [List.take_append_of_le_length (by omega)]
      exact hall k s hs
    · -- The entry that was pushed last.
      subst hk
      rw [← hlen, List.getElem?_concat_length, Option.some.injEq] at hs
      subst hs
      rw [List.take_of_length_le (by simp)]
      exact hnew
    · rw [List.getElem?_eq_none (by simp; omega)] at hs
      cases hs

/-- A log panics at the first position whose exponent cannot be computed. -/
theorem stateForLogs_eq_error {ks : KSentry} (hp : 1 < ks.p.toNat) {logs : List U64} {n : ℕ}
    (hn : n < logs.length) (e : ℕ → ℕ)
    (he : ∀ i < n, Returns (exponent (BitVec.ofNat 64 i)) fun t => t.toNat = e i) {err : Panic}
    (herr : exponent (BitVec.ofNat 64 n) = .error err) :
    ks.stateForLogs exponent logs = .error err := by
  have hlen : (logs.take n).length = n := by rw [List.length_take]; omega
  have hsplit : logs = logs.take n ++ logs[n] :: logs.drop (n + 1) := by
    rw [List.getElem_cons_drop, List.take_append_drop]
  have hpre := ingestTelemetry_rep hp (logs.take n) e (by rwa [hlen])
  have hloop : ks.ingestTelemetry exponent logs = .error err := by
    rw [ingestTelemetry, hsplit]
    refine Returns.foldlM_zipIdx_eq_error hpre fun ks' h => ?_
    have hpos : 0 < ks'.p.toNat := by rw [h.2.1]; omega
    obtain ⟨li, hli, -⟩ := checkedRem_rep (x := logs[n]) hpos
    rw [hlen]
    show ks'.ingestStep exponent logs[n] n = .error err
    rw [ingestStep, hli, ok_bind, weightForIndex, herr, error_bind, error_bind]
  rw [stateForLogs, hloop, error_bind]

end

end KSentry

end TimeFence.Metrics
