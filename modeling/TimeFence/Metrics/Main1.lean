import TimeFence.Metrics.KSentry

/-!
# The triangular metrics program

Model of the accumulator of `ksentry-metrics/src/bin/main1.rs` (lines 7–74): the
metrics `KSentry` with triangular exponents, computed with `checked_mul`.
`stateForLogs_rep` holds for logs of up to `2^32 - 1` elements, where the
exponents fit in a `u64`.
-/

namespace TimeFence.Metrics.Main1

open TimeFence.Common TimeFence.Algebra

/-- The exponent of `weight_for_index` (lines 51–55). -/
def triangularExponent (ii : U64) : Exec U64 := do
  let s ← checkedAdd ii 1#64
  let m ← expect "triangular exponent overflow" (optionMul ii s)
  pure (m / 2#64)

/-- Model of `weight_for_index` (lines 50–57). -/
def weightForIndex (self : KSentry) (i : ℕ) : Exec U64 := self.weightForIndex triangularExponent i

/-- Model of `ingest_telemetry` (lines 59–68). -/
def ingestTelemetry (self : KSentry) (logs : List U64) : Exec KSentry :=
  self.ingestTelemetry triangularExponent logs

/-- Model of `state_for_logs` (lines 70–74). -/
def stateForLogs (self : KSentry) (logs : List U64) : Exec U64 :=
  self.stateForLogs triangularExponent logs

theorem triangularExponent_returns (ii : U64) (h : ii.toNat < 2 ^ 32) :
    Returns (triangularExponent ii) fun t => t.toNat = tri ii.toNat := by
  have h1 : (1#64).toNat = 1 := rfl
  refine (checkedAdd_returns (by rw [h1]; omega)).bind fun s hs => ?_
  rw [h1] at hs
  obtain ⟨m, hm, hmul⟩ := optionMul_eq_some (a := ii) (b := s)
    (by rw [hs]; exact mul_succ_lt_of_u32 h)
  rw [hm, expect_some, ok_bind]
  refine Returns.pure ?_
  rw [BitVec.toNat_udiv, hmul, hs]
  rfl

/-- The exponent of a position. -/
theorem triangularExponent_index {i : ℕ} (hi : i < 2 ^ 32) :
    Returns (triangularExponent (BitVec.ofNat 64 i)) fun t => t.toNat = tri i := by
  have hin : (BitVec.ofNat 64 i).toNat = i := toNat_ofNat_index (by omega)
  have h := triangularExponent_returns (BitVec.ofNat 64 i) (by rw [hin]; omega)
  rwa [hin] at h

theorem stateForLogs_rep (ks : KSentry) (hp : 1 < ks.p.toNat) (logs : List U64)
    (hn : logs.length < 2 ^ 32) :
    Returns (stateForLogs ks logs) fun d =>
      Rep ks.p.toNat d
        (wsum (fun i => (ks.q.toNat : ZMod ks.p.toNat) ^ tri i) (residues ks.p.toNat logs)) :=
  KSentry.stateForLogs_rep hp logs tri fun _ hi => triangularExponent_index (by omega)

end TimeFence.Metrics.Main1
