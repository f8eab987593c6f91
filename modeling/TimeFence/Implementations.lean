import TimeFence.Core.KSentry
import TimeFence.Metrics.Main1
import TimeFence.Verus.Exec

/-!
# Three implementations of one accumulator

The verified artifact, the triangular metrics program and `timefence-core` were
written independently: a loop of `T_i` multiplications in `u64`, square and
multiply with checked `u64` exponents, and an updater that carries its registers
in `u128`. On the logs that the artifact admits they return the same number
(`implementations_agree`), since all three represent the weighted sum of the log.
-/

namespace TimeFence

open TimeFence.Common TimeFence.Algebra

/-- Widening a log does not change its residues. -/
theorem residues_map_widen (p : ℕ) (logs : List U64) :
    residues p (logs.map U64.widen) = residues p logs := by
  unfold residues
  rw [List.map_map]
  apply List.map_congr_left
  intro x _
  rw [Function.comp_apply, U64.toNat_widen]

/-- For every log of at most `k ≤ 2^32 - 1` elements, every `q ≥ 1` and every
    `p > 1`, the three programs return without panicking, and they return the
    same number. -/
theorem implementations_agree {logs : List U64} {q p k : U64} (hn : logs.length ≤ k.toNat)
    (hk : k.toNat ≤ 2 ^ 32 - 1) (hq : 1 ≤ q.toNat) (hp : 1 < p.toNat) :
    ∃ out ks state st, Verus.runFromEmptyK logs q p k = .ok out ∧
      Metrics.KSentry.new q p = .ok ks ∧ Metrics.Main1.stateForLogs ks logs = .ok state ∧
      Core.ksentryFast (logs.map U64.widen) q.widen p.widen = .ok st ∧
      out = state ∧ st.digest.toNat = out.toNat := by
  have hpw : Core.ModulusOk p.widen :=
    ⟨by rwa [U64.toNat_widen], by rw [U64.toNat_widen]; exact p.isLt.le⟩
  have hqw : 0 < q.widen.toNat := by rwa [U64.toNat_widen]
  obtain ⟨out, hout, hrep⟩ := Verus.runFromEmptyK_rep logs q k hp (by omega)
  have hnew := Metrics.KSentry.new_returns hp hq
  obtain ⟨state, hstate, hrep'⟩ := Metrics.Main1.stateForLogs_rep ⟨0#64, q, p⟩ hp logs
    (by omega)
  obtain ⟨st, hst, hdigest⟩ := Core.ksentryFast_digest hpw hqw (logs.map U64.widen)
    (by rw [List.length_map]; omega)
  rw [Core.digestOf, U64.toNat_widen, U64.toNat_widen, residues_map_widen] at hdigest
  exact ⟨out, _, state, st, hout, hnew, hstate, hst, hrep.unique hrep',
    (hdigest.toNat_eq_iff hrep).mpr rfl⟩

/-- The agreement on a log of three elements. -/
theorem implementations_agree_three :
    ∃ out ks state st,
      Verus.runFromEmptyK [5#64, 11#64, 7#64] 7#64 1000000007#64 3#64 = .ok out ∧
      Metrics.KSentry.new 7#64 1000000007#64 = .ok ks ∧
      Metrics.Main1.stateForLogs ks [5#64, 11#64, 7#64] = .ok state ∧
      Core.ksentryFast ([5#64, 11#64, 7#64].map U64.widen) (U64.widen 7#64)
        (U64.widen 1000000007#64) = .ok st ∧
      out = state ∧ st.digest.toNat = out.toNat :=
  implementations_agree (by decide) (by decide) (by decide) (by decide)

end TimeFence
