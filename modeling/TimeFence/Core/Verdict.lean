import TimeFence.Core.Collision
import TimeFence.Core.Verifier

/-!
# The verdict on two streams

A checkpoint of a stream carries its length and its digest. When two streams
are checkpointed from one start with one set of parameters and the checkpoints
are verified, the verdict is a function of the two streams alone:
`streamVerdict`. It does not depend on the order in which the digests and the
checkpoints are computed, so the whole-stream verifier and the chunk verifier
share it.

* `IsCheckpointOf.status_eq`: verifying two such checkpoints gives the verdict.
* `streamVerdict_eq_clean_iff`, `streamVerdict_eq_digestMismatch_iff`,
  `streamVerdict_eq_length_iff`: what each verdict says about the streams.
-/

namespace TimeFence.Core

open TimeFence.Common TimeFence.Algebra

/-! ## Checkpoints of a stream -/

/-- `cp` is the checkpoint of `xs` from position `startSeq` on, with the digest
    of a fresh accumulator run over `xs`. -/
structure IsCheckpointOf (streamId : String) (epoch startSeq : U64) (q p : U128) (xs : List U128)
    (cp : TimeFenceCheckpoint) : Prop where
  length_lt : xs.length < 2 ^ 64
  digest_rep : Rep p.toNat cp.digest (digestOf q p xs)
  new_eq : TimeFenceCheckpoint.new streamId epoch startSeq (BitVec.ofNat 64 xs.length) cp.digest
    q p = .ok cp

section

variable {streamId : String} {epoch startSeq : U64} {q p : U128} {xs ys : List U128}

/-- A digest of the stream makes a checkpoint of it, unless the range of the
    stream overflows. -/
theorem new_isCheckpointOf {digest : U128} (hdigest : Rep p.toNat digest (digestOf q p xs))
    (h : startSeq.toNat + xs.length < 2 ^ 64) :
    Returns
      (TimeFenceCheckpoint.new streamId epoch startSeq (BitVec.ofNat 64 xs.length) digest q p)
      (fun cp => cp.startSeq = startSeq ∧ IsCheckpointOf streamId epoch startSeq q p xs cp) := by
  have hn : xs.length < 2 ^ 64 := by omega
  have hlen : (BitVec.ofNat 64 xs.length).toNat = xs.length := toNat_ofNat_index hn
  rw [← hlen] at h
  obtain ⟨cp, hnew, endSeq, -, rfl⟩ := TimeFenceCheckpoint.new_returns h
  exact ⟨_, hnew, rfl, hn, hdigest, hnew⟩

/-! ## The verdict -/

/-- The lengths are compared first, then the digests. -/
def streamVerdict (q p : U128) (xs ys : List U128) : VerificationStatus :=
  if xs.length ≠ ys.length then .metadataMismatch .length
  else if digestOf q p xs ≠ digestOf q p ys then .digestMismatch
  else .clean

/-- Verifying the checkpoints of two streams. -/
theorem IsCheckpointOf.status_eq {e o : TimeFenceCheckpoint}
    (he : IsCheckpointOf streamId epoch startSeq q p xs e)
    (ho : IsCheckpointOf streamId epoch startSeq q p ys o) :
    (verifyCheckpoint e o).status = streamVerdict q p xs ys := by
  have hlen : BitVec.ofNat 64 xs.length = BitVec.ofNat 64 ys.length ↔ xs.length = ys.length := by
    rw [← BitVec.toNat_inj, toNat_ofNat_index he.length_lt, toNat_ofNat_index ho.length_lt]
  rw [verifyCheckpoint_of_new he.new_eq ho.new_eq, streamVerdict]
  simp only [ne_eq, hlen, he.digest_rep.eq_iff ho.digest_rep]

variable (q p xs ys)

theorem streamVerdict_eq_length_iff :
    streamVerdict q p xs ys = .metadataMismatch .length ↔ xs.length ≠ ys.length := by
  unfold streamVerdict
  split_ifs with hlen <;> simp [hlen]

/-- Streams of one length are judged by their weighted difference. -/
theorem streamVerdict_of_length_eq (hlen : xs.length = ys.length) :
    streamVerdict q p xs ys =
      if (p.toNat : ℤ) ∣ ∑ i ∈ Finset.range xs.length, diffAt xs ys i * (q.toNat : ℤ) ^ tri i
      then .clean else .digestMismatch := by
  rw [streamVerdict, if_neg (not_not.mpr hlen), ite_not]
  simp only [digestOf_eq_iff_dvd q p hlen]

/-- A clean verdict: the difference of the streams is invisible modulo `p`. -/
theorem streamVerdict_eq_clean_iff :
    streamVerdict q p xs ys = .clean ↔
      xs.length = ys.length ∧ (p.toNat : ℤ) ∣
        ∑ i ∈ Finset.range xs.length, diffAt xs ys i * (q.toNat : ℤ) ^ tri i := by
  by_cases hlen : xs.length = ys.length
  · rw [streamVerdict_of_length_eq q p xs ys hlen, and_iff_right hlen]
    split_ifs with hdvd <;> simp [hdvd]
  · simp [(streamVerdict_eq_length_iff q p xs ys).mpr hlen, hlen]

theorem streamVerdict_eq_digestMismatch_iff :
    streamVerdict q p xs ys = .digestMismatch ↔
      xs.length = ys.length ∧ ¬ (p.toNat : ℤ) ∣
        ∑ i ∈ Finset.range xs.length, diffAt xs ys i * (q.toNat : ℤ) ^ tri i := by
  by_cases hlen : xs.length = ys.length
  · rw [streamVerdict_of_length_eq q p xs ys hlen, and_iff_right hlen]
    split_ifs with hdvd <;> simp [hdvd]
  · simp [(streamVerdict_eq_length_iff q p xs ys).mpr hlen, hlen]

/-- No other verdict is possible. -/
theorem streamVerdict_cases :
    streamVerdict q p xs ys = .metadataMismatch .length ∨ streamVerdict q p xs ys = .clean ∨
      streamVerdict q p xs ys = .digestMismatch := by
  unfold streamVerdict
  split_ifs <;> simp

/-- A stream is clean against itself. -/
theorem streamVerdict_self : streamVerdict q p xs xs = .clean := by simp [streamVerdict]

end

end TimeFence.Core
