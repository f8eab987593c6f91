import TimeFence.Common.Chunks
import TimeFence.Core.Verdict

/-!
# Chunking and localization

Model of `timefence-core/src/chunker.rs`: a stream is cut into chunks, each
chunk gets the checkpoint of a fresh accumulator, and two chunkings are compared
pair by pair with `zip`.

* `chunkStream_returns`: the checkpoints of a chunking, one for each chunk, with
  its index range and its local digest.
* `compareChunked_returns`: a comparison reports one verdict for each index at
  which both streams have a chunk, and the verdict depends on the lengths and
  the local digests of these two chunks only.
* `length_change_detected_iff`: the chunks that are left without a partner are
  never reported, so a change of length can go unseen. It is seen exactly when
  it also changes a chunk that both streams have.
-/

namespace TimeFence.Core

open TimeFence.Common TimeFence.Algebra

/-! ## Model -/

/-- `struct ChunkedStream` (lines 11–14). -/
structure ChunkedStream where
  checkpoints : List TimeFenceCheckpoint
  deriving DecidableEq, Repr

/-- The checkpoint of one chunk (lines 29–40). The product
    `chunk_idx * chunk_size` is a checked `usize` operation. -/
def chunkCheckpoint (streamId : String) (epoch chunkSize : U64) (q p : U128) (chunk : List U128)
    (chunkIdx : ℕ) : Exec TimeFenceCheckpoint := do
  let startSeq ← checkedMul (BitVec.ofNat 64 chunkIdx) chunkSize
  let len := BitVec.ofNat 64 chunk.length
  let st ← ksentryFast chunk q p
  TimeFenceCheckpoint.new streamId epoch startSeq len st.digest q p

/-- Model of `chunk_stream` (lines 16–45). -/
def chunkStream (streamId : String) (epoch : U64) (xs : List U128) (chunkSize : U64)
    (q p : U128) : Exec ChunkedStream := do
  assertThat (0#64 < chunkSize) "chunk_size must be > 0"
  let checkpoints ← (chunks chunkSize.toNat xs).zipIdx.foldlM (fun checkpoints (chunk, chunkIdx) => do
    let checkpoint ← chunkCheckpoint streamId epoch chunkSize q p chunk chunkIdx
    pure (checkpoints ++ [checkpoint])) []
  pure { checkpoints }

/-- Model of `verify_chunked_streams` (lines 47–57). -/
def verifyChunkedStreams (expected observed : ChunkedStream) : List VerificationReport :=
  (expected.checkpoints.zip observed.checkpoints).map fun (e, o) => verifyCheckpoint e o

/-- Model of `first_bad_chunk_index` (lines 59–61). -/
def firstBadChunkIndex (reports : List VerificationReport) : Option ℕ :=
  reports.findIdx? fun r => r.isSuspicious

/-- Two streams chunked with the same parameters and compared. -/
def compareChunked (streamId : String) (epoch : U64) (xs ys : List U128) (chunkSize : U64)
    (q p : U128) : Exec (List VerificationReport) := do
  let expected ← chunkStream streamId epoch xs chunkSize q p
  let observed ← chunkStream streamId epoch ys chunkSize q p
  pure (verifyChunkedStreams expected observed)

/-- The chunk verifier repeats `verify_many`. -/
theorem verifyChunkedStreams_eq (expected observed : ChunkedStream) :
    verifyChunkedStreams expected observed =
      verifyMany expected.checkpoints observed.checkpoints := rfl

/-! ## The checkpoints of a chunking -/

section

variable {streamId : String} {epoch : U64} {xs ys : List U128} {chunkSize : U64} {q p : U128}

/-- `cp` is the checkpoint of the chunk with index `k`, which starts at
    `k · chunkSize`. -/
structure IsChunkCheckpoint (streamId : String) (epoch chunkSize : U64) (q p : U128) (k : ℕ)
    (chunk : List U128) (cp : TimeFenceCheckpoint) : Prop where
  start_eq : cp.startSeq.toNat = k * chunkSize.toNat
  checkpoint : IsCheckpointOf streamId epoch cp.startSeq q p chunk cp

theorem chunkCheckpoint_returns (hp : ModulusOk p) (hq : 0 < q.toNat) {k : ℕ} {chunk : List U128}
    (hk : k < 2 ^ 64) (h : k * chunkSize.toNat + chunk.length < 2 ^ 64) :
    Returns (chunkCheckpoint streamId epoch chunkSize q p chunk k)
      (IsChunkCheckpoint streamId epoch chunkSize q p k chunk) := by
  have hkn : (BitVec.ofNat 64 k).toNat = k := toNat_ofNat_index hk
  refine (checkedMul_returns (by rw [hkn]; omega)).bind fun startSeq hstart => ?_
  rw [hkn] at hstart
  refine (ksentryFast_digest hp hq chunk (by omega)).bind fun st hst => ?_
  refine (new_isCheckpointOf hst (by rw [hstart]; exact h)).mono ?_
  rintro cp ⟨rfl, hcp⟩
  exact ⟨hstart, hcp⟩

/-- `chunk_stream` returns the checkpoint of each chunk, in order. -/
theorem chunkStream_returns (hp : ModulusOk p) (hq : 0 < q.toNat) (hc : 0 < chunkSize.toNat)
    (hn : xs.length < 2 ^ 64) :
    Returns (chunkStream streamId epoch xs chunkSize q p) fun cs =>
      cs.checkpoints.length = (chunks chunkSize.toNat xs).length ∧
      ∀ k chunk cp, (chunks chunkSize.toNat xs)[k]? = some chunk → cs.checkpoints[k]? = some cp →
        IsChunkCheckpoint streamId epoch chunkSize q p k chunk cp := by
  rw [chunkStream, assertThat_of (zero_lt_of_toNat hc), ok_bind]
  refine (Returns.foldlM_push (P := IsChunkCheckpoint streamId epoch chunkSize q p)
    fun k chunk hchunk => ?_).bind fun checkpoints h => Returns.pure h
  rw [chunks_getElem? hc] at hchunk
  split_ifs at hchunk with hk
  cases hchunk
  have hlen := length_window chunkSize.toNat k xs
  have hkn : k ≤ k * chunkSize.toNat := Nat.le_mul_of_pos_right k hc
  exact chunkCheckpoint_returns hp hq (by omega) (by omega)

/-! ## The verdicts of a comparison -/

/-- The verdict on the chunks with index `k`. -/
def chunkVerdict (q p : U128) (c : ℕ) (xs ys : List U128) (k : ℕ) : VerificationStatus :=
  streamVerdict q p (window c k xs) (window c k ys)

/-- Verifying the checkpoints of two chunks with one index. -/
theorem IsChunkCheckpoint.status_eq {k : ℕ} {chunkE chunkO : List U128} {e o : TimeFenceCheckpoint}
    (he : IsChunkCheckpoint streamId epoch chunkSize q p k chunkE e)
    (ho : IsChunkCheckpoint streamId epoch chunkSize q p k chunkO o) :
    (verifyCheckpoint e o).status = streamVerdict q p chunkE chunkO := by
  have hstart : e.startSeq = o.startSeq :=
    BitVec.eq_of_toNat_eq (he.start_eq.trans ho.start_eq.symm)
  have hcp := he.checkpoint
  rw [hstart] at hcp
  exact hcp.status_eq ho.checkpoint

/-- A comparison pairs the chunks by index, up to the shorter chunking. -/
theorem compareChunked_returns (hp : ModulusOk p) (hq : 0 < q.toNat) (hc : 0 < chunkSize.toNat)
    (hx : xs.length < 2 ^ 64) (hy : ys.length < 2 ^ 64) :
    Returns (compareChunked streamId epoch xs ys chunkSize q p) fun reports =>
      (∀ k, k < reports.length ↔ k * chunkSize.toNat < min xs.length ys.length) ∧
      ∀ k r, reports[k]? = some r → r.status = chunkVerdict q p chunkSize.toNat xs ys k := by
  refine (chunkStream_returns hp hq hc hx).bind fun e ⟨hle, he⟩ => ?_
  refine (chunkStream_returns hp hq hc hy).bind fun o ⟨hlo, ho⟩ => Returns.pure ⟨?_, ?_⟩
  · intro k
    rw [verifyChunkedStreams_eq, verifyMany_length, hle, hlo, lt_min_iff, lt_min_iff,
      lt_length_chunks_iff hc, lt_length_chunks_iff hc]
  · intro k r hr
    rw [verifyChunkedStreams, List.getElem?_map, Option.map_eq_some_iff] at hr
    obtain ⟨⟨cpE, cpO⟩, hzip, rfl⟩ := hr
    obtain ⟨hE, hO⟩ := List.getElem?_zip_eq_some.mp hzip
    have hkE : k * chunkSize.toNat < xs.length := by
      rw [← lt_length_chunks_iff hc, ← hle]
      exact (List.getElem?_eq_some_iff.mp hE).1
    have hkO : k * chunkSize.toNat < ys.length := by
      rw [← lt_length_chunks_iff hc, ← hlo]
      exact (List.getElem?_eq_some_iff.mp hO).1
    have hchunkE := he k _ cpE (by rw [chunks_getElem? hc, if_pos hkE]) hE
    have hchunkO := ho k _ cpO (by rw [chunks_getElem? hc, if_pos hkO]) hO
    exact hchunkE.status_eq hchunkO

/-- A comparison has a bad chunk exactly when some index in its range gets a
    verdict other than clean. -/
theorem firstBadChunkIndex_isSome_iff {verdict : ℕ → VerificationStatus} {limit : ℕ → Prop}
    {reports : List VerificationReport} (hlen : ∀ k, k < reports.length ↔ limit k)
    (hstatus : ∀ k r, reports[k]? = some r → r.status = verdict k) :
    (firstBadChunkIndex reports).isSome = true ↔ ∃ k, limit k ∧ verdict k ≠ .clean := by
  rw [firstBadChunkIndex, List.findIdx?_isSome, List.any_eq_true]
  constructor
  · rintro ⟨r, hr, hbad⟩
    obtain ⟨k, hk, rfl⟩ := List.getElem_of_mem hr
    refine ⟨k, (hlen k).mp hk, ?_⟩
    rw [← hstatus k _ (List.getElem?_eq_getElem hk)]
    simpa [VerificationReport.isSuspicious, VerificationReport.isClean] using hbad
  · rintro ⟨k, hk, hbad⟩
    have hk' := (hlen k).mpr hk
    rw [← hstatus k _ (List.getElem?_eq_getElem hk')] at hbad
    exact ⟨_, List.getElem_mem hk',
      by simpa [VerificationReport.isSuspicious, VerificationReport.isClean] using hbad⟩

/-! ## Changes of length -/

theorem diffAt_window {c k r : ℕ} (hr : r < c) (xs ys : List U128) :
    diffAt (window c k xs) (window c k ys) r = diffAt xs ys (k * c + r) := by
  rw [diffAt, diffAt, window_getD hr, window_getD hr]

/-- Two full chunks with one index are clean exactly when their difference is
    invisible modulo `p`. -/
theorem chunkVerdict_eq_clean_iff (q p : U128) {c k : ℕ} (hx : (k + 1) * c ≤ xs.length)
    (hy : (k + 1) * c ≤ ys.length) :
    chunkVerdict q p c xs ys k = .clean ↔
      (p.toNat : ℤ) ∣
        ∑ r ∈ Finset.range c, diffAt xs ys (k * c + r) * (q.toNat : ℤ) ^ tri r := by
  have hlx := length_window_of_le hx
  have hly := length_window_of_le hy
  have hsum : ∑ r ∈ Finset.range c,
        diffAt (window c k xs) (window c k ys) r * (q.toNat : ℤ) ^ tri r =
      ∑ r ∈ Finset.range c, diffAt xs ys (k * c + r) * (q.toNat : ℤ) ^ tri r := by
    apply Finset.sum_congr rfl
    intro r hr
    rw [diffAt_window (Finset.mem_range.mp hr)]
  rw [chunkVerdict, streamVerdict_eq_clean_iff, hlx, hly, hsum]
  simp

/-- What lets a chunked comparison see a change of length: the shorter stream
    ends inside a chunk, or one of its chunks has another digest in the longer
    stream. -/
def LengthChangeVisible (q p : U128) (c : ℕ) (xs ys : List U128) : Prop :=
  ¬ c ∣ min xs.length ys.length ∨
    ∃ k < min xs.length ys.length / c, ¬ (p.toNat : ℤ) ∣
      ∑ r ∈ Finset.range c, diffAt xs ys (k * c + r) * (q.toNat : ℤ) ^ tri r

/-- Streams of different lengths get a bad verdict exactly when the change of
    length is visible. -/
theorem exists_chunkVerdict_ne_clean_iff {c : ℕ} (hc : 0 < c) (hne : xs.length ≠ ys.length) :
    (∃ k, k * c < min xs.length ys.length ∧ chunkVerdict q p c xs ys k ≠ .clean) ↔
      LengthChangeVisible q p c xs ys := by
  -- A chunk that fits in the shorter stream is full in both.
  have hfull : ∀ {k}, k < min xs.length ys.length / c →
      (k + 1) * c ≤ xs.length ∧ (k + 1) * c ≤ ys.length := fun h =>
    le_min_iff.mp ((Nat.le_div_iff_mul_le hc).mp (Nat.succ_le_of_lt h))
  constructor
  · rintro ⟨k, hk, hbad⟩
    by_cases hdvd : c ∣ min xs.length ys.length
    · have hlt : k < min xs.length ys.length / c :=
        (Nat.lt_div_iff_mul_lt' hdvd k).mpr (by rwa [mul_comm])
      obtain ⟨hxk, hyk⟩ := hfull hlt
      exact .inr ⟨k, hlt, (chunkVerdict_eq_clean_iff q p hxk hyk).not.mp hbad⟩
    · exact .inl hdvd
  · rintro (hdvd | ⟨k, hlt, hdigest⟩)
    · -- The last chunk of the shorter stream is partial, and longer in the other one.
      have hmod : 0 < min xs.length ys.length % c := Nat.emod_pos_of_not_dvd hdvd
      have hdiv := Nat.div_add_mod' (min xs.length ys.length) c
      have hlt := Nat.mod_lt (min xs.length ys.length) hc
      refine ⟨min xs.length ys.length / c, by omega, ?_⟩
      have hlen : (window c (min xs.length ys.length / c) xs).length ≠
          (window c (min xs.length ys.length / c) ys).length := by
        rw [length_window, length_window]
        omega
      rw [chunkVerdict, (streamVerdict_eq_length_iff q p _ _).mpr hlen]
      simp
    · obtain ⟨hxk, hyk⟩ := hfull hlt
      refine ⟨k, ?_, (chunkVerdict_eq_clean_iff q p hxk hyk).not.mpr hdigest⟩
      rw [add_one_mul] at hxk hyk
      omega

/-- When a change of length is detected. A chunked comparison detects it exactly
    when it is visible in the chunks that both streams have, and clean reports
    on two slices of checkpoints imply equal lengths exactly when neither slice
    is a proper prefix of the other. -/
theorem length_change_detected_iff (hp : ModulusOk p) (hq : 0 < q.toNat)
    (hc : 0 < chunkSize.toNat) (hx : xs.length < 2 ^ 64) (hy : ys.length < 2 ^ 64)
    (e o : List TimeFenceCheckpoint) :
    Returns (compareChunked streamId epoch xs ys chunkSize q p) (fun reports =>
      (xs.length ≠ ys.length → (firstBadChunkIndex reports).isSome = true) ↔
        xs.length = ys.length ∨ LengthChangeVisible q p chunkSize.toNat xs ys) ∧
    (((∀ r ∈ verifyMany e o, r.isClean = true) → e.length = o.length) ↔
      e.length = o.length ∨ ¬ (e <+: o ∨ o <+: e)) := by
  constructor
  · refine (compareChunked_returns hp hq hc hx hy).mono fun reports ⟨hlen, hstatus⟩ => ?_
    rw [firstBadChunkIndex_isSome_iff hlen hstatus]
    by_cases hne : xs.length = ys.length
    · simp [hne]
    · rw [exists_chunkVerdict_ne_clean_iff hc hne]
      simp [hne]
  · rw [verifyMany_clean_iff]
    tauto

/-- Cutting `[1, 2, 3, 4, 5]` to `[1, 2, 3]` in chunks of two ends the stream
    inside a chunk, so it is detected. -/
theorem partial_chunk_detected :
    Returns (compareChunked "s" 0#64 [1#128, 2#128, 3#128, 4#128, 5#128] [1#128, 2#128, 3#128]
      2#64 7#128 1000000007#128) fun reports => (firstBadChunkIndex reports).isSome = true := by
  refine (length_change_detected_iff modulusOk_demo (by decide) (by decide) (by decide)
    (by decide) [] []).1.mono ?_
  intro _ hiff
  exact hiff.mpr (.inr (.inl (by decide))) (by decide)

/-- Dropping the second of two chunks goes unseen: the comparison of
    `[1, 2, 3, 4]` with `[1, 2]` in chunks of two has no bad chunk, and an empty
    slice of checkpoints gets no suspicious report. -/
theorem trailing_chunk_dropped_unseen :
    (∃ reports,
      compareChunked "s" 0#64 [1#128, 2#128, 3#128, 4#128] [1#128, 2#128] 2#64 7#128
        1000000007#128 = .ok reports ∧
      firstBadChunkIndex reports = none) ∧
    [1#128, 2#128, 3#128, 4#128].length ≠ [1#128, 2#128].length ∧
    ∃ e : List TimeFenceCheckpoint, (∀ r ∈ verifyMany e [], r.isClean = true) ∧
      e.length ≠ ([] : List TimeFenceCheckpoint).length := by
  refine ⟨⟨_, rfl, by decide⟩, by decide, ?_⟩
  exact ⟨[⟨"s", 0#64, 0#64, 2#64, 2#64, 15#128, 7#128, 1000000007#128⟩], by simp [verifyMany],
    by decide⟩

end

end TimeFence.Core
