import Mathlib.Algebra.Order.Floor.Div
import TimeFence.Core.Chunker

/-!
# The chunks tile the stream

`chunkStream_returns` describes the checkpoints of a chunking one by one. Here
they are read as ranges of positions: checkpoint `k` covers
`[k·c, min ((k+1)·c, n))`, so consecutive ranges meet and every position lies in
exactly one of them (`chunkStream_tiles`). The digest of a range is the weighted
sum of its elements with the weights of a fresh accumulator.
-/

namespace TimeFence.Core

open TimeFence.Common TimeFence.Algebra

section

variable {streamId : String} {epoch : U64} {xs : List U128} {chunkSize : U64} {q p : U128}

/-! ## Ranges -/

/-- The end of the range of the chunk with index `k`. -/
theorem add_length_window {c k : ℕ} (hk : k * c < xs.length) :
    k * c + (window c k xs).length = min ((k + 1) * c) xs.length := by
  rw [length_window, add_one_mul]
  omega

/-- The number of chunks. -/
theorem length_chunks {c : ℕ} (hc : 0 < c) (xs : List U128) :
    (chunks c xs).length = xs.length ⌈/⌉ c := by
  apply eq_of_forall_lt_iff
  intro k
  rw [lt_length_chunks_iff hc, ← not_le, ← not_le, ceilDiv_le_iff_le_mul hc, mul_comm]

/-- The weighted sum of a chunk, over the positions of the whole stream. -/
theorem digestOf_window (q p : U128) (c k : ℕ) (xs : List U128) :
    digestOf q p (window c k xs) =
      ((∑ r ∈ Finset.range (window c k xs).length,
        (xs.getD (k * c + r) 0).toNat * q.toNat ^ tri r : ℕ) : ZMod p.toNat) := by
  rw [digestOf, wsum, length_residues]
  push_cast
  apply Finset.sum_congr rfl
  intro r hr
  have hrc : r < c := by
    have := Finset.mem_range.mp hr
    rw [length_window] at this
    omega
  rw [getD_residues, window_getD hrc]
  rfl

/-! ## One checkpoint -/

/-- The fields that do not depend on the digest. -/
theorem IsCheckpointOf.fields {startSeq : U64} {cp : TimeFenceCheckpoint}
    (h : IsCheckpointOf streamId epoch startSeq q p xs cp) :
    cp.streamId = streamId ∧ cp.epoch = epoch ∧ cp.q = q ∧ cp.p = p ∧
      cp.len = BitVec.ofNat 64 xs.length ∧ checkedAdd cp.startSeq cp.len = .ok cp.endSeq := by
  obtain ⟨endSeq, hadd, hcp⟩ := TimeFenceCheckpoint.new_eq_ok_iff.mp h.new_eq
  rw [hcp]
  exact ⟨rfl, rfl, rfl, rfl, rfl, hadd⟩

/-- `cp` is the checkpoint with index `k` of a tiling of `xs` by chunks of `c`
    elements. -/
structure IsTile (streamId : String) (epoch : U64) (c : ℕ) (q p : U128) (xs : List U128) (k : ℕ)
    (cp : TimeFenceCheckpoint) : Prop where
  streamId_eq : cp.streamId = streamId
  epoch_eq : cp.epoch = epoch
  q_eq : cp.q = q
  p_eq : cp.p = p
  startSeq_eq : cp.startSeq.toNat = k * c
  endSeq_eq : cp.endSeq.toNat = min ((k + 1) * c) xs.length
  len_eq : cp.len.toNat = cp.endSeq.toNat - cp.startSeq.toNat
  one_le_len : 1 ≤ cp.len.toNat
  len_le : cp.len.toNat ≤ c
  /-- All chunks but the last are full. -/
  len_eq_of_not_last : k + 1 < xs.length ⌈/⌉ c → cp.len.toNat = c
  digest_eq : cp.digest.toNat =
    (∑ r ∈ Finset.range cp.len.toNat, (xs.getD (k * c + r) 0).toNat * q.toNat ^ tri r) % p.toNat

theorem IsChunkCheckpoint.isTile (hc : 0 < chunkSize.toNat) (hn : xs.length < 2 ^ 64) {k : ℕ}
    {cp : TimeFenceCheckpoint} (hk : k * chunkSize.toNat < xs.length)
    (h : IsChunkCheckpoint streamId epoch chunkSize q p k (window chunkSize.toNat k xs) cp) :
    IsTile streamId epoch chunkSize.toNat q p xs k cp := by
  obtain ⟨hid, hepoch, hqe, hpe, hlen, hadd⟩ := h.checkpoint.fields
  have hend := add_length_window hk
  have hwindow := length_window chunkSize.toNat k xs
  have hl : cp.len.toNat = (window chunkSize.toNat k xs).length := by
    rw [hlen, toNat_ofNat_index h.checkpoint.length_lt]
  obtain ⟨e, he, hsum⟩ := checkedAdd_returns (a := cp.startSeq) (b := cp.len)
    (by rw [h.start_eq, hl]; omega)
  rw [hadd, Except.ok.injEq] at he
  subst he
  rw [h.start_eq, hl, hend] at hsum
  have hdigest := h.checkpoint.digest_rep
  rw [digestOf_window] at hdigest
  exact
    { streamId_eq := hid
      epoch_eq := hepoch
      q_eq := hqe
      p_eq := hpe
      startSeq_eq := h.start_eq
      endSeq_eq := hsum
      len_eq := by rw [hl, hsum, h.start_eq]; omega
      one_le_len := by rw [hl]; omega
      len_le := by rw [hl]; omega
      len_eq_of_not_last := by
        intro hlast
        rw [← length_chunks hc, lt_length_chunks_iff hc] at hlast
        rw [hl, length_window_of_le hlast.le]
      digest_eq := by rw [hl]; exact hdigest.toNat_eq_mod }

/-- Consecutive tiles are adjacent. -/
theorem IsTile.adjacentTo {c k : ℕ} {cp next : TimeFenceCheckpoint}
    (h : IsTile streamId epoch c q p xs k cp) (hnext : IsTile streamId epoch c q p xs (k + 1) next) :
    cp.adjacentTo next = true := by
  have hseq : cp.endSeq = next.startSeq := by
    apply BitVec.eq_of_toNat_eq
    have hone := hnext.one_le_len
    rw [hnext.len_eq, hnext.endSeq_eq, hnext.startSeq_eq] at hone
    rw [h.endSeq_eq, hnext.startSeq_eq]
    omega
  simp [TimeFenceCheckpoint.adjacentTo, h.streamId_eq, hnext.streamId_eq, h.epoch_eq,
    hnext.epoch_eq, hseq]

/-- The positions of a tile. -/
theorem IsTile.mem_range_iff {c k i : ℕ} {cp : TimeFenceCheckpoint} (hc : 0 < c)
    (h : IsTile streamId epoch c q p xs k cp) (hi : i < xs.length) :
    cp.startSeq.toNat ≤ i ∧ i < cp.endSeq.toNat ↔ i / c = k := by
  rw [h.startSeq_eq, h.endSeq_eq, lt_min_iff, and_iff_left hi, ← Nat.le_div_iff_mul_le hc,
    ← Nat.div_lt_iff_lt_mul hc]
  omega

/-! ## The tiling -/

/-- Chunking tiles the stream: there are `⌈n / c⌉` checkpoints, each with the
    range, the length and the digest of its chunk; consecutive ones are adjacent,
    and every position lies in the range of exactly one. -/
theorem chunkStream_tiles (hp : ModulusOk p) (hq : 0 < q.toNat) (hc : 0 < chunkSize.toNat)
    (hn : xs.length < 2 ^ 64) :
    Returns (chunkStream streamId epoch xs chunkSize q p) fun cs =>
      cs.checkpoints.length = xs.length ⌈/⌉ chunkSize.toNat ∧
      (∀ k cp, cs.checkpoints[k]? = some cp →
        IsTile streamId epoch chunkSize.toNat q p xs k cp) ∧
      (∀ k cp next, cs.checkpoints[k]? = some cp → cs.checkpoints[k + 1]? = some next →
        cp.adjacentTo next = true) ∧
      ∀ i < xs.length, ∃! k : ℕ, ∃ cp, cs.checkpoints[k]? = some cp ∧
        cp.startSeq.toNat ≤ i ∧ i < cp.endSeq.toNat := by
  refine (chunkStream_returns hp hq hc hn).mono fun cs ⟨hcount, hcheckpoints⟩ => ?_
  have htile : ∀ k cp, cs.checkpoints[k]? = some cp →
      IsTile streamId epoch chunkSize.toNat q p xs k cp := by
    intro k cp hcp
    have hk : k * chunkSize.toNat < xs.length := by
      rw [← lt_length_chunks_iff hc, ← hcount]
      exact (List.getElem?_eq_some_iff.mp hcp).1
    exact (hcheckpoints k _ cp (by rw [chunks_getElem? hc, if_pos hk]) hcp).isTile hc hn hk
  refine ⟨by rw [hcount, length_chunks hc], htile, ?_, ?_⟩
  · intro k cp next hcp hnext
    exact (htile k cp hcp).adjacentTo (htile (k + 1) next hnext)
  · intro i hi
    have hk : i / chunkSize.toNat < cs.checkpoints.length := by
      rw [hcount, lt_length_chunks_iff hc]
      exact (Nat.div_mul_le_self i _).trans_lt hi
    have hcp := List.getElem?_eq_getElem hk
    refine ⟨i / chunkSize.toNat, ⟨_, hcp, ((htile _ _ hcp).mem_range_iff hc hi).mpr rfl⟩, ?_⟩
    rintro k ⟨cp, hcp, hmem⟩
    exact (((htile k cp hcp).mem_range_iff hc hi).mp hmem).symm

/-- Five elements in chunks of two. -/
theorem chunkStream_tiles_five :
    Returns (chunkStream "s" 0#64 [1#128, 2#128, 3#128, 4#128, 5#128] 2#64 7#128 1000000007#128)
      fun cs => cs.checkpoints.length = 3 ∧
        ∀ cp, cs.checkpoints[2]? = some cp → cp.startSeq.toNat = 4 ∧ cp.endSeq.toNat = 5 := by
  refine (chunkStream_tiles modulusOk_demo (by decide) (by decide) (by decide)).mono ?_
  intro cs ⟨hcount, htile, _⟩
  refine ⟨hcount, fun cp hcp => ?_⟩
  have h := htile 2 cp hcp
  exact ⟨h.startSeq_eq, h.endSeq_eq⟩

end

end TimeFence.Core
