import TimeFence.Algebra.ChunkedSum
import TimeFence.Core.Localization

/-!
# Chunks against the whole stream

`chunker.rs` digests every chunk with a fresh accumulator, `ksentry_fast` digests
the whole stream with one. `chunked_vs_whole` compares the two over a prime field:
clean chunks imply equal digests of the whole streams exactly when `q^c = 1` for
chunks of `c` elements, and equal digests of the whole streams never imply clean
chunks.
-/

namespace TimeFence.Core

open TimeFence.Common TimeFence.Algebra

section

variable {streamId : String} {epoch : U64} {xs ys : List U128} {chunkSize : U64} {q p : U128}

theorem residues_window (m c k : ℕ) (xs : List U128) :
    residues m (window c k xs) = window c k (residues m xs) := by
  rw [residues, residues, window, window, List.map_take, List.map_drop]

theorem chunkVerdict_eq_clean_iff_digest (c k : ℕ) (hlen : xs.length = ys.length) :
    chunkVerdict q p c xs ys k = .clean ↔
      digestOf q p (window c k xs) = digestOf q p (window c k ys) := by
  rw [chunkVerdict_of_length_eq q p c k hlen]
  split_ifs with h
  · simp [h]
  · simpa using h

/-- There is no bad chunk when all chunks have the same digests. -/
theorem compareChunked_clean (hp : ModulusOk p) (hq : 0 < q.toNat) (hc : 0 < chunkSize.toNat)
    (hlen : xs.length = ys.length) (hn : xs.length < 2 ^ 64) :
    Returns (compareChunked streamId epoch xs ys chunkSize q p) fun reports =>
      (firstBadChunkIndex reports = none ↔ ∀ k,
        digestOf q p (window chunkSize.toNat k xs) = digestOf q p (window chunkSize.toNat k ys)) ∧
      (digestOf q p (window chunkSize.toNat 0 xs) ≠ digestOf q p (window chunkSize.toNat 0 ys) →
        firstBadChunkIndex reports = some 0) := by
  refine (compareChunked_returns hp hq hc hn (hlen ▸ hn)).mono fun reports ⟨hlimit, hstatus⟩ => ?_
  rw [← hlen, min_self] at hlimit
  -- Behind the last chunk there is nothing to compare.
  have hempty : ∀ k, ¬ k * chunkSize.toNat < xs.length → ∀ zs : List U128, zs.length = xs.length →
      window chunkSize.toNat k zs = [] := by
    intro k hk zs hzs
    rw [window, List.drop_eq_nil_of_le (by omega), List.take_nil]
  refine ⟨?_, fun hne => ?_⟩
  · have hbad := firstBadChunkIndex_isSome_iff hlimit hstatus
    rw [← Option.not_isSome_iff_eq_none, hbad, not_exists]
    refine forall_congr' fun k => ?_
    rw [not_and_not_right, chunkVerdict_eq_clean_iff_digest _ _ hlen]
    refine ⟨fun h => ?_, fun h _ => h⟩
    by_cases hk : k * chunkSize.toNat < xs.length
    · exact h hk
    · rw [hempty k hk xs rfl, hempty k hk ys hlen.symm]
  · refine firstBadChunkIndex_eq_some hlimit hstatus ?_ ?_ (by simp)
    · by_contra hzero
      exact hne (by rw [hempty 0 hzero xs rfl, hempty 0 hzero ys hlen.symm])
    · rw [Ne, chunkVerdict_eq_clean_iff_digest _ _ hlen]
      exact hne

/-! ## Streams for given residues -/

theorem digestOf_map_ofResidue (hp : ModulusOk p) (zs : List (ZMod p.toNat)) :
    digestOf q p (zs.map (ofResidue 128)) = wsum (triWeight (q.toNat : ZMod p.toNat)) zs := by
  rw [digestOf, residues_map_ofResidue hp.pos (hp.le.trans (by norm_num))]

theorem digestOf_window_map_ofResidue (hp : ModulusOk p) (c k : ℕ) (zs : List (ZMod p.toNat)) :
    digestOf q p (window c k (zs.map (ofResidue 128))) =
      wsum (triWeight (q.toNat : ZMod p.toNat)) (window c k zs) := by
  rw [digestOf, residues_window, residues_map_ofResidue hp.pos (hp.le.trans (by norm_num))]

/-- Chunks with the same digests, when all of them have the same factor. -/
theorem digestOf_eq_of_windows {c : ℕ} (hc : 0 < c) (hqc : (q.toNat : ZMod p.toNat) ^ c = 1)
    (hlen : xs.length = ys.length)
    (h : ∀ k, digestOf q p (window c k xs) = digestOf q p (window c k ys)) :
    digestOf q p xs = digestOf q p ys := by
  refine wsum_eq_of_windows hc hqc (by rw [length_residues, length_residues, hlen]) fun k => ?_
  rw [← residues_window, ← residues_window]
  exact h k

/-! ## The two checks -/

/-- Neither check covers the other. Over a prime field, for chunks of at least two
    elements and streams of at least two elements more than a chunk, clean chunks
    imply equal digests of the whole streams exactly when `q^c = 1`; and there are
    always two streams with equal digests that already differ in their first chunk. -/
theorem chunked_vs_whole (hprime : p.toNat.Prime) (hle : p.toNat ≤ 2 ^ 64)
    (hq : q.toNat % p.toNat ≠ 0) (hc : 2 ≤ chunkSize.toNat) {n : ℕ}
    (hn : chunkSize.toNat + 2 ≤ n) (hlt : n < 2 ^ 64) :
    ((∀ xs ys : List U128, xs.length = n → ys.length = n →
        Returns (compareChunked streamId epoch xs ys chunkSize q p)
          (fun reports => firstBadChunkIndex reports = none) →
        fastDigest xs q p = fastDigest ys q p) ↔
      q.toNat ^ chunkSize.toNat % p.toNat = 1) ∧
    ∃ xs ys : List U128, xs.length = n ∧ ys.length = n ∧
      fastDigest xs q p = fastDigest ys q p ∧
      Returns (compareChunked streamId epoch xs ys chunkSize q p)
        fun reports => firstBadChunkIndex reports = some 0 := by
  have : Fact p.toNat.Prime := ⟨hprime⟩
  have hp : ModulusOk p := ⟨hprime.one_lt, hle⟩
  have hq0 := pos_of_mod_ne_zero hq
  have hqz : (q.toNat : ZMod p.toNat) ≠ 0 := natCast_ne_zero_iff_mod.mpr hq
  have hc0 : 0 < chunkSize.toNat := by omega
  have hwhole : ∀ xs ys : List U128, xs.length = n → ys.length = n →
      (fastDigest xs q p = fastDigest ys q p ↔ digestOf q p xs = digestOf q p ys) :=
    fun xs ys hx hy => fastDigest_eq_iff hp hq0 (hx ▸ hlt) (hy ▸ hlt)
  have hzeros : ((List.replicate n 0).map (ofResidue 128 (p := p.toNat))).length = n := by
    rw [List.length_map, List.length_replicate]
  refine ⟨⟨fun h => ?_, fun hqc xs ys hx hy hbad => ?_⟩, ?_⟩
  · -- A difference that is hidden in the second chunk.
    have hhidden : ((hidden (q.toNat : ZMod p.toNat) chunkSize.toNat
        (n - (chunkSize.toNat + 2))).map (ofResidue 128)).length = n := by
      rw [List.length_map, length_hidden]
      omega
    have hnone : Returns (compareChunked streamId epoch _ _ chunkSize q p)
        fun reports => firstBadChunkIndex reports = none :=
      (compareChunked_clean hp hq0 hc0 (hhidden.trans hzeros.symm) (lt_of_eq_of_lt hhidden hlt)).mono
        fun reports hr => hr.1.mpr fun k => by
          rw [digestOf_window_map_ofResidue hp, digestOf_window_map_ofResidue hp,
            wsum_window_hidden _ hc, wsum_window_replicate_zero]
    have hsame := (hwhole _ _ hhidden hzeros).mp (h _ _ hhidden hzeros hnone)
    rw [digestOf_map_ofResidue hp, digestOf_map_ofResidue hp, wsum_hidden, wsum_replicate_zero,
      mul_eq_zero, mul_eq_zero, sub_eq_zero] at hsame
    rcases hsame with (hweight | hqzero) | hqc
    · exact absurd hweight (pow_ne_zero _ hqz)
    · exact absurd hqzero hqz
    · exact (natCast_pow_eq_one_iff_mod hprime.one_lt).mp hqc
  · have hclean := (compareChunked_clean hp hq0 hc0 (hx.trans hy.symm) (hx ▸ hlt)).of_eq_ok
      hbad.choose_spec.1
    rw [hwhole xs ys hx hy]
    exact digestOf_eq_of_windows hc0 ((natCast_pow_eq_one_iff_mod hprime.one_lt).mpr hqc)
      (hx.trans hy.symm) (hclean.1.mp hbad.choose_spec.2)
  · -- Differences in two chunks that cancel.
    have hcancelling : ((cancelling (q.toNat : ZMod p.toNat) chunkSize.toNat
        (n - (chunkSize.toNat + 1))).map (ofResidue 128)).length = n := by
      rw [List.length_map, length_cancelling _ hc0]
      omega
    refine ⟨_, _, hcancelling, hzeros, ?_, ?_⟩
    · rw [hwhole _ _ hcancelling hzeros, digestOf_map_ofResidue hp, digestOf_map_ofResidue hp,
        wsum_cancelling _ hc0, wsum_replicate_zero]
    · refine (compareChunked_clean hp hq0 hc0 (hcancelling.trans hzeros.symm)
        (lt_of_eq_of_lt hcancelling hlt)).mono fun reports hr => hr.2 ?_
      rw [digestOf_window_map_ofResidue hp, digestOf_window_map_ofResidue hp,
        wsum_window_cancelling _ hc0, wsum_window_replicate_zero]
      exact neg_ne_zero.mpr (pow_ne_zero _ hqz)

/-- With the demo base `7` over `p = 101` chunks of two elements hide a change. -/
theorem chunked_vs_whole_demo : ¬ ∀ xs ys : List U128, xs.length = 4 → ys.length = 4 →
    Returns (compareChunked "s" 0#64 xs ys 2#64 7#128 101#128)
      (fun reports => firstBadChunkIndex reports = none) →
    fastDigest xs 7#128 101#128 = fastDigest ys 7#128 101#128 := by
  have hprime : (101#128).toNat.Prime := by norm_num
  rw [(chunked_vs_whole hprime (by decide) (by decide) (by decide) (show 2 + 2 ≤ 4 by omega)
    (by norm_num)).1]
  decide

end

end TimeFence.Core
