import TimeFence.Core.Chunker
import TimeFence.Core.Detection

/-!
# Where a chunked comparison points

Over a prime field with an invertible base, for two streams of one length.

* `compareChunked_localizes`: a chunk without a difference is clean, a chunk
  with one difference is a digest mismatch, so an isolated substitution is found
  in its own chunk.
* `swapAdjacent_localized`: when `q^r ≠ 1` for every `r` below the chunk size, an
  exchange of two unequal neighbours is found in the chunk of the first one.
  Inside a chunk this is the condition on exchanges at the local offset; across
  a boundary each of the two chunks has a single difference.
-/

namespace TimeFence.Core

open TimeFence.Common TimeFence.Algebra

section

variable {streamId : String} {epoch : U64} {xs ys : List U128} {chunkSize : U64} {q p : U128}

/-! ## Windows of two streams -/

theorem length_window_eq (c k : ℕ) (hlen : xs.length = ys.length) :
    (window c k xs).length = (window c k ys).length := by
  rw [length_window, length_window, hlen]

/-- The differing positions of a window are those of its chunk. -/
theorem differsAt_window_iff {m c k r : ℕ} :
    DiffersAt m (window c k xs) (window c k ys) r ↔ r < c ∧ DiffersAt m xs ys (k * c + r) := by
  unfold DiffersAt
  by_cases hr : r < c
  · rw [window_getD hr, window_getD hr, and_iff_right hr]
  · rw [window_getD_of_le (not_lt.mp hr), window_getD_of_le (not_lt.mp hr)]
    simp [hr]

/-- A position inside a chunk. -/
theorem add_div_of_lt {c k r : ℕ} (hr : r < c) : (k * c + r) / c = k := by
  rw [add_comm, Nat.add_mul_div_right _ _ (by omega), Nat.div_eq_of_lt hr, zero_add]

/-- An exchange inside a chunk is an exchange in its window. -/
theorem exchanged_window {c k r s : ℕ} (h : Exchanged xs ys (k * c + r) (k * c + s)) (hr : r < c)
    (hs : s < c) : Exchanged (window c k xs) (window c k ys) r s := by
  refine ⟨length_window_eq c k h.length_eq, ?_, ?_, ?_⟩
  · rw [window_getD hr, window_getD hs, h.left]
  · rw [window_getD hr, window_getD hs, h.right]
  · intro t htr hts
    by_cases ht : t < c
    · rw [window_getD ht, window_getD ht, h.other _ (by omega) (by omega)]
    · rw [window_getD_of_le (not_lt.mp ht), window_getD_of_le (not_lt.mp ht)]

/-! ## The verdict on one chunk -/

theorem chunkVerdict_of_length_eq (q p : U128) (c k : ℕ) (hlen : xs.length = ys.length) :
    chunkVerdict q p c xs ys k =
      if digestOf q p (window c k xs) ≠ digestOf q p (window c k ys) then .digestMismatch
      else .clean := by
  rw [chunkVerdict, streamVerdict, if_neg (not_not.mpr (length_window_eq c k hlen))]

/-- A chunk without a difference. -/
theorem chunkVerdict_eq_clean (q : U128) {c k : ℕ} (hlen : xs.length = ys.length)
    (h : ∀ i, i / c = k → ¬ DiffersAt p.toNat xs ys i) : chunkVerdict q p c xs ys k = .clean := by
  rw [chunkVerdict_of_length_eq q p c k hlen, if_neg]
  rw [not_ne_iff]
  apply digestOf_eq_of_forall_not q (length_window_eq c k hlen)
  intro r hdiff
  obtain ⟨hr, hd⟩ := differsAt_window_iff.mp hdiff
  exact h _ (add_div_of_lt hr) hd

/-- A chunk with a single difference. -/
theorem chunkVerdict_eq_digestMismatch (hprime : p.toNat.Prime) (hq : q.toNat % p.toNat ≠ 0)
    {c a : ℕ} (hc : 0 < c) (hlen : xs.length = ys.length) (ha : DiffersAt p.toNat xs ys a)
    (h : ∀ i, i / c = a / c → DiffersAt p.toNat xs ys i → i = a) :
    chunkVerdict q p c xs ys (a / c) = .digestMismatch := by
  have hsplit : a / c * c + a % c = a := Nat.div_add_mod' a c
  have hmod : a % c < c := Nat.mod_lt a hc
  rw [chunkVerdict_of_length_eq q p c _ hlen, if_pos]
  apply digestOf_ne_of_single hprime hq (length_window_eq c _ hlen) (a := a % c)
  · rw [differsAt_window_iff, hsplit]
    exact ⟨hmod, ha⟩
  · intro r hdiff
    obtain ⟨hr, hd⟩ := differsAt_window_iff.mp hdiff
    have := h _ (add_div_of_lt hr) hd
    omega

/-! ## The first bad chunk -/

/-- The first index in the range of a comparison whose verdict is not clean. -/
theorem firstBadChunkIndex_eq_some {verdict : ℕ → VerificationStatus} {limit : ℕ → Prop}
    {reports : List VerificationReport} (hlen : ∀ k, k < reports.length ↔ limit k)
    (hstatus : ∀ k r, reports[k]? = some r → r.status = verdict k) {k : ℕ} (hk : limit k)
    (hbad : verdict k ≠ .clean) (hfirst : ∀ j < k, verdict j = .clean) :
    firstBadChunkIndex reports = some k := by
  have hlt : k < reports.length := (hlen k).mpr hk
  rw [firstBadChunkIndex, List.findIdx?_eq_some_iff_getElem]
  refine ⟨hlt, ?_, ?_⟩
  · rw [← hstatus k _ (List.getElem?_eq_getElem hlt)] at hbad
    simpa [VerificationReport.isSuspicious, VerificationReport.isClean] using hbad
  · intro j hj
    have hclean := hfirst j hj
    rw [← hstatus j _ (List.getElem?_eq_getElem (hj.trans hlt))] at hclean
    simp [VerificationReport.isSuspicious, VerificationReport.isClean, hclean]

/-! ## Substitutions -/

/-- Localization of substitutions. There is a report for each chunk; a chunk
    without a difference modulo `p` is clean, and a chunk with exactly one is a
    digest mismatch. If the first chunk with a difference has exactly one, at
    the global index `a`, then it is the first bad chunk. -/
theorem compareChunked_localizes (hprime : p.toNat.Prime) (hle : p.toNat ≤ 2 ^ 64)
    (hq : q.toNat % p.toNat ≠ 0) (hc : 0 < chunkSize.toNat) (hlen : xs.length = ys.length)
    (hn : xs.length < 2 ^ 64) :
    Returns (compareChunked streamId epoch xs ys chunkSize q p) fun reports =>
      (∀ k, k < reports.length ↔ k * chunkSize.toNat < xs.length) ∧
      (∀ k r, reports[k]? = some r →
        ((∀ i, i / chunkSize.toNat = k → ¬ DiffersAt p.toNat xs ys i) → r.status = .clean) ∧
        ((∃! i, i / chunkSize.toNat = k ∧ DiffersAt p.toNat xs ys i) →
          r.status = .digestMismatch)) ∧
      ∀ a, DiffersAt p.toNat xs ys a →
        (∀ i, DiffersAt p.toNat xs ys i → i = a ∨ a / chunkSize.toNat < i / chunkSize.toNat) →
        firstBadChunkIndex reports = some (a / chunkSize.toNat) := by
  have hp : ModulusOk p := ⟨hprime.one_lt, hle⟩
  have hq0 := pos_of_mod_ne_zero hq
  refine (compareChunked_returns hp hq0 hc hn (hlen ▸ hn)).mono fun reports ⟨hlimit, hstatus⟩ => ?_
  refine ⟨?_, ?_, ?_⟩
  · intro k
    rw [hlimit k, ← hlen, min_self]
  · intro k r hr
    rw [hstatus k r hr]
    constructor
    · exact chunkVerdict_eq_clean q hlen
    · rintro ⟨a, ⟨rfl, ha⟩, hunique⟩
      exact chunkVerdict_eq_digestMismatch hprime hq hc hlen ha fun i hi hd => hunique i ⟨hi, hd⟩
  · intro a ha hfirst
    have hin : a < xs.length := ha.lt_length hlen
    apply firstBadChunkIndex_eq_some hlimit hstatus
    · have := Nat.div_mul_le_self a chunkSize.toNat
      omega
    · rw [chunkVerdict_eq_digestMismatch hprime hq hc hlen ha]
      · simp
      · intro i hi hd
        have := hfirst i hd
        omega
    · intro j hj
      apply chunkVerdict_eq_clean q hlen
      intro i hi hd
      rcases hfirst i hd with rfl | hlater <;> omega

/-- Replacing `5` by `9` in `[1, 2, 3, 4, 5]` is found in the third, partial
    chunk. -/
theorem compareChunked_localizes_last :
    Returns (compareChunked "s" 0#64 [1#128, 2#128, 3#128, 4#128, 5#128]
      [1#128, 2#128, 3#128, 4#128, 9#128] 2#64 7#128 101#128)
      fun reports => firstBadChunkIndex reports = some 2 := by
  refine (compareChunked_localizes (by norm_num) (by decide) (by decide) (by decide) (by rfl)
    (by decide)).mono ?_
  intro reports ⟨_, _, hfirst⟩
  apply hfirst 4 (by decide)
  intro i hi
  have hlt := hi.lt_length (by rfl)
  rw [show [1#128, 2#128, 3#128, 4#128, 5#128].length = 5 from rfl] at hlt
  interval_cases i
  all_goals first | exact absurd hi (by decide) | exact .inl rfl

/-! ## Exchanges of neighbours -/

/-- The verdict on the chunk of the first of two exchanged neighbours. -/
theorem chunkVerdict_swapAdjacent (hprime : p.toNat.Prime) (hq : q.toNat % p.toNat ≠ 0) {c : ℕ}
    (hc : 0 < c) (horder : ∀ r, 1 ≤ r → r < c → q.toNat ^ r % p.toNat ≠ 1) {i : ℕ}
    (h : Exchanged xs ys i (i + 1)) (hi : i + 1 < xs.length)
    (hne : DiffersAt p.toNat xs ys i) : chunkVerdict q p c xs ys (i / c) = .digestMismatch := by
  have hsplit : i / c * c + i % c = i := Nat.div_add_mod' i c
  have hmod : i % c < c := Nat.mod_lt i hc
  by_cases hr : i % c + 1 < c
  · -- Both neighbours lie in the chunk.
    have hex : Exchanged (window c (i / c) xs) (window c (i / c) ys) (i % c) (i % c + 1) := by
      apply exchanged_window _ hmod hr
      rwa [← add_assoc, hsplit]
    have hwindow : i % c + 1 < (window c (i / c) xs).length := by
      rw [length_window]
      omega
    rw [chunkVerdict_of_length_eq q p c _ h.length_eq, if_pos]
    rw [Ne, digestOf_exchanged_eq_iff hprime hq hex (Nat.lt_succ_self _) hwindow, window_getD hmod,
      window_getD hr, ← add_assoc, hsplit, tri_succ, Nat.add_sub_cancel_left]
    rintro (hcongr | hpow)
    · apply hne
      rw [h.left, hcongr]
    · exact horder _ (Nat.le_add_left 1 _) hr hpow
  · -- The neighbour starts the next chunk.
    have hmul : i + 1 = (i / c + 1) * c := by
      rw [add_one_mul]
      omega
    have hnext : (i + 1) / c = i / c + 1 := by rw [hmul, Nat.mul_div_cancel _ hc]
    apply chunkVerdict_eq_digestMismatch hprime hq hc h.length_eq hne
    intro k hk hd
    by_contra hki
    by_cases hk1 : k = i + 1
    · rw [hk1, hnext] at hk
      omega
    · exact h.not_differsAt p.toNat hki hk1 hd

/-- When the chunk size does not exceed the order of `q`, exchanging two
    neighbours that differ modulo `p` makes the chunk of the first one the first
    bad chunk, with a digest mismatch. -/
theorem swapAdjacent_localized (hprime : p.toNat.Prime) (hle : p.toNat ≤ 2 ^ 64)
    (hq : q.toNat % p.toNat ≠ 0) (hc : 0 < chunkSize.toNat)
    (horder : ∀ r, 1 ≤ r → r < chunkSize.toNat → q.toNat ^ r % p.toNat ≠ 1)
    (hn : xs.length < 2 ^ 64) {i : ℕ} (hi : i + 1 < xs.length)
    (hne : xs[i].toNat % p.toNat ≠ xs[i + 1].toNat % p.toNat) :
    Returns (compareChunked streamId epoch xs (swapAdjacent xs i) chunkSize q p) fun reports =>
      firstBadChunkIndex reports = some (i / chunkSize.toNat) ∧
      ∃ r, reports[i / chunkSize.toNat]? = some r ∧ r.status = .digestMismatch := by
  have hp : ModulusOk p := ⟨hprime.one_lt, hle⟩
  have hq0 := pos_of_mod_ne_zero hq
  have hex : Exchanged xs (swapAdjacent xs i) i (i + 1) := by
    rw [swapAdjacent_eq_exchange]
    exact exchange_exchanged xs (Nat.lt_succ_self i).ne (Nat.lt_of_succ_lt hi) hi
  have hdiff : DiffersAt p.toNat xs (swapAdjacent xs i) i := by
    rw [DiffersAt, hex.left, List.getD_eq_getElem _ _ (Nat.lt_of_succ_lt hi),
      List.getD_eq_getElem _ _ hi]
    exact hne
  have hbad := chunkVerdict_swapAdjacent hprime hq hc horder hex hi hdiff
  have hlen := hex.length_eq
  refine (compareChunked_returns hp hq0 hc hn (hlen ▸ hn)).mono fun reports h => ?_
  obtain ⟨hlimit, hstatus⟩ := h
  have hk : i / chunkSize.toNat * chunkSize.toNat < min xs.length (swapAdjacent xs i).length := by
    have := Nat.div_mul_le_self i chunkSize.toNat
    omega
  have hlt := (hlimit _).mpr hk
  constructor
  · apply firstBadChunkIndex_eq_some hlimit hstatus hk
    · rw [hbad]
      simp
    · intro j hj
      apply chunkVerdict_eq_clean q hlen
      intro k hkj hd
      -- A chunk before that of `i` holds neither `i` nor `i + 1`.
      have hki : k ≠ i := by
        rintro rfl
        omega
      have hki1 : k ≠ i + 1 := by
        rintro rfl
        have : i / chunkSize.toNat ≤ (i + 1) / chunkSize.toNat :=
          Nat.div_le_div_right (Nat.le_add_right i 1)
        omega
      exact hex.not_differsAt p.toNat hki hki1 hd
  · refine ⟨_, List.getElem?_eq_getElem hlt, ?_⟩
    rw [hstatus _ _ (List.getElem?_eq_getElem hlt), hbad]

/-- The exchange of `202` and `303` across the boundary of two chunks. -/
theorem swapAdjacent_localized_boundary :
    Returns (compareChunked "s" 0#64 [101#128, 202#128, 303#128, 404#128]
      (swapAdjacent [101#128, 202#128, 303#128, 404#128] 1) 2#64 7#128 97#128) fun reports =>
      firstBadChunkIndex reports = some 0 ∧
      ∃ r, reports[0]? = some r ∧ r.status = .digestMismatch := by
  refine swapAdjacent_localized (i := 1) (by norm_num) (by decide) (by decide) (by decide) ?_
    (by decide) (by decide) (by decide)
  intro r h1 hr
  rw [show (2#64).toNat = 2 from rfl] at hr
  interval_cases r
  decide

end

end TimeFence.Core
