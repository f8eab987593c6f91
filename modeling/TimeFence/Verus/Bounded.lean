import TimeFence.Algebra.SparseDigits
import TimeFence.Verus.Exec

/-!
# Bounded traces

Section 13 of `proofs/finaltest_timefence_core_verified.rs` states, without proof
and for traces of two and three entries, that entries up to a bound below `q`
cannot collide while the encoding stays below `p`. The reason is the same for
every length: the encoding `Σ xᵢ · q^(Tᵢ)` is a number in base `q` with gaps
between its digits, and the reduction modulo `p` does nothing to it
(`ramanujanSpec_eq_wsum`). `bounded_collision_free` is the result for all traces
up to a given length.
-/

namespace TimeFence.Verus

open TimeFence.Common TimeFence.Algebra

/-! ## The encoding -/

/-- The specification as the residue of a natural number. -/
theorem ramanujanSpec_eq_emod (logs : List U64) (q : ℕ) {p : ℤ} (hp : 0 < p) :
    ramanujanSpec logs q p =
      (wsum (fun i => q ^ tri i) (logs.map BitVec.toNat) : ℕ) % p := by
  rw [ramanujanSpec_eq_wsum_emod logs q hp, wsum_map_eq_sum, wsum_map_eq_sum]
  push_cast
  rfl

/-- What a trace needs to be encoded without loss: entries up to `B`, and room
    for `n` of them below `p`. -/
structure Bounded (n B : ℕ) (logs : List U64) : Prop where
  length_le : logs.length ≤ n
  entry_le : ∀ x ∈ logs, x.toNat ≤ B

theorem Bounded.map_le {n B : ℕ} {logs : List U64} (h : Bounded n B logs) :
    ∀ x ∈ logs.map BitVec.toNat, x ≤ B := by
  intro x hx
  obtain ⟨y, hy, rfl⟩ := List.mem_map.mp hx
  exact h.entry_le y hy

/-- The reduction modulo `p` leaves the encoding of a bounded trace alone. -/
theorem ramanujanSpec_eq_wsum {n B q : ℕ} {p : ℤ}
    (hroom : B * ∑ i ∈ Finset.range n, (q : ℤ) ^ tri i < p) {logs : List U64}
    (h : Bounded n B logs) :
    ramanujanSpec logs q p = (wsum (fun i => q ^ tri i) (logs.map BitVec.toNat) : ℕ) := by
  have hle : wsum (fun i => q ^ tri i) (logs.map BitVec.toNat) ≤
      B * ∑ i ∈ Finset.range n, q ^ tri i :=
    wsum_pow_le h.map_le (by rw [List.length_map]; exact h.length_le)
  have hlt : ((wsum (fun i => q ^ tri i) (logs.map BitVec.toNat) : ℕ) : ℤ) < p := by
    refine lt_of_le_of_lt ?_ hroom
    exact_mod_cast hle
  have hp : 0 < p := (Int.natCast_nonneg _).trans_lt hlt
  rw [ramanujanSpec_eq_emod logs q hp, Int.emod_eq_of_lt (Int.natCast_nonneg _) hlt]

/-- The trace `logs` filled up with zeros to the length of `other`. -/
def padded (logs other : List U64) : List U64 :=
  logs ++ List.replicate (other.length - logs.length) 0#64

/-- Bounded traces have one value exactly when they agree after padding. -/
theorem ramanujanSpec_eq_iff_padded {n B q : ℕ} {p : ℤ} (hq : B < q)
    (hroom : B * ∑ i ∈ Finset.range n, (q : ℤ) ^ tri i < p) {w w₂ : List U64}
    (h : Bounded n B w) (h₂ : Bounded n B w₂) :
    ramanujanSpec w q p = ramanujanSpec w₂ q p ↔ padded w w₂ = padded w₂ w := by
  rw [ramanujanSpec_eq_wsum hroom h, ramanujanSpec_eq_wsum hroom h₂, Nat.cast_inj,
    wsum_pow_eq_iff hq tri_strictMono h.map_le h₂.map_le, padded, padded,
    ← getD_eq_iff_padded]
  have hgetD : ∀ (logs : List U64) i, (logs.map BitVec.toNat).getD i 0 = (logs.getD i 0#64).toNat :=
    fun logs i => List.getD_map logs (0#64) fun x : U64 => x.toNat
  simp only [hgetD, BitVec.toNat_inj]

/-! ## Changes of the trace -/

theorem padded_of_length_eq {w w₂ : List U64} (hlen : w.length = w₂.length) : padded w w₂ = w := by
  rw [padded, hlen, Nat.sub_self, List.replicate_zero, List.append_nil]

/-- A tail that padding cannot produce. -/
theorem padded_append_ne {w t : List U64} (ht : ∃ x ∈ t, x ≠ 0#64) :
    padded w (w ++ t) ≠ padded (w ++ t) w := by
  intro h
  have hlong : padded (w ++ t) w = w ++ t := by
    rw [padded, List.length_append, Nat.sub_eq_zero_of_le (Nat.le_add_right _ _),
      List.replicate_zero, List.append_nil]
  rw [hlong, padded, List.append_cancel_left_eq] at h
  obtain ⟨x, hx, hne⟩ := ht
  rw [← h] at hx
  exact hne (List.eq_of_mem_replicate hx)

/-- Bounded traces never collide, for any length. If the entries are at most `B`,
    `q > B` and `B · Σ_{i<n} q^(Tᵢ) < p`, then two traces of at most `n` entries
    have the same value exactly when they are equal after padding with zeros.
    Traces of one length must then be equal, a tail with a nonzero entry that was
    added or cut off is seen, and the executable accumulator inherits all of
    this. -/
theorem bounded_collision_free {n B : ℕ} {q p : ℤ} (hq : B < q) (hp : 1 < p)
    (hroom : B * ∑ i ∈ Finset.range n, q ^ tri i < p) {w w₂ : List U64} (h : Bounded n B w)
    (h₂ : Bounded n B w₂) :
    (ramanujanSpec w q p = ramanujanSpec w₂ q p ↔ padded w w₂ = padded w₂ w) ∧
      (w.length = w₂.length → (ramanujanSpec w q p = ramanujanSpec w₂ q p ↔ w = w₂)) ∧
      (∀ t, w₂ = w ++ t → (∃ x ∈ t, x ≠ 0#64) →
        ramanujanSpec w q p ≠ ramanujanSpec w₂ q p) ∧
      ∀ q' p' k : U64, (q'.toNat : ℤ) = q → (p'.toNat : ℤ) = p → w.length ≤ k.toNat →
        w₂.length ≤ k.toNat → k.toNat ≤ 2 ^ 32 - 1 →
        ∃ out out₂, runFromEmptyK w q' p' k = .ok out ∧ runFromEmptyK w₂ q' p' k = .ok out₂ ∧
          (out.toNat : ℤ) = ramanujanSpec w q p ∧ (out₂.toNat : ℤ) = ramanujanSpec w₂ q p ∧
          (out = out₂ ↔ padded w w₂ = padded w₂ w) := by
  lift q to ℕ using (Int.natCast_nonneg B).trans hq.le
  have hBq : B < q := by exact_mod_cast hq
  have hiff := ramanujanSpec_eq_iff_padded hBq hroom h h₂
  refine ⟨hiff, ?_, ?_, ?_⟩
  · intro hlen
    rw [hiff, padded_of_length_eq hlen, padded_of_length_eq hlen.symm]
  · rintro t rfl ht
    rw [Ne, hiff]
    exact padded_append_ne ht
  · intro q' p' k hq' hp' hk hk₂ hmax
    have hpt : 1 < p'.toNat := by omega
    obtain ⟨out, hout, hval, -⟩ :=
      runFromEmptyK_eq_ramanujanSpec (q := q') k hpt (show w.length ≤ 2 ^ 32 by omega)
    obtain ⟨out₂, hout₂, hval₂, -⟩ :=
      runFromEmptyK_eq_ramanujanSpec (q := q') k hpt (show w₂.length ≤ 2 ^ 32 by omega)
    rw [hq', hp'] at hval hval₂
    refine ⟨out, out₂, hout, hout₂, hval, hval₂, ?_⟩
    rw [← hiff, ← hval, ← hval₂, Nat.cast_inj, BitVec.toNat_inj]

/-- Two entries below `7` in base `7`, modulo `101`: `[5, 6]` and `[6, 5]` do not
    collide. -/
theorem bounded_collision_free_swap :
    ramanujanSpec [5#64, 6#64] 7 101 ≠ ramanujanSpec [6#64, 5#64] 7 101 := by
  have h : Bounded 2 6 [5#64, 6#64] := ⟨le_rfl, by simp⟩
  have h₂ : Bounded 2 6 [6#64, 5#64] := ⟨le_rfl, by simp⟩
  have hroom : ((6 : ℕ) : ℤ) * ∑ i ∈ Finset.range 2, (7 : ℤ) ^ tri i < 101 := by decide
  have hiff := (bounded_collision_free (q := 7) (p := 101) (by decide) (by decide) hroom h h₂).2.1
    rfl
  exact fun heq => absurd (hiff.mp heq) (by decide)

end TimeFence.Verus
