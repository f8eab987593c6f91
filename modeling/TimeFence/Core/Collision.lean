import TimeFence.Algebra.SparseRoots
import TimeFence.Common.Difference
import TimeFence.Core.KSentry

/-!
# Streams with equal digests

Two streams of one length have the same digest exactly when the weighted sum of
their differences vanishes modulo `p` (`digestOf_eq_iff_dvd`, for any modulus).
Over a prime field, with `s` and `e` the first and the last position whose
residues differ, that happens for at most `T_e - T_s` of the bases
`q ∈ {1, …, p - 1}` (`collision_bound`): the difference is `q^(T_s)` times a
nonzero polynomial of degree at most `T_e - T_s`.
-/

namespace TimeFence.Core

open TimeFence.Common TimeFence.Algebra

section

variable {q p : U128} {xs ys : List U128}

/-! ## Equal digests -/

/-- The digest that a run returns. -/
def fastDigest (xs : List U128) (q p : U128) : Exec U128 := (ksentryFast xs q p).map KSentry.digest

theorem fastDigest_rep (hp : ModulusOk p) (hq : 0 < q.toNat) (hn : xs.length < 2 ^ 64) :
    Returns (fastDigest xs q p) fun d => Rep p.toNat d (digestOf q p xs) := by
  obtain ⟨st, hst, hd⟩ := ksentryFast_digest hp hq xs hn
  exact ⟨st.digest, by rw [fastDigest, hst]; rfl, hd⟩

/-- Runs over two streams return the same digest exactly when the digests agree
    in `ZMod p`. -/
theorem fastDigest_eq_iff (hp : ModulusOk p) (hq : 0 < q.toNat) (hx : xs.length < 2 ^ 64)
    (hy : ys.length < 2 ^ 64) :
    fastDigest xs q p = fastDigest ys q p ↔ digestOf q p xs = digestOf q p ys := by
  obtain ⟨dx, hdx, hrx⟩ := fastDigest_rep hp hq hx
  obtain ⟨dy, hdy, hry⟩ := fastDigest_rep hp hq hy
  rw [hdx, hdy, ← hrx.eq_iff hry, Except.ok.injEq]

theorem digestOf_sub (q p : U128) (hlen : xs.length = ys.length) :
    digestOf q p xs - digestOf q p ys =
      ∑ i ∈ Finset.range xs.length,
        (diffAt xs ys i : ZMod p.toNat) * (q.toNat : ZMod p.toNat) ^ tri i :=
  wsum_residues_sub p.toNat _ hlen

/-- Equal digests in terms of integers. -/
theorem digestOf_eq_iff_dvd (q p : U128) (hlen : xs.length = ys.length) :
    digestOf q p xs = digestOf q p ys ↔
      (p.toNat : ℤ) ∣ ∑ i ∈ Finset.range xs.length, diffAt xs ys i * (q.toNat : ℤ) ^ tri i := by
  rw [← wsum_residues_eq_iff_dvd p.toNat _ hlen]
  push_cast
  rfl

/-! ## The differing positions -/

/-- `s` and `e` are the first and the last position whose residues differ. -/
structure DiffWindow (p : ℕ) (xs ys : List U128) (s e : ℕ) : Prop where
  first : DiffersAt p xs ys s
  last : DiffersAt p xs ys e
  between : ∀ i, DiffersAt p xs ys i → s ≤ i ∧ i ≤ e

/-! ## The collision bound -/

/-- The bases `q ∈ {1, …, p - 1}` under which the two streams collide. -/
def collidingBases (p : U128) (xs ys : List U128) : Finset ℕ :=
  {q ∈ Finset.Ico 1 p.toNat |
    fastDigest xs (BitVec.ofNat 128 q) p = fastDigest ys (BitVec.ofNat 128 q) p}

/-- A colliding base is a nonzero root of the difference polynomial. -/
theorem mem_collidingBases (hp : ModulusOk p) (hlen : xs.length = ys.length)
    (hn : xs.length < 2 ^ 64) {q : ℕ} (hq : q ∈ collidingBases p xs ys) :
    1 ≤ q ∧ q < p.toNat ∧
      ∑ i ∈ Finset.range xs.length, (diffAt xs ys i : ZMod p.toNat) * (q : ZMod p.toNat) ^ tri i = 0 := by
  obtain ⟨hmem, heq⟩ := Finset.mem_filter.mp hq
  obtain ⟨h1, hlt⟩ := Finset.mem_Ico.mp hmem
  have hqn : (BitVec.ofNat 128 q).toNat = q := by
    rw [BitVec.toNat_ofNat, Nat.mod_eq_of_lt (hlt.trans p.isLt)]
  rw [fastDigest_eq_iff hp (by rw [hqn]; exact h1) hn (hlen ▸ hn), ← sub_eq_zero,
    digestOf_sub _ p hlen, hqn] at heq
  exact ⟨h1, hlt, heq⟩

/-- Over a prime field, two equal-length streams whose residues first differ at
    `s` and last differ at `e` collide under at most `T_e - T_s` of the bases
    `1, …, p - 1`: never more than `n(n-1)/2`, and none at all when a single
    position differs. -/
theorem collision_bound (hprime : p.toNat.Prime) (hle : p.toNat ≤ 2 ^ 64)
    (hlen : xs.length = ys.length) (hn : xs.length < 2 ^ 64) {s e : ℕ}
    (hw : DiffWindow p.toNat xs ys s e) :
    (collidingBases p xs ys).card ≤ tri e - tri s ∧
      tri e - tri s ≤ xs.length * (xs.length - 1) / 2 ∧
      (s = e → collidingBases p xs ys = ∅) := by
  have hp : ModulusOk p := ⟨hprime.one_lt, hle⟩
  have : Fact p.toNat.Prime := ⟨hprime⟩
  have hs : s < xs.length := hw.first.lt_length hlen
  have he : e < xs.length := hw.last.lt_length hlen
  have hse : s ≤ e := (hw.between e hw.last).1
  have hzero : ∀ i, ¬ (s ≤ i ∧ i ≤ e) → (diffAt xs ys i : ZMod p.toNat) = 0 := fun i hi =>
    (diffAt_cast_eq_zero_iff p.toNat xs ys i).mpr fun hd => hi (hw.between i hd)
  have hroots := card_nonzero_roots_le (F := ZMod p.toNat) (d := fun i => (diffAt xs ys i : ZMod p.toNat))
    tri_strictMono hs (fun h => (diffAt_cast_eq_zero_iff p.toNat xs ys s).mp h hw.first) hse
    (fun i hi => hzero i (by omega)) (fun i hi _ => hzero i (by omega)) Finset.univ
  have hcard : (collidingBases p xs ys).card ≤ tri e - tri s := by
    refine le_trans (card_le_card_of_cast_mem ?_ ?_) hroots
    · intro q hq
      exact (mem_collidingBases hp hlen hn hq).2.1
    · intro q hq
      obtain ⟨h1, hlt, hsum⟩ := mem_collidingBases hp hlen hn hq
      refine Finset.mem_filter.mpr ⟨Finset.mem_univ _, ?_, hsum⟩
      rw [Ne, ZMod.natCast_eq_zero_iff]
      exact Nat.not_dvd_of_pos_of_lt h1 hlt
  refine ⟨hcard, ?_, ?_⟩
  · rw [← tri_pred]
    exact (Nat.sub_le _ _).trans (tri_strictMono.monotone (by omega))
  · rintro rfl
    rw [Nat.sub_self, Nat.le_zero] at hcard
    exact Finset.card_eq_zero.mp hcard

/-- `[1, 2, 3]` against `[1, 5, 4]` over `p = 101`: the window is `[1, 2]`. -/
theorem collision_bound_window_one_two :
    (collidingBases 101#128 [1#128, 2#128, 3#128] [1#128, 5#128, 4#128]).card ≤ 2 := by
  have hw : DiffWindow (101#128).toNat [1#128, 2#128, 3#128] [1#128, 5#128, 4#128] 1 2 := by
    refine ⟨by decide, by decide, fun i hi => ?_⟩
    have hlt := hi.lt_length (by rfl)
    rw [show [1#128, 2#128, 3#128].length = 3 from rfl] at hlt
    interval_cases i
    · exact absurd hi (by decide)
    · omega
    · omega
  have h := collision_bound (by norm_num) (by decide) (by rfl) (by decide) hw
  exact h.1.trans (by decide)

end

end TimeFence.Core
