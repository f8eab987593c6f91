import TimeFence.Core.Collision
import TimeFence.Core.Fault

/-!
# What a digest detects over a prime field

Over a prime field with an invertible base every weight `q^(T_i)` is invertible.
So one substituted value always changes the digest
(`digestOf_ne_of_single`), while an exchange of two values does so up to one
condition on the base: `exchange_undetected_iff` says when it goes unseen.
-/

namespace TimeFence.Core

open TimeFence.Common TimeFence.Algebra

section

variable {q p : U128} {xs ys : List U128}

/-! ## Substitutions -/

/-- Streams that agree modulo `p` have one digest. -/
theorem digestOf_eq_of_forall_not (q : U128) (hlen : xs.length = ys.length)
    (h : ∀ i, ¬ DiffersAt p.toNat xs ys i) : digestOf q p xs = digestOf q p ys :=
  wsum_residues_eq_of_forall_not _ hlen h

/-- A single difference is always seen. -/
theorem digestOf_ne_of_single (hprime : p.toNat.Prime) (hq : q.toNat % p.toNat ≠ 0)
    (hlen : xs.length = ys.length) {a : ℕ} (ha : DiffersAt p.toNat xs ys a)
    (h : ∀ i, DiffersAt p.toNat xs ys i → i = a) : digestOf q p xs ≠ digestOf q p ys := by
  have : Fact p.toNat.Prime := ⟨hprime⟩
  have hsub := wsum_residues_sub_of_single (triWeight (q.toNat : ZMod p.toNat)) hlen
    (ha.lt_length hlen) h
  have hdiff : (diffAt xs ys a : ZMod p.toNat) ≠ 0 := fun h0 =>
    (diffAt_cast_eq_zero_iff p.toNat xs ys a).mp h0 ha
  rw [← sub_ne_zero]
  show wsum _ (residues p.toNat xs) - wsum _ (residues p.toNat ys) ≠ 0
  rw [hsub]
  exact mul_ne_zero hdiff (pow_ne_zero _ (natCast_ne_zero_iff_mod.mpr hq))

/-! ## Exchanges -/

/-- When an exchange leaves the digest as it is. -/
theorem digestOf_exchanged_eq_iff (hprime : p.toNat.Prime) (hq : q.toNat % p.toNat ≠ 0) {i j : ℕ}
    (h : Exchanged xs ys i j) (hij : i < j) (hj : j < xs.length) :
    digestOf q p xs = digestOf q p ys ↔
      (xs.getD i 0).toNat % p.toNat = (xs.getD j 0).toNat % p.toNat ∨
        q.toNat ^ (tri j - tri i) % p.toNat = 1 := by
  have : Fact p.toNat.Prime := ⟨hprime⟩
  have hqz : (q.toNat : ZMod p.toNat) ≠ 0 := natCast_ne_zero_iff_mod.mpr hq
  have hsub := h.wsum_residues_sub (triWeight (q.toNat : ZMod p.toNat)) hij.ne (hij.trans hj) hj
  -- The two weights agree when their quotient is `1`.
  have hweight : triWeight (q.toNat : ZMod p.toNat) i = triWeight (q.toNat : ZMod p.toNat) j ↔
      q.toNat ^ (tri j - tri i) % p.toNat = 1 := by
    have hle : tri i ≤ tri j := tri_strictMono.monotone hij.le
    have hpos : (q.toNat : ZMod p.toNat) ^ tri i ≠ 0 := pow_ne_zero _ hqz
    rw [← natCast_pow_eq_one_iff_mod hprime.one_lt, triWeight, triWeight,
      ← Nat.add_sub_cancel' hle, pow_add, Nat.add_sub_cancel_left, eq_comm, mul_eq_left₀ hpos]
  rw [← hweight, ← ZMod.natCast_eq_natCast_iff', ← sub_eq_zero]
  show wsum _ (residues p.toNat xs) - wsum _ (residues p.toNat ys) = 0 ↔ _
  rw [hsub, mul_eq_zero, sub_eq_zero, sub_eq_zero]

/-- The stream with the elements at `i` and `j` exchanged. -/
def exchange (xs : List U128) (i j : ℕ) : List U128 :=
  match xs[i]?, xs[j]? with
  | some x, some y => (xs.set i y).set j x
  | _, _ => xs

theorem exchange_exchanged (xs : List U128) {i j : ℕ} (hij : i ≠ j) (hi : i < xs.length)
    (hj : j < xs.length) : Exchanged xs (exchange xs i j) i j := by
  have hexchange : exchange xs i j = (xs.set i xs[j]).set j xs[i] := by
    rw [exchange, List.getElem?_eq_getElem hi, List.getElem?_eq_getElem hj]
  rw [hexchange]
  refine ⟨by simp, ?_, ?_, ?_⟩
  · simp [List.getD_eq_getElem?_getD, hij.symm, hi, hj]
  · simp [List.getD_eq_getElem?_getD, hi, hj]
  · intro k hki hkj
    simp [List.getD_eq_getElem?_getD, hki.symm, hkj.symm]

theorem swapAdjacent_eq_exchange (xs : List U128) (i : ℕ) :
    swapAdjacent xs i = exchange xs i (i + 1) := by
  unfold swapAdjacent exchange
  by_cases h : i + 1 < xs.length
  · rw [dif_pos h, List.getElem?_eq_getElem h, List.getElem?_eq_getElem (Nat.lt_of_succ_lt h)]
  · rw [dif_neg h, List.getElem?_eq_none (not_lt.mp h)]
    cases xs[i]? <;> rfl

/-- A run over a stream and a run over the stream with two elements exchanged
    return, and they return the same digest exactly when the elements are
    congruent modulo `p` or `q^(T_j - T_i) = 1 mod p`. For neighbours the
    exponent is `i + 1`. -/
theorem exchange_undetected_iff (hprime : p.toNat.Prime) (hle : p.toNat ≤ 2 ^ 64)
    (hq : q.toNat % p.toNat ≠ 0) (hn : xs.length < 2 ^ 64) {i j : ℕ} (hij : i < j)
    (hj : j < xs.length) :
    (∃ st st', ksentryFast xs q p = .ok st ∧ ksentryFast (exchange xs i j) q p = .ok st' ∧
      (st'.digest = st.digest ↔
        xs[i].toNat % p.toNat = xs[j].toNat % p.toNat ∨
          q.toNat ^ (tri j - tri i) % p.toNat = 1)) ∧
    (∃ st st', ksentryFast xs q p = .ok st ∧ ksentryFast (swapAdjacent xs i) q p = .ok st' ∧
      (st'.digest = st.digest ↔
        xs[i].toNat % p.toNat = xs[i + 1].toNat % p.toNat ∨
          q.toNat ^ (i + 1) % p.toNat = 1)) := by
  have hp : ModulusOk p := ⟨hprime.one_lt, hle⟩
  have hq0 := pos_of_mod_ne_zero hq
  have key : ∀ j (hij : i < j) (hj : j < xs.length),
      ∃ st st', ksentryFast xs q p = .ok st ∧ ksentryFast (exchange xs i j) q p = .ok st' ∧
      (st'.digest = st.digest ↔
        xs[i].toNat % p.toNat = xs[j].toNat % p.toNat ∨
          q.toNat ^ (tri j - tri i) % p.toNat = 1) := by
    intro j hij hj
    have hex := exchange_exchanged xs hij.ne (hij.trans hj) hj
    obtain ⟨st, hst, hd⟩ := ksentryFast_digest hp hq0 xs hn
    obtain ⟨st', hst', hd'⟩ := ksentryFast_digest hp hq0 (exchange xs i j) (hex.length_eq ▸ hn)
    refine ⟨st, st', hst, hst', ?_⟩
    rw [hd'.eq_iff hd, eq_comm, digestOf_exchanged_eq_iff hprime hq hex hij hj,
      List.getD_eq_getElem _ _ (hij.trans hj), List.getD_eq_getElem _ _ hj]
  refine ⟨key j hij hj, ?_⟩
  have hsucc := key (i + 1) (Nat.lt_succ_self i) (by omega)
  rwa [← swapAdjacent_eq_exchange, tri_succ, Nat.add_sub_cancel_left] at hsucc

/-- Exchanging `20` and `30` in the stream of the repository's ordering test, over
    `p = 101`, changes the digest. -/
theorem exchange_undetected_iff_order :
    ∃ st st', ksentryFast [10#128, 20#128, 30#128, 40#128] 7#128 101#128 = .ok st ∧
      ksentryFast (swapAdjacent [10#128, 20#128, 30#128, 40#128] 1) 7#128 101#128 = .ok st' ∧
      st'.digest ≠ st.digest := by
  have hprime : (101#128).toNat.Prime := by norm_num
  have hq : (7#128).toNat % (101#128).toNat ≠ 0 := by decide
  have hn : [10#128, 20#128, 30#128, 40#128].length < 2 ^ 64 := by decide
  obtain ⟨st, st', hst, hst', hiff⟩ :=
    (exchange_undetected_iff (i := 1) (j := 2) hprime (by decide) hq hn (by decide) (by decide)).2
  exact ⟨st, st', hst, hst', fun h => absurd (hiff.mp h) (by decide)⟩

end

end TimeFence.Core
