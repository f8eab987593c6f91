import TimeFence.Common.Residue

/-!
# The difference of two streams

`diffAt xs ys i` is the integer difference at position `i`, and `DiffersAt p xs
ys i` says that the residues modulo `p` differ there. For streams of one length
the weighted sums of their residues differ by the weighted sum of the
differences (`wsum_residues_sub`), so they are equal exactly when `p` divides it
(`wsum_residues_eq_iff_dvd`). When only one position differs, or when two
elements were exchanged, one product is left of that sum
(`wsum_residues_sub_of_single`, `Exchanged.wsum_residues_sub`).
-/

namespace TimeFence.Common

open TimeFence.Algebra

section

variable {w : ℕ} {xs ys : List (BitVec w)}

/-- The difference at position `i`. Past the end it is `0`. -/
def diffAt (xs ys : List (BitVec w)) (i : ℕ) : ℤ := (xs.getD i 0).toNat - (ys.getD i 0).toNat

/-- The residues at position `i` differ. -/
def DiffersAt (p : ℕ) (xs ys : List (BitVec w)) (i : ℕ) : Prop :=
  (xs.getD i 0).toNat % p ≠ (ys.getD i 0).toNat % p

instance (p : ℕ) (xs ys : List (BitVec w)) (i : ℕ) : Decidable (DiffersAt p xs ys i) :=
  inferInstanceAs (Decidable (_ ≠ _))

theorem diffAt_cast_eq_zero_iff (p : ℕ) (xs ys : List (BitVec w)) (i : ℕ) :
    (diffAt xs ys i : ZMod p) = 0 ↔ ¬ DiffersAt p xs ys i := by
  rw [DiffersAt, not_not, diffAt, Int.cast_sub, sub_eq_zero, Int.cast_natCast, Int.cast_natCast,
    ZMod.natCast_eq_natCast_iff']

/-- A differing position lies inside the streams. -/
theorem DiffersAt.lt_length {p i : ℕ} (hlen : xs.length = ys.length) (h : DiffersAt p xs ys i) :
    i < xs.length := by
  by_contra hi
  rw [not_lt] at hi
  apply h
  rw [List.getD_eq_default _ _ hi, List.getD_eq_default _ _ (by omega)]

theorem wsum_residues_sub (p : ℕ) (weight : ℕ → ZMod p) (hlen : xs.length = ys.length) :
    wsum weight (residues p xs) - wsum weight (residues p ys) =
      ∑ i ∈ Finset.range xs.length, (diffAt xs ys i : ZMod p) * weight i := by
  rw [wsum_sub weight (by rw [length_residues, length_residues, hlen]), length_residues]
  apply Finset.sum_congr rfl
  intro i _
  rw [getD_residues, getD_residues, diffAt]
  push_cast
  rfl

/-- Equal weighted sums in terms of integers. -/
theorem wsum_residues_eq_iff_dvd (p : ℕ) (weight : ℕ → ℤ) (hlen : xs.length = ys.length) :
    wsum (fun i => (weight i : ZMod p)) (residues p xs) =
        wsum (fun i => (weight i : ZMod p)) (residues p ys) ↔
      (p : ℤ) ∣ ∑ i ∈ Finset.range xs.length, diffAt xs ys i * weight i := by
  rw [← sub_eq_zero, wsum_residues_sub p _ hlen, ← ZMod.intCast_zmod_eq_zero_iff_dvd]
  push_cast
  rfl

/-- Streams without a differing position have the same weighted sums. -/
theorem wsum_residues_eq_of_forall_not {p : ℕ} (weight : ℕ → ZMod p)
    (hlen : xs.length = ys.length) (h : ∀ i, ¬ DiffersAt p xs ys i) :
    wsum weight (residues p xs) = wsum weight (residues p ys) := by
  rw [← sub_eq_zero, wsum_residues_sub p weight hlen]
  apply Finset.sum_eq_zero
  intro i _
  rw [(diffAt_cast_eq_zero_iff p xs ys i).mpr (h i), zero_mul]

/-- A single differing position. -/
theorem wsum_residues_sub_of_single {p : ℕ} (weight : ℕ → ZMod p)
    (hlen : xs.length = ys.length) {a : ℕ} (ha : a < xs.length)
    (h : ∀ i, DiffersAt p xs ys i → i = a) :
    wsum weight (residues p xs) - wsum weight (residues p ys) =
      (diffAt xs ys a : ZMod p) * weight a := by
  rw [wsum_residues_sub p weight hlen]
  apply Finset.sum_eq_single_of_mem a (Finset.mem_range.mpr ha)
  intro i _ hia
  rw [(diffAt_cast_eq_zero_iff p xs ys i).mpr fun hd => hia (h i hd), zero_mul]

/-! ## Exchanging two elements -/

/-- `ys` is `xs` with the elements at `i` and `j` exchanged. -/
structure Exchanged (xs ys : List (BitVec w)) (i j : ℕ) : Prop where
  length_eq : xs.length = ys.length
  left : ys.getD i 0 = xs.getD j 0
  right : ys.getD j 0 = xs.getD i 0
  other : ∀ k, k ≠ i → k ≠ j → ys.getD k 0 = xs.getD k 0

theorem Exchanged.not_differsAt {i j : ℕ} (h : Exchanged xs ys i j) (p : ℕ) {k : ℕ} (hi : k ≠ i)
    (hj : k ≠ j) : ¬ DiffersAt p xs ys k := by
  rw [DiffersAt, h.other k hi hj]
  exact not_not.mpr rfl

/-- An exchange moves the difference of the two elements from one weight to the
    other. -/
theorem Exchanged.wsum_residues_sub {i j : ℕ} (h : Exchanged xs ys i j) {p : ℕ}
    (weight : ℕ → ZMod p) (hij : i ≠ j) (hi : i < xs.length) (hj : j < xs.length) :
    wsum weight (residues p xs) - wsum weight (residues p ys) =
      ((xs.getD i 0).toNat - (xs.getD j 0).toNat) * (weight i - weight j) := by
  rw [Common.wsum_residues_sub p weight h.length_eq]
  have hpair := Finset.sum_eq_add (s := Finset.range xs.length)
    (f := fun k => (diffAt xs ys k : ZMod p) * weight k) i j hij
    (fun k _ hk => by
      rw [(diffAt_cast_eq_zero_iff p xs ys k).mpr (h.not_differsAt p hk.1 hk.2), zero_mul])
    (fun hout => absurd (Finset.mem_range.mpr hi) hout)
    (fun hout => absurd (Finset.mem_range.mpr hj) hout)
  rw [hpair, diffAt, diffAt, h.left, h.right]
  push_cast
  ring

end

end TimeFence.Common
