import TimeFence.Common.Difference

/-!
# Edits of a weighted stream

What inserting, deleting, replacing and cutting off elements does to the weighted
sum of a stream modulo `p`. `sumAt weight offset xs` is the sum of the residues of
`xs` with the weights from `offset` on.

* `sumAt_insertIdx_eq_iff`: the elements behind an insertion move to the next
  weight, and the insertion goes unseen when their old sum makes up for it.
* `exists_unseen_residue`: over a prime modulus exactly one residue can be inserted
  unseen at a position whose weight is not zero.
* `sumAt_take_eq_iff`: a truncation goes unseen when the sum of the rest is zero.
* `sumAt_eq_iff_of_single`, `sumAt_exchanged_eq_iff`: one replaced element, and two
  exchanged ones.
-/

namespace TimeFence.Common

open TimeFence.Algebra

section

variable {w p : ℕ} (weight : ℕ → ZMod p) (offset : ℕ)

/-- The weighted sum of a stream whose first element has the weight `offset`. -/
def sumAt (xs : List (BitVec w)) : ZMod p :=
  wsum (fun j => weight (offset + j)) (residues p xs)

@[simp] theorem sumAt_nil : sumAt weight offset ([] : List (BitVec w)) = 0 := wsum_nil _

theorem sumAt_append (xs ys : List (BitVec w)) :
    sumAt weight offset (xs ++ ys) =
      sumAt weight offset xs + sumAt weight (offset + xs.length) ys := by
  rw [sumAt, residues_append, wsum_append, length_residues]
  simp only [← add_assoc]
  rfl

theorem sumAt_cons (x : BitVec w) (xs : List (BitVec w)) :
    sumAt weight offset (x :: xs) =
      (x.toNat : ZMod p) * weight offset + sumAt weight (offset + 1) xs := by
  have h := sumAt_append weight offset [x] xs
  rw [List.singleton_append, List.length_singleton] at h
  rw [h, sumAt, residues_singleton, wsum_singleton, Nat.add_zero]

/-- Cutting a stream. -/
theorem sumAt_take_add_drop {xs : List (BitVec w)} {k : ℕ} (hk : k ≤ xs.length) :
    sumAt weight 0 (xs.take k) + sumAt weight k (xs.drop k) = sumAt weight 0 xs := by
  have h := sumAt_append weight 0 (xs.take k) (xs.drop k)
  rw [List.take_append_drop, List.length_take_of_le hk, Nat.zero_add] at h
  exact h.symm

/-! ## Insertions -/

theorem insertIdx_eq_append {α : Type*} {xs : List α} {i : ℕ} (hi : i ≤ xs.length) (x : α) :
    xs.insertIdx i x = xs.take i ++ x :: xs.drop i := by
  induction i generalizing xs with
  | zero => rfl
  | succ i ih =>
    cases xs with
    | nil => simp at hi
    | cons y xs =>
      rw [List.insertIdx_succ_cons, ih (by simpa using hi)]
      rfl

variable {xs ys : List (BitVec w)} {i j : ℕ}

/-- An insertion goes unseen when the elements behind it make up for it. -/
theorem sumAt_insertIdx_eq_iff (hi : i ≤ xs.length) (x : BitVec w) :
    sumAt weight 0 (xs.insertIdx i x) = sumAt weight 0 xs ↔
      (x.toNat : ZMod p) * weight i = sumAt weight i (xs.drop i) - sumAt weight (i + 1) (xs.drop i) := by
  rw [insertIdx_eq_append hi, sumAt_append, sumAt_cons, List.length_take_of_le hi, Nat.zero_add,
    ← sumAt_take_add_drop weight hi, add_right_inj, eq_sub_iff_add_eq]

/-- One residue can be inserted unseen. -/
theorem exists_unseen_residue (hprime : p.Prime) (hweight : weight i ≠ 0) (hi : i ≤ xs.length) :
    ∃ r < p, ∀ x : BitVec w,
      sumAt weight 0 (xs.insertIdx i x) = sumAt weight 0 xs ↔ x.toNat % p = r := by
  have : Fact p.Prime := ⟨hprime⟩
  refine ⟨((sumAt weight i (xs.drop i) - sumAt weight (i + 1) (xs.drop i)) / weight i).val,
    ZMod.val_lt _, fun x => ?_⟩
  rw [sumAt_insertIdx_eq_iff weight hi, ← eq_div_iff hweight, ← ZMod.val_natCast]
  exact (ZMod.val_injective p).eq_iff.symm

/-! ## Truncations -/

/-- A truncation goes unseen when the rest has the sum zero. -/
theorem sumAt_take_eq_iff {k : ℕ} (hk : k ≤ xs.length) :
    sumAt weight 0 (xs.take k) = sumAt weight 0 xs ↔ sumAt weight k (xs.drop k) = 0 := by
  rw [← sumAt_take_add_drop weight hk, left_eq_add]

/-! ## Replacements and exchanges -/

/-- One replaced element is seen exactly when the residues differ. -/
theorem sumAt_eq_iff_of_single (hprime : p.Prime) (hlen : xs.length = ys.length)
    (hi : i < xs.length) (hweight : weight i ≠ 0) (h : ∀ k, DiffersAt p xs ys k → k = i) :
    sumAt weight 0 xs = sumAt weight 0 ys ↔ ¬ DiffersAt p xs ys i := by
  have : Fact p.Prime := ⟨hprime⟩
  have hsub := wsum_residues_sub_of_single (fun j => weight (0 + j)) hlen hi h
  rw [← diffAt_cast_eq_zero_iff, ← sub_eq_zero]
  show wsum _ (residues p xs) - wsum _ (residues p ys) = 0 ↔ _
  rw [hsub, Nat.zero_add, mul_eq_zero, or_iff_left hweight]

/-- Two exchanged elements are seen unless they are congruent or have the same
    weight. -/
theorem sumAt_exchanged_eq_iff (hprime : p.Prime) (h : Exchanged xs ys i j) (hij : i ≠ j)
    (hi : i < xs.length) (hj : j < xs.length) :
    sumAt weight 0 xs = sumAt weight 0 ys ↔
      (xs.getD i 0).toNat % p = (xs.getD j 0).toNat % p ∨ weight i = weight j := by
  have : Fact p.Prime := ⟨hprime⟩
  have hsub := h.wsum_residues_sub (fun j => weight (0 + j)) hij hi hj
  rw [← ZMod.natCast_eq_natCast_iff', ← sub_eq_zero]
  show wsum _ (residues p xs) - wsum _ (residues p ys) = 0 ↔ _
  rw [hsub, Nat.zero_add, Nat.zero_add, mul_eq_zero, sub_eq_zero, sub_eq_zero]

end

end TimeFence.Common
