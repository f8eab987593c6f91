import Mathlib

/-!
# Weighted sums of a list

`wsum w xs = Σ_{i < n} xs[i] · w i` over a commutative semiring, for an
arbitrary sequence of weights `w : ℕ → R`. A streaming accumulator computes such
a sum one element at a time (`wsum_concat`); cutting the list shifts the weights
of its second part (`wsum_append`), and two lists of one length have the same
sum exactly when the weighted sum of their differences vanishes (`wsum_sub`).

`tri i = i(i+1)/2` is the sequence of triangular numbers, with the law
`tri (s + i) = tri s + tri i + s·i` for shifted exponents.
-/

namespace TimeFence.Algebra

/-! ## Triangular numbers -/

/-- The `i`-th triangular number. -/
def tri (i : ℕ) : ℕ := i * (i + 1) / 2

theorem two_mul_tri (i : ℕ) : 2 * tri i = i * (i + 1) :=
  Nat.two_mul_div_two_of_even (Nat.even_mul_succ_self i)

@[simp] theorem tri_zero : tri 0 = 0 := rfl

@[simp] theorem tri_one : tri 1 = 1 := rfl

theorem tri_succ (i : ℕ) : tri (i + 1) = tri i + (i + 1) := by
  have h₁ := two_mul_tri i
  have h₂ := two_mul_tri (i + 1)
  have h₃ : (i + 1) * (i + 1 + 1) = i * (i + 1) + 2 * (i + 1) := by ring
  omega

theorem tri_add (s i : ℕ) : tri (s + i) = tri s + tri i + s * i := by
  have h₁ := two_mul_tri s
  have h₂ := two_mul_tri i
  have h₃ := two_mul_tri (s + i)
  have h₄ : (s + i) * (s + i + 1) = s * (s + 1) + i * (i + 1) + 2 * (s * i) := by ring
  omega

theorem tri_strictMono : StrictMono tri :=
  strictMono_nat_of_lt_succ fun i => by rw [tri_succ]; omega

/-- The largest exponent of a list of length `n`. -/
theorem tri_pred (n : ℕ) : tri (n - 1) = n * (n - 1) / 2 := by
  rcases n with _ | n
  · rfl
  · rw [tri, Nat.add_sub_cancel, mul_comm]

/-! ## Weighted sums -/

section CommSemiring

variable {R : Type*} [CommSemiring R]

/-- `Σ_{i < n} xs[i] · w i`, for a list of length `n`. -/
def wsum (w : ℕ → R) (xs : List R) : R := ∑ i ∈ Finset.range xs.length, xs.getD i 0 * w i

@[simp] theorem wsum_nil (w : ℕ → R) : wsum w [] = 0 := by simp [wsum]

/-- One more element. -/
theorem wsum_concat (w : ℕ → R) (xs : List R) (x : R) :
    wsum w (xs ++ [x]) = wsum w xs + x * w xs.length := by
  unfold wsum
  rw [List.length_append, List.length_singleton, Finset.sum_range_succ]
  congr 1
  · apply Finset.sum_congr rfl
    intro i hi
    rw [List.getD_append _ _ _ _ (Finset.mem_range.mp hi)]
  · rw [List.getD_append_right _ _ _ _ le_rfl, Nat.sub_self]
    rfl

@[simp] theorem wsum_singleton (w : ℕ → R) (x : R) : wsum w [x] = x * w 0 := by
  simpa using wsum_concat w [] x

/-- Cutting a list: the second part is weighted from the cut on. -/
theorem wsum_append (w : ℕ → R) (xs ys : List R) :
    wsum w (xs ++ ys) = wsum w xs + wsum (fun i => w (xs.length + i)) ys := by
  induction ys using List.reverseRecOn with
  | nil => simp
  | append_singleton ys y ih =>
    rw [← List.append_assoc, wsum_concat, ih, wsum_concat, List.length_append, add_assoc]

theorem wsum_congr {w w' : ℕ → R} {xs : List R} (h : ∀ i < xs.length, w i = w' i) :
    wsum w xs = wsum w' xs := by
  apply Finset.sum_congr rfl
  intro i hi
  rw [h i (Finset.mem_range.mp hi)]

/-- Trailing zeros do not count. -/
theorem wsum_append_replicate_zero (w : ℕ → R) (xs : List R) (m : ℕ) :
    wsum w (xs ++ List.replicate m 0) = wsum w xs := by
  induction m with
  | zero => simp
  | succ m ih => rw [List.replicate_succ', ← List.append_assoc, wsum_concat, ih, zero_mul, add_zero]

/-- A common factor of the weights. -/
theorem wsum_mul_left (c : R) (w : ℕ → R) (xs : List R) :
    wsum (fun i => c * w i) xs = c * wsum w xs := by
  unfold wsum
  rw [Finset.mul_sum]
  apply Finset.sum_congr rfl
  intro i _
  ring

/-- The weighted sum of a reversed list. -/
theorem wsum_reverse (w : ℕ → R) (xs : List R) :
    wsum w xs.reverse = wsum (fun i => w (xs.length - 1 - i)) xs := by
  unfold wsum
  rw [List.length_reverse, ← Finset.sum_range_reflect]
  apply Finset.sum_congr rfl
  intro i hi
  rw [Finset.mem_range] at hi
  have hlt : xs.length - 1 - i < xs.reverse.length := by
    rw [List.length_reverse]
    omega
  rw [List.getD_eq_getElem _ _ hlt, List.getD_eq_getElem _ _ hi, List.getElem_reverse]
  congr 2
  omega

/-- The weighted sum of a mapped list, index by index. -/
theorem wsum_map_eq_sum {α : Type*} (w : ℕ → R) (f : α → R) (xs : List α) :
    wsum w (xs.map f) = ∑ i : Fin xs.length, f xs[i] * w i := by
  have h := Fin.sum_univ_eq_sum_range (fun i => (xs.map f).getD i 0 * w i) xs.length
  rw [wsum, List.length_map, ← h]
  apply Finset.sum_congr rfl
  intro i _
  simp

end CommSemiring

section CommRing

variable {R : Type*} [CommRing R]

/-- The difference of two weighted sums over lists of one length. -/
theorem wsum_sub (w : ℕ → R) {xs ys : List R} (h : xs.length = ys.length) :
    wsum w xs - wsum w ys =
      ∑ i ∈ Finset.range xs.length, (xs.getD i 0 - ys.getD i 0) * w i := by
  unfold wsum
  rw [← h, ← Finset.sum_sub_distrib]
  apply Finset.sum_congr rfl
  intro i _
  rw [sub_mul]

/-- Replacing one element moves the sum by the weighted change. -/
theorem wsum_set (w : ℕ → R) (xs : List R) {b : ℕ} (hb : b < xs.length) (x : R) :
    wsum w (xs.set b x) = wsum w xs + (x - xs[b]) * w b := by
  rw [← sub_eq_iff_eq_add', wsum_sub w (by simp)]
  have hsingle := Finset.sum_eq_single_of_mem (s := Finset.range (xs.set b x).length)
    (f := fun i => ((xs.set b x).getD i 0 - xs.getD i 0) * w i) b (by simpa using hb)
    (fun i _ hib => by simp [List.getD_eq_getElem?_getD, List.getElem?_set_ne (Ne.symm hib)])
  rw [hsingle]
  simp [List.getD_eq_getElem?_getD, hb]

end CommRing

section Field

variable {F : Type*} [Field F]

/-- The element at a position of nonzero weight is determined by the others and
    the sum. -/
theorem wsum_set_eq_iff {w : ℕ → F} {xs : List F} {b : ℕ} (hb : b < xs.length) (hw : w b ≠ 0)
    (x c : F) : wsum w (xs.set b x) = c ↔ x = xs[b] + (c - wsum w xs) / w b := by
  rw [wsum_set w xs hb, ← eq_sub_iff_add_eq', ← eq_div_iff hw, sub_eq_iff_eq_add']

end Field

end TimeFence.Algebra
