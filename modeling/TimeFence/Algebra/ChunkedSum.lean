import TimeFence.Algebra.Rebase
import TimeFence.Common.Chunks

/-!
# Triangular sums of chunks

A triangular sum of a whole list weights an element by its position in the list,
the sums of its chunks weight it by its position in the chunk. Over a field the
sums of the chunks determine the sum of the list exactly when `q^c = 1`:

* `wsum_eq_of_windows`: then lists with the same sums of chunks have the same sum.
* `wsum_window_hidden`, `wsum_hidden`: otherwise there is a list that is not zero,
  although all its chunks are.
* `wsum_cancelling`, `wsum_window_cancelling`: the sum of a list never determines
  those of its chunks.
-/

namespace TimeFence.Algebra

open TimeFence.Common

section CommSemiring

variable {R : Type*} [CommSemiring R] {q : R} {c : ℕ}

theorem window_drop {α : Type*} (c k : ℕ) (xs : List α) :
    window c k (xs.drop c) = window c (k + 1) xs := by
  rw [window, window, List.drop_drop, add_one_mul, Nat.add_comm]

theorem window_zero {α : Type*} (c : ℕ) (xs : List α) : window c 0 xs = xs.take c := by
  rw [window, Nat.zero_mul, List.drop_zero]

/-- The chunks determine the sum when all positions `k · c` have the same factor. -/
theorem wsum_eq_of_windows (hc : 0 < c) (hq : q ^ c = 1) {xs ys : List R}
    (hlen : xs.length = ys.length)
    (h : ∀ k, wsum (triWeight q) (window c k xs) = wsum (triWeight q) (window c k ys)) :
    wsum (triWeight q) xs = wsum (triWeight q) ys := by
  -- Induction on the length, one chunk at a time.
  induction hn : xs.length using Nat.strong_induction_on generalizing xs ys with
  | _ n ih =>
    have hfirst := h 0
    rw [window_zero, window_zero] at hfirst
    by_cases hle : n ≤ c
    · rwa [List.take_of_length_le (by omega), List.take_of_length_le (by omega)] at hfirst
    · have hrest : wsum (triWeight q) (xs.drop c) = wsum (triWeight q) (ys.drop c) :=
        ih (n - c) (by omega) (by rw [List.length_drop, List.length_drop, hlen])
          (fun k => by rw [window_drop, window_drop]; exact h (k + 1)) (by rw [List.length_drop, hn])
      rw [← List.take_append_drop c xs, ← List.take_append_drop c ys, wsum_triWeight_append,
        wsum_triWeight_append, hfirst, List.length_take_of_le (by omega),
        List.length_take_of_le (by omega), shiftedSum_of_pow_eq_one hq,
        shiftedSum_of_pow_eq_one hq, hrest]

end CommSemiring

section Field

variable {F : Type*} [Field F] {c : ℕ}

/-- `-q` and `1` at the start of the second chunk. -/
def hidden (q : F) (c m : ℕ) : List F := List.replicate c 0 ++ ([-q, 1] ++ List.replicate m 0)

theorem wsum_replicate_zero (w : ℕ → F) (n : ℕ) : wsum w (List.replicate n 0) = 0 := by
  have h := wsum_append_replicate_zero w [] n
  rwa [List.nil_append, wsum_nil] at h

theorem wsum_window_replicate_zero (w : ℕ → F) (c k n : ℕ) :
    wsum w (window c k (List.replicate n 0)) = 0 := by
  rw [window, List.drop_replicate, List.take_replicate, wsum_replicate_zero]

theorem wsum_pair (w : ℕ → F) (a b : F) : wsum w [a, b] = a * w 0 + b * w 1 := by
  have h := wsum_concat w [a] b
  rwa [wsum_singleton] at h

/-- No chunk shows the difference. -/
theorem wsum_window_hidden (q : F) (hc : 2 ≤ c) (m k : ℕ) :
    wsum (triWeight q) (window c k (hidden q c m)) = 0 := by
  have htri : triWeight q 0 = 1 ∧ triWeight q 1 = q := by simp [triWeight, tri]
  cases k with
  | zero =>
    rw [window_zero, hidden, List.take_left' List.length_replicate, wsum_replicate_zero]
  | succ k =>
    rw [← window_drop, hidden, List.drop_left' List.length_replicate]
    cases k with
    | zero =>
      obtain ⟨d, rfl⟩ : ∃ d, c = d + 2 := ⟨c - 2, by omega⟩
      rw [window_zero]
      show wsum (triWeight q) ([-q, 1] ++ (List.replicate m 0).take d) = 0
      rw [List.take_replicate, wsum_append_replicate_zero, wsum_pair, htri.1, htri.2]
      ring
    | succ k =>
      have hdrop : ([-q, 1] ++ List.replicate m (0 : F)).drop ((k + 1) * c) =
          List.replicate (m - ((k + 1) * c - 2)) 0 := by
        have hle : 2 ≤ (k + 1) * c := hc.trans (Nat.le_mul_of_pos_left c (Nat.succ_pos k))
        rw [List.drop_append, List.drop_eq_nil_of_le (by simpa using hle), List.nil_append,
          List.drop_replicate]
        rfl
      rw [window, hdrop, List.take_replicate, wsum_replicate_zero]

/-- The whole list does, unless all chunks have the same factor. -/
theorem wsum_hidden (q : F) (c m : ℕ) :
    wsum (triWeight q) (hidden q c m) = triWeight q c * q * (q ^ c - 1) := by
  have hlen := List.length_replicate (n := c) (a := (0 : F))
  rw [hidden, wsum_triWeight_append, wsum_replicate_zero, zero_add, hlen, shiftedSum,
    wsum_append_replicate_zero, wsum_pair, triWeight_add, triWeight_add]
  simp only [triWeight, tri]
  ring

/-- Differences in the first two chunks that cancel. -/
def cancelling (q : F) (c m : ℕ) : List F :=
  -triWeight q c :: (List.replicate (c - 1) 0 ++ ([1] ++ List.replicate m 0))

theorem wsum_cancelling (q : F) (hc : 0 < c) (m : ℕ) :
    wsum (triWeight q) (cancelling q c m) = 0 := by
  have hsplit : cancelling q c m =
      ([-triWeight q c] ++ List.replicate (c - 1) 0) ++ ([1] ++ List.replicate m 0) := by
    simp [cancelling]
  have hlen : ([-triWeight q c] ++ List.replicate (c - 1) 0).length = c := by
    simp
    omega
  rw [hsplit, wsum_triWeight_append, hlen, wsum_append_replicate_zero, shiftedSum,
    wsum_append_replicate_zero, wsum_singleton, wsum_singleton]
  simp [triWeight, tri]

/-- The first chunk alone shows its difference. -/
theorem wsum_window_cancelling (q : F) (hc : 0 < c) (m : ℕ) :
    wsum (triWeight q) (window c 0 (cancelling q c m)) = -triWeight q c := by
  obtain ⟨d, rfl⟩ : ∃ d, c = d + 1 := ⟨c - 1, by omega⟩
  have htake : (cancelling q (d + 1) m).take (d + 1) =
      [-triWeight q (d + 1)] ++ List.replicate d 0 := by
    rw [cancelling, List.take_succ_cons, Nat.add_sub_cancel, List.take_left' List.length_replicate]
    rfl
  rw [window_zero, htake, wsum_append_replicate_zero, wsum_singleton]
  simp [triWeight, tri]

theorem length_hidden (q : F) (c m : ℕ) : (hidden q c m).length = c + 2 + m := by
  simp [hidden]
  omega

theorem length_cancelling (q : F) (hc : 0 < c) (m : ℕ) :
    (cancelling q c m).length = c + 1 + m := by
  simp [cancelling]
  omega

end Field

end TimeFence.Algebra
