import Mathlib

/-!
# The two ends of a growing list

A log that keeps its first `n` and its last `n` entries only: what happens to
either end when an entry is added.
-/

namespace TimeFence.Common

variable {α : Type*}

/-- The first entries: a full list stays as it is. -/
theorem take_concat (n : ℕ) (xs : List α) (x : α) :
    (xs ++ [x]).take n = if (xs.take n).length < n then xs.take n ++ [x] else xs.take n := by
  by_cases h : xs.length < n
  · have hlen : (xs.take n).length < n := by rw [List.length_take]; omega
    rw [if_pos hlen, List.take_of_length_le (by simp; omega), List.take_of_length_le h.le]
  · have hlen : ¬ (xs.take n).length < n := by rw [List.length_take]; omega
    rw [if_neg hlen, List.take_append_of_le_length (by omega)]

/-- The last `n` entries. -/
def lastN (n : ℕ) (xs : List α) : List α := xs.drop (xs.length - n)

theorem length_lastN (n : ℕ) (xs : List α) : (lastN n xs).length = min n xs.length := by
  rw [lastN, List.length_drop]
  omega

/-- The last entries: a full list loses its oldest one. -/
theorem lastN_concat {n : ℕ} (hn : 0 < n) (xs : List α) (x : α) :
    lastN n (xs ++ [x]) =
      (if (lastN n xs).length = n then (lastN n xs).tail else lastN n xs) ++ [x] := by
  rw [length_lastN]
  unfold lastN
  rw [List.length_append, List.length_singleton]
  by_cases h : n ≤ xs.length
  · have hdrop : xs.length + 1 - n = xs.length - n + 1 := by omega
    rw [if_pos (min_eq_left h), hdrop, List.drop_append_of_le_length (by omega), List.tail_drop]
  · have hmin : min n xs.length ≠ n := by omega
    have hzero : xs.length + 1 - n = 0 := by omega
    have hzero' : xs.length - n = 0 := by omega
    rw [if_neg hmin, hzero, hzero', List.drop_zero, List.drop_zero]

end TimeFence.Common
