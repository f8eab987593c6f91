import Mathlib

/-!
# Cutting a slice into chunks

`chunks c xs` is Rust's `xs.chunks(c)`: consecutive pieces of `c` elements from
the start of the slice, the last of which may be shorter. `chunks_getElem?`
gives the `k`-th piece as a window of the slice, and with it the number of
pieces; together they make up the slice (`flatten_chunks`).
-/

namespace TimeFence.Common

variable {α : Type*}

/-- The pieces of `xs`, at most `fuel` of them. -/
def chunksFrom (c : ℕ) : ℕ → List α → List (List α)
  | 0, _ => []
  | fuel + 1, xs => if xs.isEmpty then [] else xs.take c :: chunksFrom c fuel (xs.drop c)

/-- `xs.chunks(c)`. Every piece takes an element, so the length of the slice
    bounds the number of pieces. -/
def chunks (c : ℕ) (xs : List α) : List (List α) := chunksFrom c xs.length xs

/-- The window of `c` elements from index `k · c` on. -/
def window (c k : ℕ) (xs : List α) : List α := (xs.drop (k * c)).take c

theorem length_window (c k : ℕ) (xs : List α) :
    (window c k xs).length = min c (xs.length - k * c) := by
  rw [window, List.length_take, List.length_drop]

/-- A window that fits in the slice is full. -/
theorem length_window_of_le {c k : ℕ} {xs : List α} (h : (k + 1) * c ≤ xs.length) :
    (window c k xs).length = c := by
  rw [length_window]
  rw [add_one_mul] at h
  omega

theorem window_getD {c k r : ℕ} (hr : r < c) (xs : List α) (d : α) :
    (window c k xs).getD r d = xs.getD (k * c + r) d := by
  rw [window, List.getD_eq_getElem?_getD, List.getD_eq_getElem?_getD, List.getElem?_take_of_lt hr,
    List.getElem?_drop]

/-- Past the end of the window there is only the default. -/
theorem window_getD_of_le {c k r : ℕ} (hr : c ≤ r) (xs : List α) (d : α) :
    (window c k xs).getD r d = d := by
  apply List.getD_eq_default
  rw [length_window]
  omega

theorem chunksFrom_getElem? {c : ℕ} (hc : 0 < c) :
    ∀ fuel (xs : List α) k, xs.length ≤ fuel →
      (chunksFrom c fuel xs)[k]? = if k * c < xs.length then some (window c k xs) else none := by
  intro fuel
  induction fuel with
  | zero =>
    intro xs k hlen
    rw [chunksFrom, if_neg (by omega)]
    rfl
  | succ fuel ih =>
    intro xs k hlen
    rw [chunksFrom]
    by_cases hxs : xs = []
    · subst hxs
      simp
    · have hpos : 0 < xs.length := List.length_pos_iff.mpr hxs
      rw [if_neg (by simp [hxs])]
      cases k with
      | zero => simp [hpos, window]
      | succ k =>
        have hsucc : (k + 1) * c = k * c + c := by ring
        rw [List.getElem?_cons_succ, ih _ _ (by rw [List.length_drop]; omega), List.length_drop,
          window, window, List.drop_drop, hsucc, add_comm c]
        by_cases hk : k * c + c < xs.length
        · rw [if_pos hk, if_pos (by omega)]
        · rw [if_neg hk, if_neg (by omega)]

/-- The `k`-th piece, which exists exactly when it starts inside the slice. -/
theorem chunks_getElem? {c : ℕ} (hc : 0 < c) (xs : List α) (k : ℕ) :
    (chunks c xs)[k]? = if k * c < xs.length then some (window c k xs) else none :=
  chunksFrom_getElem? hc xs.length xs k le_rfl

theorem lt_length_chunks_iff {c : ℕ} (hc : 0 < c) (xs : List α) (k : ℕ) :
    k < (chunks c xs).length ↔ k * c < xs.length := by
  rw [← not_le, ← List.getElem?_eq_none_iff, chunks_getElem? hc]
  split_ifs with h <;> simp [h]

theorem flatten_chunksFrom {c : ℕ} (hc : 0 < c) :
    ∀ fuel (xs : List α), xs.length ≤ fuel → (chunksFrom c fuel xs).flatten = xs := by
  intro fuel
  induction fuel with
  | zero =>
    intro xs hlen
    obtain rfl := List.length_eq_zero_iff.mp (Nat.le_zero.mp hlen)
    rfl
  | succ fuel ih =>
    intro xs hlen
    rw [chunksFrom]
    by_cases hxs : xs = []
    · subst hxs
      rfl
    · have hpos : 0 < xs.length := List.length_pos_iff.mpr hxs
      rw [if_neg (by simp [hxs]), List.flatten_cons, ih _ (by rw [List.length_drop]; omega),
        List.take_append_drop]

/-- The pieces of a slice make up the slice. -/
theorem flatten_chunks {c : ℕ} (hc : 0 < c) (xs : List α) :
    (chunks c xs).flatten = xs := flatten_chunksFrom hc xs.length xs le_rfl

theorem length_chunks_eq {c : ℕ} (hc : 0 < c) {xs ys : List α}
    (hlen : xs.length = ys.length) : (chunks c xs).length = (chunks c ys).length := by
  have hx := lt_length_chunks_iff hc xs
  have hy := lt_length_chunks_iff hc ys
  rw [← hlen] at hy
  apply le_antisymm
  · by_contra h
    exact absurd ((hy _).mpr ((hx _).mp (not_le.mp h))) (lt_irrefl _)
  · by_contra h
    exact absurd ((hx _).mpr ((hy _).mp (not_le.mp h))) (lt_irrefl _)

/-- A slice that fits into one piece. -/
theorem chunks_of_length_le {c : ℕ} {xs : List α} (hxs : xs ≠ [])
    (hlen : xs.length ≤ c) : chunks c xs = [xs] := by
  have hpos : 0 < xs.length := List.length_pos_iff.mpr hxs
  obtain ⟨n, hn⟩ := Nat.exists_eq_add_of_le' hpos
  rw [chunks, hn, chunksFrom, if_neg (by simp [hxs]), List.take_of_length_le hlen,
    List.drop_of_length_le hlen]
  cases n <;> rfl

end TimeFence.Common
