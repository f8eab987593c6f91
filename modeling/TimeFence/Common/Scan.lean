import TimeFence.Common.Exec

/-!
# Scanning an index range

Loops over `0..n` that return at the first index with a property, loops that go
down from the last index, and loops that collect the indices. `IsFirst P n i` and
`IsLast P n i` say that `i` is the least and the greatest index below `n` with
the property `P`; `IsFirst.find?_eq` and `IsLast.find?_reverse_eq` say that the
two scans find them, and `IsFirst.head?_filter` and `IsLast.getLast?_filter` that
they are the ends of the collected indices.
-/

namespace TimeFence.Common

/-- `i` is the least index below `n` with the property `P`. -/
structure IsFirst (P : ℕ → Prop) (n i : ℕ) : Prop where
  lt : i < n
  holds : P i
  before : ∀ j < i, ¬ P j

/-- `i` is the greatest index below `n` with the property `P`. -/
structure IsLast (P : ℕ → Prop) (n i : ℕ) : Prop where
  lt : i < n
  holds : P i
  after : ∀ j, i < j → j < n → ¬ P j

section

variable {P : ℕ → Prop} {n : ℕ}

theorem IsFirst.unique {i j : ℕ} (hi : IsFirst P n i) (hj : IsFirst P n j) : i = j := by
  by_contra hne
  rcases Nat.lt_or_gt_of_ne hne with h | h
  · exact hj.before i h hi.holds
  · exact hi.before j h hj.holds

theorem IsFirst.le {i j : ℕ} (hi : IsFirst P n i) (hj : IsLast P n j) : i ≤ j := by
  by_contra h
  exact hi.before j (by omega) hj.holds

theorem exists_isFirst (h : ∃ i < n, P i) : ∃ i, IsFirst P n i := by
  classical
  obtain ⟨i, hi, hP⟩ := h
  have hex : ∃ i, P i := ⟨i, hP⟩
  exact ⟨Nat.find hex, (Nat.find_min' hex hP).trans_lt hi, Nat.find_spec hex,
    fun j hj => Nat.find_min hex hj⟩

theorem exists_isLast (h : ∃ i < n, P i) : ∃ i, IsLast P n i := by
  -- Induction on `n`: the last index below `n + 1` is `n` or the one below `n`.
  induction n with
  | zero =>
    obtain ⟨i, hi, -⟩ := h
    omega
  | succ n ih =>
    by_cases hP : P n
    · exact ⟨n, Nat.lt_succ_self n, hP, fun j hj hjn => by omega⟩
    · obtain ⟨i, hi, hPi⟩ := h
      have hne : i ≠ n := by
        rintro rfl
        exact hP hPi
      obtain ⟨l, hl⟩ := ih ⟨i, by omega, hPi⟩
      refine ⟨l, hl.lt.trans (Nat.lt_succ_self n), hl.holds, fun j hj hjn => ?_⟩
      by_cases hj' : j = n
      · rwa [hj']
      · exact hl.after j hj (by omega)

/-- Two properties that agree as long as the second one has not held yet have the same
    first index. -/
theorem isFirst_iff_of_before {Q : ℕ → Prop} {i : ℕ}
    (h : ∀ k < n, (∀ j < k, ¬ Q j) → (P k ↔ Q k)) : IsFirst P n i ↔ IsFirst Q n i := by
  constructor
  · rintro ⟨hi, hP, hbefore⟩
    -- Strong induction on the index: before `k` the second property has not held.
    have hnot : ∀ j < i, ¬ Q j := by
      intro j
      induction j using Nat.strong_induction_on with
      | h j ih =>
        intro hj hQ
        have hPj := (h j (by omega) fun k hk => ih k hk (by omega)).mpr hQ
        exact hbefore j hj hPj
    exact ⟨hi, (h i hi hnot).mp hP, hnot⟩
  · rintro ⟨hi, hQ, hbefore⟩
    refine ⟨hi, (h i hi hbefore).mpr hQ, fun j hj hP => ?_⟩
    exact hbefore j hj ((h j (by omega) fun k hk => hbefore k (by omega)).mp hP)

variable [DecidablePred P]

theorem IsFirst.find?_eq {i : ℕ} (h : IsFirst P n i) :
    (List.range n).find? (fun j => decide (P j)) = some i := by
  rw [List.find?_range_eq_some]
  exact ⟨by simpa using h.holds, List.mem_range.mpr h.lt, fun j hj => by simpa using h.before j hj⟩

/-- A scan that goes down to any index not above it. -/
theorem IsLast.find?_reverse_eq {i s : ℕ} (h : IsLast P n i) (hs : s ≤ i) :
    (List.range' s (n - s)).reverse.find? (fun j => decide (P j)) = some i := by
  obtain ⟨k, rfl⟩ := Nat.exists_eq_add_of_le hs
  obtain ⟨m, rfl⟩ := Nat.exists_eq_add_of_lt h.lt
  -- The indices above `i = s + k` are looked at before it.
  have hsplit : List.range' s (s + k + m + 1 - s) =
      List.range' s k ++ (s + k) :: List.range' (s + k + 1) m := by
    have hcount : s + k + m + 1 - s = k + (m + 1) := by omega
    rw [hcount, ← List.range'_append_1, List.range'_succ]
  rw [hsplit, List.reverse_append, List.reverse_cons, List.append_assoc,
    List.find?_eq_some_iff_append]
  refine ⟨by simpa using h.holds, (List.range' (s + k + 1) m).reverse, (List.range' s k).reverse,
    rfl, fun j hj => ?_⟩
  rw [List.mem_reverse, List.mem_range'_1] at hj
  simpa using h.after j (by omega) (by omega)

theorem IsFirst.head?_filter {i : ℕ} (h : IsFirst P n i) :
    ((List.range n).filter fun j => decide (P j)).head? = some i := by
  rw [List.head?_filter, h.find?_eq]

theorem IsLast.getLast?_filter {i : ℕ} (h : IsLast P n i) :
    ((List.range n).filter fun j => decide (P j)).getLast? = some i := by
  rw [List.getLast?_filter, List.range_eq_range']
  exact h.find?_reverse_eq (Nat.zero_le i)

theorem find?_range_eq_some_iff {i : ℕ} :
    (List.range n).find? (fun j => decide (P j)) = some i ↔ IsFirst P n i := by
  refine ⟨fun h => ?_, fun h => h.find?_eq⟩
  obtain ⟨hP, hi, hbefore⟩ := List.find?_range_eq_some.mp h
  exact ⟨List.mem_range.mp hi, by simpa using hP, fun j hj => by simpa using hbefore j hj⟩

theorem head?_filter_eq_some_iff {i : ℕ} :
    ((List.range n).filter fun j => decide (P j)).head? = some i ↔ IsFirst P n i := by
  rw [List.head?_filter, find?_range_eq_some_iff]

theorem getLast?_filter_eq_some_iff {i : ℕ} :
    ((List.range n).filter fun j => decide (P j)).getLast? = some i ↔ IsLast P n i := by
  refine ⟨fun h => ?_, fun h => h.getLast?_filter⟩
  have hmem := List.mem_of_getLast? h
  rw [List.mem_filter, List.mem_range, decide_eq_true_eq] at hmem
  obtain ⟨l, hl⟩ := exists_isLast ⟨i, hmem⟩
  rw [hl.getLast?_filter, Option.some.injEq] at h
  rwa [← h]

end

/-! ## Loops -/

section

variable {ι ρ : Type}

/-- A loop that returns early, when its body never panics. -/
theorem findSomeM?_eq_ok {f : ι → Exec (Option ρ)} {g : ι → Option ρ} {is : List ι}
    (h : ∀ i ∈ is, f i = .ok (g i)) : is.findSomeM? f = .ok (is.findSome? g) := by
  induction is with
  | nil => rfl
  | cons i is ih =>
    rw [List.findSomeM?_cons, h i List.mem_cons_self, ok_bind, List.findSome?_cons]
    cases g i with
    | none => exact ih fun j hj => h j (List.mem_cons_of_mem i hj)
    | some r => rfl

theorem findSome?_ite {p : ι → Prop} [DecidablePred p] (value : ι → ρ) (is : List ι) :
    (is.findSome? fun i => if p i then some (value i) else none) =
      (is.find? fun i => decide (p i)).map value := by
  induction is with
  | nil => rfl
  | cons i is ih =>
    rw [List.findSome?_cons, List.find?_cons]
    by_cases hi : p i
    · simp [hi]
    · simp [hi, ih]

/-- A loop that collects indices, when its body never panics. -/
theorem foldlM_collect_eq_ok {p : ι → Prop} [DecidablePred p] {f : List ι → ι → Exec (List ι)}
    {is : List ι} (h : ∀ out, ∀ i ∈ is, f out i = .ok (if p i then out ++ [i] else out))
    (out : List ι) : is.foldlM f out = .ok (out ++ is.filter fun i => decide (p i)) := by
  induction is generalizing out with
  | nil =>
    rw [List.filter_nil, List.append_nil]
    rfl
  | cons i is ih =>
    rw [List.foldlM_cons, h out i List.mem_cons_self, ok_bind,
      ih (fun out j hj => h out j (List.mem_cons_of_mem i hj)), List.filter_cons]
    by_cases hi : p i
    · simp [hi]
    · simp [hi]

end

end TimeFence.Common
