import Mathlib.Combinatorics.Pigeonhole
import Mathlib.Data.List.Nodup
import TimeFence.Common.Scan

/-!
# Searching for a collision

Nested loops over all pairs of candidates that stop at the first pair of different
candidates with one value. `firstCollision` returns the pair and the value,
`hasCollision` only whether there is one; `firstCollision_returns` and
`hasCollision_returns` say that they decide whether the value is injective on the
candidates. With more candidates than values they succeed
(`exists_collision_of_lt_length`). Loops over the components of a candidate are one
loop over the product (`findSomeM?_product`).
-/

namespace TimeFence.Common

/-! ## Loops over components -/

section

variable {ι κ ρ : Type}

theorem findSomeM?_append (f : ι → Exec (Option ρ)) (xs ys : List ι) :
    (xs ++ ys).findSomeM? f = xs.findSomeM? f >>= fun r =>
      match r with
      | some b => pure (some b)
      | none => ys.findSomeM? f := by
  induction xs with
  | nil => rfl
  | cons x xs ih =>
    rw [List.cons_append, List.findSomeM?_cons, List.findSomeM?_cons, bind_assoc]
    refine bind_congr fun r => ?_
    cases r with
    | none => exact ih
    | some b => rfl

theorem findSomeM?_map (f : κ → Exec (Option ρ)) (g : ι → κ) (xs : List ι) :
    (xs.map g).findSomeM? f = xs.findSomeM? fun x => f (g x) := by
  induction xs with
  | nil => rfl
  | cons x xs ih => rw [List.map_cons, List.findSomeM?_cons, List.findSomeM?_cons, ih]

theorem findSomeM?_product (f : ι × κ → Exec (Option ρ)) (xs : List ι) (ys : List κ) :
    (xs ×ˢ ys).findSomeM? f = xs.findSomeM? fun x => ys.findSomeM? fun y => f (x, y) := by
  induction xs with
  | nil => rfl
  | cons x xs ih =>
    rw [List.product_cons, findSomeM?_append, findSomeM?_map, ih, List.findSomeM?_cons]
    rfl

end

/-! ## The two searches -/

section

variable {α β : Type} {state : α → Exec β} {cands : List α}

/-- Two different candidates with one value. -/
def Collides (state : α → Exec β) (cands : List α) : Prop :=
  ∃ x ∈ cands, ∃ y ∈ cands, x ≠ y ∧ state x = state y

theorem collides_iff {value : α → β} (h : ∀ x ∈ cands, state x = .ok (value x)) :
    Collides state cands ↔ ∃ x ∈ cands, ∃ y ∈ cands, x ≠ y ∧ value x = value y := by
  refine exists_congr fun x => and_congr_right fun hx => exists_congr fun y =>
    and_congr_right fun hy => and_congr_right fun _ => ?_
  rw [h x hx, h y hy, Except.ok.injEq]

variable [DecidableEq α] [DecidableEq β]

/-- Returns the first pair of different candidates with one value. -/
def firstCollision (state : α → Exec β) (cands : List α) : Exec (Option (α × α × β)) :=
  cands.findSomeM? fun x => do
    let s1 ← state x
    cands.findSomeM? fun y =>
      if x = y then pure none
      else do
        let s2 ← state y
        pure (if s1 = s2 then some (x, y, s1) else none)

/-- Returns whether there is such a pair. -/
def hasCollision (state : α → Exec β) (cands : List α) : Exec Bool := do
  let found ← cands.findSomeM? fun x => cands.findSomeM? fun y =>
    if x = y then pure none
    else do
      let s1 ← state x
      let s2 ← state y
      pure (if s1 = s2 then some true else none)
  pure (found.getD false)

/-- The search with a pair for its answer. -/
theorem firstCollision_returns {value : α → β} (h : ∀ x ∈ cands, state x = .ok (value x)) :
    Returns (firstCollision state cands) fun r =>
      (r = none ↔ ¬ Collides state cands) ∧
      ∀ x y s, r = some (x, y, s) →
        x ∈ cands ∧ y ∈ cands ∧ x ≠ y ∧ state x = .ok s ∧ state y = .ok s := by
  have hinner : ∀ x ∈ cands, (do
        let s1 ← state x
        cands.findSomeM? fun y =>
          if x = y then pure none
          else do
            let s2 ← state y
            pure (if s1 = s2 then some (x, y, s1) else none) : Exec (Option (α × α × β))) =
      .ok (cands.findSome? fun y =>
        if x ≠ y ∧ value x = value y then some (x, y, value x) else none) := by
    intro x hx
    rw [h x hx, ok_bind]
    refine findSomeM?_eq_ok fun y hy => ?_
    by_cases hxy : x = y
    · rw [if_pos hxy, if_neg fun hne => hne.1 hxy]
      rfl
    · rw [if_neg hxy, h y hy, ok_bind]
      simp only [ne_eq, hxy, not_false_eq_true, true_and]
      rfl
  rw [firstCollision, findSomeM?_eq_ok hinner, collides_iff h]
  refine ⟨_, rfl, ?_, fun x y s hsome => ?_⟩
  · simp only [List.findSome?_eq_none_iff, ite_eq_right_iff, reduceCtorEq, imp_false, not_exists,
      not_and]
  · obtain ⟨x', hx, hsome⟩ := List.exists_of_findSome?_eq_some hsome
    obtain ⟨y', hy, hsome⟩ := List.exists_of_findSome?_eq_some hsome
    rw [Option.ite_none_right_eq_some] at hsome
    obtain ⟨⟨hne, heq⟩, ⟨⟩⟩ := hsome
    exact ⟨hx, hy, hne, h x hx, heq ▸ h y hy⟩

/-- The search with a flag for its answer. -/
theorem hasCollision_returns {value : α → β} (h : ∀ x ∈ cands, state x = .ok (value x)) :
    Returns (hasCollision state cands) fun r => r = true ↔ Collides state cands := by
  have hinner : ∀ x ∈ cands, (cands.findSomeM? fun y =>
        if x = y then pure none
        else do
          let s1 ← state x
          let s2 ← state y
          pure (if s1 = s2 then some true else none) : Exec (Option Bool)) =
      .ok (cands.findSome? fun y => if x ≠ y ∧ value x = value y then some true else none) := by
    intro x hx
    refine findSomeM?_eq_ok fun y hy => ?_
    by_cases hxy : x = y
    · rw [if_pos hxy, if_neg fun hne => hne.1 hxy]
      rfl
    · rw [if_neg hxy, h x hx, ok_bind, h y hy, ok_bind]
      simp only [ne_eq, hxy, not_false_eq_true, true_and]
      rfl
  rw [hasCollision, findSomeM?_eq_ok hinner, ok_bind, collides_iff h]
  refine Returns.pure ?_
  generalize hfound : (cands.findSome? fun x => cands.findSome? fun y =>
    if x ≠ y ∧ value x = value y then some true else none) = found
  cases found with
  | none =>
    simp only [List.findSome?_eq_none_iff, ite_eq_right_iff, reduceCtorEq, imp_false] at hfound
    refine iff_of_false (by simp) ?_
    rintro ⟨x, hx, y, hy, hxy⟩
    exact hfound x hx y hy hxy
  | some b =>
    obtain ⟨x, hx, hsome⟩ := List.exists_of_findSome?_eq_some hfound
    obtain ⟨y, hy, hsome⟩ := List.exists_of_findSome?_eq_some hsome
    rw [Option.ite_none_right_eq_some, Option.some.injEq] at hsome
    obtain ⟨hxy, rfl⟩ := hsome
    exact iff_of_true rfl ⟨x, hx, y, hy, hxy⟩

end

/-- More candidates than values. -/
theorem exists_collision_of_lt_length {α : Type} {cands : List α} {value : α → ℕ} {m : ℕ}
    (hnodup : cands.Nodup) (hvalue : ∀ x ∈ cands, value x < m) (hm : m < cands.length) :
    ∃ x ∈ cands, ∃ y ∈ cands, x ≠ y ∧ value x = value y := by
  classical
  have hcard : (Finset.range m).card < cands.toFinset.card := by
    rwa [Finset.card_range, List.toFinset_card_of_nodup hnodup]
  obtain ⟨x, hx, y, hy, hne, heq⟩ := Finset.exists_ne_map_eq_of_card_lt_of_maps_to hcard
    (f := value) fun x hx => Finset.mem_range.mpr (hvalue x (List.mem_toFinset.mp hx))
  exact ⟨x, List.mem_toFinset.mp hx, y, List.mem_toFinset.mp hy, hne, heq⟩

end TimeFence.Common
