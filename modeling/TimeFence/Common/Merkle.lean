import Mathlib.Data.List.Basic

/-!
# Folding a list up to one node

The levels of a Merkle tree whose last node is carried over when a level has an odd
length. `merkleLoop` repeats `merkleLevel` while there is more than one node.

* `length_merkleLoop`: one node is left.
* `merkleLoop_binding`: among lists of one length the node determines the list,
  unless the two loops join different pairs with one parent.
* `merkleLoop_eq_parent`: the node of two leaves or more is a parent.
-/

namespace TimeFence.Common

section

variable {H : Type*} (parent : H → H → H)

/-- The next level: neighbours are joined, and a node without one is carried over. -/
def merkleLevel : List H → List H
  | [] => []
  | [x] => [x]
  | l :: r :: rest => parent l r :: merkleLevel rest

/-- The levels up to the root, at most `fuel` of them. -/
def merkleLoop : ℕ → List H → List H
  | 0, leaves => leaves
  | fuel + 1, leaves =>
    if 1 < leaves.length then merkleLoop fuel (merkleLevel parent leaves) else leaves

/-- The pairs that a level joins. -/
def levelPairs : List H → List (H × H)
  | [] => []
  | [_] => []
  | l :: r :: rest => (l, r) :: levelPairs rest

/-- The pairs that the loop joins, from the leaves up. -/
def loopPairs : ℕ → List H → List (H × H)
  | 0, _ => []
  | fuel + 1, leaves =>
    if 1 < leaves.length then levelPairs leaves ++ loopPairs fuel (merkleLevel parent leaves)
    else []

/-- Two different pairs with one parent, one of each list. -/
def Clash (us vs : List (H × H)) : Prop :=
  ∃ u ∈ us, ∃ v ∈ vs, u ≠ v ∧ parent u.1 u.2 = parent v.1 v.2

variable {parent} {xs ys : List H} {fuel : ℕ}

theorem length_merkleLevel (parent : H → H → H) (xs : List H) :
    (merkleLevel parent xs).length = (xs.length + 1) / 2 := by
  induction xs using merkleLevel.induct with
  | case1 => simp [merkleLevel]
  | case2 x => simp [merkleLevel]
  | case3 l r rest ih =>
    rw [merkleLevel, List.length_cons, ih, List.length_cons, List.length_cons]
    omega

/-- A loop with enough fuel ends with one node. -/
theorem length_merkleLoop (hxs : xs ≠ []) (hfuel : xs.length ≤ fuel + 1) :
    (merkleLoop parent fuel xs).length = 1 := by
  have hpos : 0 < xs.length := List.length_pos_iff.mpr hxs
  induction fuel generalizing xs with
  | zero =>
    rw [merkleLoop]
    omega
  | succ fuel ih =>
    rw [merkleLoop]
    by_cases hlen : 1 < xs.length
    · have hlevel := length_merkleLevel parent xs
      rw [if_pos hlen]
      exact ih (by rw [← List.length_pos_iff]; omega) (by omega) (by omega)
    · rw [if_neg hlen]
      omega

/-! ## Binding -/

theorem Clash.mono {us vs us' vs' : List (H × H)} (h : Clash parent us vs) (hu : us ⊆ us')
    (hv : vs ⊆ vs') : Clash parent us' vs' := by
  obtain ⟨u, hmu, v, hmv, huv⟩ := h
  exact ⟨u, hu hmu, v, hv hmv, huv⟩

/-- Levels of equally many nodes. -/
theorem merkleLevel_binding (hlen : xs.length = ys.length)
    (h : merkleLevel parent xs = merkleLevel parent ys) :
    xs = ys ∨ Clash parent (levelPairs xs) (levelPairs ys) := by
  induction xs using merkleLevel.induct generalizing ys with
  | case1 =>
    match ys, hlen with
    | [], _ => exact Or.inl rfl
  | case2 x =>
    match ys, hlen with
    | [y], _ => exact Or.inl h
  | case3 l r rest ih =>
    match ys, hlen with
    | l' :: r' :: rest', hlen =>
      rw [merkleLevel, merkleLevel, List.cons.injEq] at h
      rw [levelPairs, levelPairs]
      by_cases hpair : (l, r) = (l', r')
      · cases hpair
        rcases ih (by simpa using hlen) h.2 with hrest | hclash
        · exact Or.inl (by rw [hrest])
        · exact Or.inr (hclash.mono (List.subset_cons_self _ _) (List.subset_cons_self _ _))
      · exact Or.inr ⟨(l, r), List.mem_cons_self, (l', r'), List.mem_cons_self, hpair, h.1⟩

theorem merkleLoop_binding (hlen : xs.length = ys.length)
    (h : merkleLoop parent fuel xs = merkleLoop parent fuel ys) :
    xs = ys ∨ Clash parent (loopPairs parent fuel xs) (loopPairs parent fuel ys) := by
  induction fuel generalizing xs ys with
  | zero => exact Or.inl h
  | succ fuel ih =>
    rw [merkleLoop, merkleLoop, ← hlen] at h
    rw [loopPairs, loopPairs, ← hlen]
    by_cases hone : 1 < xs.length
    · rw [if_pos hone, if_pos hone] at h
      rw [if_pos hone, if_pos hone]
      have hlevels : (merkleLevel parent xs).length = (merkleLevel parent ys).length := by
        rw [length_merkleLevel, length_merkleLevel, hlen]
      rcases ih hlevels h with hlevel | hclash
      · exact (merkleLevel_binding hlen hlevel).imp_right fun hclash =>
          hclash.mono (List.subset_append_left _ _) (List.subset_append_left _ _)
      · exact Or.inr (hclash.mono (List.subset_append_right _ _) (List.subset_append_right _ _))
    · rw [if_neg hone, if_neg hone] at h
      exact Or.inl h

/-! ## The last step -/

/-- The root of more than one leaf is the parent of two nodes. -/
theorem merkleLoop_eq_parent (hxs : 1 < xs.length) (hfuel : xs.length ≤ fuel + 1) :
    ∃ l r, merkleLoop parent fuel xs = [parent l r] := by
  induction fuel generalizing xs with
  | zero => omega
  | succ fuel ih =>
    rw [merkleLoop, if_pos hxs]
    match xs, hxs with
    | [l, r], _ =>
      refine ⟨l, r, ?_⟩
      cases fuel <;> rfl
    | l :: r :: x :: rest, _ =>
      have hlevel := length_merkleLevel parent (l :: r :: x :: rest)
      simp only [List.length_cons] at hlevel hfuel
      exact ih (by omega) (by omega)

end

end TimeFence.Common
