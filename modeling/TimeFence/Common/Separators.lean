import Mathlib

/-!
# Texts joined by separators

A record printed field by field can be read back when its separators can be
found again. The first separator is found when it does not occur in the field
before it (`append_cons_inj_left`), the last one when it does not occur in the
field after it (`append_cons_inj_right`).

A separator word in the middle, between two fields without any restriction,
cannot be found again in general. `append_word_append_eq_iff` says exactly which
pairs of fields are confused, for a word whose first letter does not recur in
it: the word occurs in one of the left fields, and the text is cut there instead.

A word that ends in a separator is found in a text behind its first separator or
right in front of it (`concat_infix_append_cons_iff`).

Numbers are printed in decimal, so no separator occurs in them (`notMem_repr`) and
different numbers have different texts (`toList_repr_toNat_inj`).
-/

namespace TimeFence.Common

variable {α : Type*}

theorem append_cons_inj_left {a : α} {x x' z z' : List α} (hx : a ∉ x) (hx' : a ∉ x') :
    x ++ a :: z = x' ++ a :: z' ↔ x = x' ∧ z = z' := by
  constructor
  · intro h
    rcases List.append_eq_append_iff.mp h with ⟨r, hr, hz⟩ | ⟨r, hr, hz⟩
    · cases r with
      | nil => simp_all
      | cons b r =>
        rw [List.cons_append, List.cons.injEq] at hz
        simp [hr, hz.1] at hx'
    · cases r with
      | nil => simp_all
      | cons b r =>
        rw [List.cons_append, List.cons.injEq] at hz
        simp [hr, hz.1] at hx
  · rintro ⟨rfl, rfl⟩
    rfl

theorem append_cons_inj_right {a : α} {x x' z z' : List α} (hz : a ∉ z) (hz' : a ∉ z') :
    x ++ a :: z = x' ++ a :: z' ↔ x = x' ∧ z = z' := by
  -- The first occurrence in the reversed text.
  have h : z.reverse ++ a :: x.reverse = z'.reverse ++ a :: x'.reverse ↔ _ :=
    append_cons_inj_left (List.mem_reverse.not.mpr hz) (List.mem_reverse.not.mpr hz')
  rw [← List.reverse_inj]
  simpa [and_comm] using h

/-- A word with the letter `a` at its head only, and two cuts of one text at it,
    the first of them at or before the second: either it is the same cut, or the
    whole word of the first cut lies inside the left part of the second. -/
theorem append_word_append_eq {a : α} {w r t t' : List α} (ha : a ∉ w)
    (h : a :: w ++ t = r ++ (a :: w ++ t')) :
    (r = [] ∧ t = t') ∨ ∃ m, r = a :: w ++ m ∧ t = m ++ (a :: w ++ t') := by
  rcases List.append_eq_append_iff.mp h with ⟨m, hr, ht⟩ | ⟨s, hw, ht⟩
  · exact .inr ⟨m, hr, ht⟩
  · -- Here `r` is a prefix of the word, so the second word starts inside the first.
    cases r with
    | nil =>
      rw [List.nil_append] at hw
      subst hw
      exact .inl ⟨rfl, (List.append_cancel_left ht).symm⟩
    | cons b r =>
      rw [List.cons_append, List.cons.injEq] at hw
      obtain ⟨rfl, rfl⟩ := hw
      cases s with
      | nil => exact .inr ⟨[], by simp, by simpa using ht.symm⟩
      | cons c s =>
        rw [List.cons_append, List.cons_append, List.cons.injEq] at ht
        simp [ht.1] at ha

/-- Which pairs of fields give the same text when they are joined by the word
    `a :: w`. -/
theorem append_word_append_eq_iff {a : α} {w x x' t t' : List α} (ha : a ∉ w) :
    x ++ (a :: w ++ t) = x' ++ (a :: w ++ t') ↔
      (x = x' ∧ t = t') ∨
      (∃ m, x' = x ++ (a :: w ++ m) ∧ t = m ++ (a :: w ++ t')) ∨
      (∃ m, x = x' ++ (a :: w ++ m) ∧ t' = m ++ (a :: w ++ t)) := by
  constructor
  · intro h
    rcases List.append_eq_append_iff.mp h with ⟨r, rfl, hr⟩ | ⟨r, rfl, hr⟩
    · rcases append_word_append_eq ha hr with ⟨rfl, rfl⟩ | ⟨m, rfl, rfl⟩
      · exact .inl ⟨(List.append_nil x).symm, rfl⟩
      · exact .inr (.inl ⟨m, rfl, rfl⟩)
    · rcases append_word_append_eq ha hr with ⟨rfl, rfl⟩ | ⟨m, rfl, rfl⟩
      · exact .inl ⟨List.append_nil x', rfl⟩
      · exact .inr (.inr ⟨m, rfl, rfl⟩)
  · rintro (⟨rfl, rfl⟩ | ⟨m, rfl, rfl⟩ | ⟨m, rfl, rfl⟩) <;> simp

/-- Where a word that ends in the separator `a` can occur in a text whose first
    separator stands behind `head`. -/
theorem concat_infix_append_cons_iff {a : α} {u head rest : List α} (hu : a ∉ u)
    (hhead : a ∉ head) :
    u ++ [a] <:+: head ++ a :: rest ↔ u <:+ head ∨ u ++ [a] <:+: rest := by
  constructor
  · rintro ⟨s, t, hst⟩
    by_cases hs : a ∈ s
    · -- The word starts behind the first separator.
      obtain ⟨s₁, s₂, rfl, hs₁⟩ := List.eq_append_cons_of_mem hs
      have hcut : s₁ ++ a :: (s₂ ++ (u ++ [a]) ++ t) = head ++ a :: rest := by
        rw [← hst]
        simp
      obtain ⟨-, hrest⟩ := (append_cons_inj_left hs₁ hhead).mp hcut
      exact .inr ⟨s₂, t, hrest⟩
    · have hsu : a ∉ s ++ u := by simp [hs, hu]
      have hcut : (s ++ u) ++ a :: t = head ++ a :: rest := by
        rw [← hst]
        simp
      obtain ⟨hword, -⟩ := (append_cons_inj_left hsu hhead).mp hcut
      exact .inl ⟨s, hword⟩
  · rintro (⟨s, rfl⟩ | ⟨s, t, rfl⟩)
    · exact ⟨s, rest, by simp⟩
    · exact ⟨head ++ a :: s, t, by simp⟩

/-! ## Numbers -/

theorem isDigit_of_mem_repr {c : Char} {n : ℕ} (h : c ∈ n.repr.toList) : c.isDigit = true := by
  rw [Nat.toList_repr] at h
  exact Nat.isDigit_of_mem_toDigits (by norm_num) (by norm_num) h

theorem notMem_repr {c : Char} (hc : c.isDigit = false) (n : ℕ) : c ∉ n.repr.toList := by
  intro h
  rw [isDigit_of_mem_repr h] at hc
  cases hc

theorem toList_repr_toNat_inj {w : ℕ} {a b : BitVec w} :
    a.toNat.repr.toList = b.toNat.repr.toList ↔ a = b := by
  rw [String.toList_inj, Nat.repr_inj, BitVec.toNat_inj]

end TimeFence.Common
