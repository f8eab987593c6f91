import TimeFence.Common.Edits
import TimeFence.Metrics.Localization

/-!
# The integrity tests of the metrics program

Model of the tests of `ksentry-metrics/src/main.rs` (lines 257–315): each changes a
log, digests it before and after, and reports whether the two states differ.

* `testSwapDetection_iff`: when exchanging the first and the last entry is seen.
* `insertion_deletion`: which values can be inserted unseen, and that deleting the
  inserted entry leads back.
* `testTruncationDetection_iff`: a truncation is seen exactly when the rest has a
  state other than zero at its place.
-/

namespace TimeFence.Metrics.Main

open TimeFence.Common TimeFence.Algebra

/-! ## Model -/

/-- Model of `detect_change` (lines 257–259). -/
def detectChange (original changed : U64) : Bool := original != changed

/-- `swapped.swap(0, j)` for the last index `j`. -/
def swapEnds (logs : List U64) : List U64 :=
  let j := logs.length - 1
  (logs.set 0 (logs.getD j 0)).set j (logs.getD 0 0)

/-- Model of `test_swap_detection` (lines 261–273). -/
def testSwapDetection (ks : KSentry) (logs : List U64) :
    Exec (Option (ℕ × ℕ × U64 × U64 × Bool × List U64)) :=
  if logs.length < 2 then pure none
  else do
    let before ← stateForLogs ks logs
    let swapped := swapEnds logs
    let after ← stateForLogs ks swapped
    pure (some (0, logs.length - 1, before, after, before != after, swapped))

/-- Model of `test_insertion_detection` (lines 275–289). -/
def testInsertionDetection (ks : KSentry) (logs : List U64) (value : U64) (pos : ℕ) :
    Exec (U64 × U64 × Bool × List U64) := do
  let original ← stateForLogs ks logs
  let idx := min pos logs.length
  let inserted := logs.insertIdx idx value
  let insertedState ← stateForLogs ks inserted
  pure (original, insertedState, original != insertedState, inserted)

/-- Model of `test_deletion_detection` (lines 291–303). -/
def testDeletionDetection (ks : KSentry) (logs : List U64) (pos : ℕ) :
    Exec (Option (U64 × U64 × Bool × List U64)) :=
  if logs.isEmpty then pure none
  else do
    let original ← stateForLogs ks logs
    let idx := min pos (logs.length - 1)
    let deleted := logs.eraseIdx idx
    let deletedState ← stateForLogs ks deleted
    pure (some (original, deletedState, original != deletedState, deleted))

/-- Model of `test_truncation_detection` (lines 305–315). -/
def testTruncationDetection (ks : KSentry) (logs : List U64) (keep : ℕ) :
    Exec (Option (U64 × U64 × Bool × List U64)) :=
  if logs.isEmpty ∨ logs.length ≤ keep then pure none
  else do
    let original ← stateForLogs ks logs
    let truncated := logs.take keep
    let truncState ← stateForLogs ks truncated
    pure (some (original, truncState, original != truncState, truncated))

/-! ## States -/

section

variable {ks : KSentry} {logs : List U64}

/-- The weights of the program. -/
def weightOf (ks : KSentry) : ℕ → ZMod ks.p.toNat := squareWeight (ks.q.toNat : ZMod ks.p.toNat)

theorem weightOf_ne_zero (hprime : ks.p.toNat.Prime) (hq : ks.q.toNat % ks.p.toNat ≠ 0) (i : ℕ) :
    weightOf ks i ≠ 0 := by
  have : Fact ks.p.toNat.Prime := ⟨hprime⟩
  exact pow_ne_zero _ (natCast_ne_zero_iff_mod.mpr hq)

/-- Two states, in front of the rest of the program. -/
theorem states_bind {α : Type} {Q : α → Prop} {changed : List U64} (hp : 1 < ks.p.toNat)
    (hlogs : logs.length ≤ 2 ^ 32) (hchanged : changed.length ≤ 2 ^ 32)
    {rest : U64 → U64 → Exec α}
    (hrest : ∀ a b, ((a != b) = false ↔
      sumAt (weightOf ks) 0 changed = sumAt (weightOf ks) 0 logs) → Returns (rest a b) Q) :
    Returns (do
      let a ← stateForLogs ks logs
      let b ← stateForLogs ks changed
      rest a b) Q := by
  refine (stateForLogs_rep hp hlogs).bind fun a ha => ?_
  refine (stateForLogs_rep hp hchanged).bind fun b hb => hrest a b ?_
  rw [bne_eq_false_iff_eq, ha.eq_iff hb]
  exact eq_comm

/-! ## The tests -/

theorem length_swapEnds (logs : List U64) : (swapEnds logs).length = logs.length := by
  simp [swapEnds]

theorem swapEnds_exchanged (h : 2 ≤ logs.length) :
    Exchanged logs (swapEnds logs) 0 (logs.length - 1) := by
  have h0 : 0 < logs.length := by omega
  have hj : logs.length - 1 < logs.length := by omega
  have hne : logs.length - 1 ≠ 0 := by omega
  refine ⟨(length_swapEnds logs).symm, ?_, ?_, ?_⟩
  · simp [swapEnds, List.getD_eq_getElem?_getD, h0, hne]
  · simp [swapEnds, List.getD_eq_getElem?_getD, hj]
  · intro k hk0 hkj
    simp [swapEnds, List.getD_eq_getElem?_getD, hk0.symm, hkj.symm]

/-- Exchanging the first and the last entry is seen exactly when their residues
    differ and `q^((n-1)²)` is not `1`. -/
theorem testSwapDetection_iff {q p : U64} (hprime : p.toNat.Prime) (hq : q.toNat % p.toNat ≠ 0)
    {logs : List U64} (h2 : 2 ≤ logs.length) (hn : logs.length ≤ 2 ^ 32) :
    ∃ ks, KSentry.new q p = .ok ks ∧
      Returns (testSwapDetection ks logs) fun r => ∃ before after detected,
        r = some (0, logs.length - 1, before, after, detected, swapEnds logs) ∧
        (detected = true ↔
          (logs.getD 0 0).toNat % p.toNat ≠ (logs.getD (logs.length - 1) 0).toNat % p.toNat ∧
          q.toNat ^ ((logs.length - 1) * (logs.length - 1)) % p.toNat ≠ 1) := by
  obtain ⟨ks, hks, rfl, rfl⟩ := KSentry.exists_new hprime.one_lt (pos_of_mod_ne_zero hq)
  refine ⟨ks, hks, ?_⟩
  have hends : weightOf ks 0 = weightOf ks (logs.length - 1) ↔
      ks.q.toNat ^ ((logs.length - 1) * (logs.length - 1)) % ks.p.toNat = 1 := by
    rw [← natCast_pow_eq_one_iff_mod hprime.one_lt, weightOf, squareWeight, squareWeight,
      Nat.mul_zero, pow_zero]
    exact eq_comm
  rw [testSwapDetection, if_neg (by omega)]
  refine states_bind hprime.one_lt hn (by rw [length_swapEnds]; exact hn) fun a b hab => ?_
  refine Returns.pure ⟨a, b, _, rfl, ?_⟩
  rw [← Bool.not_eq_false, hab, eq_comm, sumAt_exchanged_eq_iff (weightOf ks) hprime
    (swapEnds_exchanged h2) (by omega) (by omega) (by omega), hends, not_or]

/-- `[5, 6, 7]` over `p = 101`. -/
theorem testSwapDetection_iff_three :
    ∃ ks before after, KSentry.new 3#64 101#64 = .ok ks ∧
      testSwapDetection ks [5#64, 6#64, 7#64] =
        .ok (some (0, 2, before, after, true, [7#64, 6#64, 5#64])) := by
  have hprime : (101#64).toNat.Prime := by norm_num
  obtain ⟨ks, hks, r, hr, before, after, detected, rfl, hdetected⟩ :=
    testSwapDetection_iff (q := 3#64) hprime (by decide) (show 2 ≤ [5#64, 6#64, 7#64].length by decide)
      (by decide)
  obtain rfl := hdetected.mpr (by decide)
  exact ⟨ks, before, after, hks, hr⟩

/-- Insertion and deletion. At every position exactly one residue modulo `p` can be
    inserted unseen; and the deletion test on the changed log restores the log, with
    the same two states and the same answer. -/
theorem insertion_deletion {q p : U64} (hprime : p.toNat.Prime) (hq : q.toNat % p.toNat ≠ 0)
    {logs : List U64} (hn : logs.length < 2 ^ 32) (pos : ℕ) :
    ∃ ks r, KSentry.new q p = .ok ks ∧ r < p.toNat ∧ ∀ value,
      Returns (testInsertionDetection ks logs value pos) fun i => ∃ original insertedState detected,
        i = (original, insertedState, detected, logs.insertIdx (min pos logs.length) value) ∧
        (detected = false ↔ value.toNat % p.toNat = r) ∧
        testDeletionDetection ks (logs.insertIdx (min pos logs.length) value) pos =
          .ok (some (insertedState, original, detected, logs)) := by
  obtain ⟨ks, hks, rfl, rfl⟩ := KSentry.exists_new hprime.one_lt (pos_of_mod_ne_zero hq)
  have hpos : min pos logs.length ≤ logs.length := Nat.min_le_right _ _
  obtain ⟨r, hr, hunseen⟩ := exists_unseen_residue (weightOf ks) hprime
    (weightOf_ne_zero hprime hq (min pos logs.length)) hpos
  refine ⟨ks, r, hks, hr, fun value => ?_⟩
  have hlen := List.length_insertIdx_of_le_length hpos value
  have hback : (logs.insertIdx (min pos logs.length) value).eraseIdx
      (min pos ((logs.insertIdx (min pos logs.length) value).length - 1)) = logs := by
    rw [hlen, Nat.add_sub_cancel, List.eraseIdx_insertIdx_self]
  have hnonempty : ¬ (logs.insertIdx (min pos logs.length) value).isEmpty = true := by
    rw [List.isEmpty_iff]
    intro hnil
    rw [hnil] at hlen
    simp at hlen
  obtain ⟨a, ha, hrepa⟩ : Returns (stateForLogs ks logs) _ :=
    stateForLogs_rep hprime.one_lt (by omega)
  obtain ⟨b, hb, hrepb⟩ :
      Returns (stateForLogs ks (logs.insertIdx (min pos logs.length) value)) _ :=
    stateForLogs_rep hprime.one_lt (by omega)
  have hdetected : (a != b) = false ↔ value.toNat % ks.p.toNat = r := by
    rw [bne_eq_false_iff_eq, hrepa.eq_iff hrepb, eq_comm]
    exact hunseen value
  have hinsertion : testInsertionDetection ks logs value pos =
      .ok (a, b, a != b, logs.insertIdx (min pos logs.length) value) := by
    simp only [testInsertionDetection, ha, hb, ok_bind]
    rfl
  have hdeletion : testDeletionDetection ks (logs.insertIdx (min pos logs.length) value) pos =
      .ok (some (b, a, a != b, logs)) := by
    rw [testDeletionDetection, if_neg hnonempty]
    simp only [hback, hb, ha, ok_bind, bne_comm]
    rfl
  exact ⟨_, hinsertion, a, b, a != b, rfl, hdetected, hdeletion⟩

/-- Inserting into the middle of `[5, 6, 7]`. -/
theorem insertion_deletion_three :
    ∃ ks original insertedState detected, KSentry.new 3#64 101#64 = .ok ks ∧
      testInsertionDetection ks [5#64, 6#64, 7#64] 9#64 1 =
        .ok (original, insertedState, detected, [5#64, 9#64, 6#64, 7#64]) ∧
      testDeletionDetection ks [5#64, 9#64, 6#64, 7#64] 1 =
        .ok (some (insertedState, original, detected, [5#64, 6#64, 7#64])) := by
  have hprime : (101#64).toNat.Prime := by norm_num
  obtain ⟨ks, r, hks, -, h⟩ := insertion_deletion (q := 3#64) hprime (by decide)
    (show [5#64, 6#64, 7#64].length < 2 ^ 32 by decide) 1
  obtain ⟨i, hi, original, insertedState, detected, rfl, -, hdeletion⟩ := h 9#64
  exact ⟨ks, original, insertedState, detected, hks, hi, hdeletion⟩

/-- A truncation is seen exactly when the state of the rest, at its place in the log,
    is not zero; for any modulus. -/
theorem testTruncationDetection_iff {q p : U64} (hq : 1 ≤ q.toNat) (hp : 1 < p.toNat)
    {logs : List U64} {keep : ℕ} (hkeep : keep < logs.length) (hn : logs.length ≤ 2 ^ 32) :
    ∃ ks, KSentry.new q p = .ok ks ∧
      Returns (testTruncationDetection ks logs keep) fun r => ∃ original truncState detected,
        r = some (original, truncState, detected, logs.take keep) ∧
        (detected = true ↔ shiftedStateForLogs ks (logs.drop keep) keep ≠ .ok 0#64) := by
  obtain ⟨ks, hks, rfl, rfl⟩ := KSentry.exists_new hp hq
  refine ⟨ks, hks, ?_⟩
  have hrest : keep + (logs.drop keep).length ≤ 2 ^ 32 := by
    rw [List.length_drop]
    omega
  have hnonempty : ¬ (logs.isEmpty = true ∨ logs.length ≤ keep) := by
    rw [List.isEmpty_iff, not_or]
    refine ⟨?_, by omega⟩
    rintro rfl
    simp at hkeep
  obtain ⟨s, hs, hreps⟩ : Returns (shiftedStateForLogs ks (logs.drop keep) keep) _ :=
    shiftedStateForLogs_rep hp hrest
  have hzero : shiftedStateForLogs ks (logs.drop keep) keep = .ok 0#64 ↔
      sumAt (weightOf ks) keep (logs.drop keep) = 0 := by
    rw [hs, Except.ok.injEq, hreps.eq_iff (rep_zero (by omega))]
    rfl
  rw [testTruncationDetection, if_neg hnonempty]
  refine states_bind hp hn (by rw [List.length_take]; omega) fun a b hab => ?_
  refine Returns.pure ⟨a, b, _, rfl, ?_⟩
  rw [← Bool.not_eq_false, hab, sumAt_take_eq_iff (weightOf ks) hkeep.le, Ne, hzero]

/-- The rest `[101]` of `[5, 101]` has the state zero over `p = 101`, so cutting it off
    is not detected. -/
theorem testTruncationDetection_iff_zero :
    ∃ ks original truncState, KSentry.new 3#64 101#64 = .ok ks ∧
      testTruncationDetection ks [5#64, 101#64] 1 =
        .ok (some (original, truncState, false, [5#64])) := by
  obtain ⟨ks, hks, r, hr, original, truncState, detected, rfl, hdetected⟩ :=
    testTruncationDetection_iff (q := 3#64) (p := 101#64) (by decide) (by decide)
      (show 1 < [5#64, 101#64].length by decide) (by decide)
  have hnew : KSentry.new 3#64 101#64 = .ok ⟨0#64, 3#64, 101#64⟩ := by decide
  obtain rfl : ks = ⟨0#64, 3#64, 101#64⟩ := Except.ok.inj (hks.symm.trans hnew)
  have hzero : shiftedStateForLogs ⟨0#64, 3#64, 101#64⟩ [101#64] 1 = .ok 0#64 := by decide +kernel
  have hunseen : detected = false := by
    rw [← Bool.not_eq_true, hdetected]
    exact not_not.mpr hzero
  rw [hunseen] at hr
  exact ⟨_, original, truncState, hks, hr⟩

end

end TimeFence.Metrics.Main
