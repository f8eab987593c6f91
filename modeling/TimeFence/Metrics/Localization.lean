import TimeFence.Common.Difference
import TimeFence.Common.Scan
import TimeFence.Metrics.Main

/-!
# Where two logs differ

Model of the comparison functions of `ksentry-metrics/src/main.rs` (lines
137–237). They scan two logs of one length forwards, backwards and for all
mismatches, compare the prefix states, and compute the states of the smallest
window that holds all mismatches.

* `localizeWindow_tight`: the window runs from the first to the last mismatch,
  all functions agree on its ends, and the two logs have different states
  exactly when the states of the shifted windows differ.
* `prefixDivergence_first`: over a prime field with an invertible base the first
  diverging prefix ends at the first entry with a different residue.
-/

namespace TimeFence.Metrics.Main

open TimeFence.Common TimeFence.Algebra

/-! ## Model -/

/-- `struct MismatchInfo` (lines 17–24). -/
structure MismatchInfo where
  mismatchExists : Bool
  firstIndex : Option ℕ
  lastIndex : Option ℕ
  mismatchCount : ℕ
  mismatchIndices : List ℕ
  deriving DecidableEq, Repr

/-- `struct WindowLocalization` (lines 26–35). -/
structure WindowLocalization where
  mismatchExists : Bool
  start : Option ℕ
  end_ : Option ℕ
  originalWindowState : Option U64
  changedWindowState : Option U64
  shiftedOriginalWindowState : Option U64
  shiftedChangedWindowState : Option U64
  deriving DecidableEq, Repr

/-- `struct PrefixDivergence` (lines 37–43). -/
structure PrefixDivergence where
  divergenceExists : Bool
  firstPrefixIndex : Option ℕ
  originalPrefixState : Option U64
  changedPrefixState : Option U64
  deriving DecidableEq, Repr

/-- Model of `first_mismatch` (lines 137–145). -/
def firstMismatch (logs1 logs2 : List U64) : Exec (Option (ℕ × U64 × U64)) := do
  assertThat (logs1.length = logs2.length) "length mismatch"
  (List.range logs1.length).findSomeM? fun i => do
    let a ← index logs1 i
    let b ← index logs2 i
    pure (if a ≠ b then some (i, a, b) else none)

/-- Model of `all_mismatch_indices` (lines 147–156). -/
def allMismatchIndices (logs1 logs2 : List U64) : Exec (List ℕ) := do
  assertThat (logs1.length = logs2.length) "length mismatch"
  (List.range logs1.length).foldlM (fun out i => do
    let a ← index logs1 i
    let b ← index logs2 i
    pure (if a ≠ b then out ++ [i] else out)) []

/-- Model of `mismatch_info` (lines 158–170). -/
def mismatchInfo (logs1 logs2 : List U64) : Exec MismatchInfo := do
  assertThat (logs1.length = logs2.length) "length mismatch"
  let mismatchIndices ← allMismatchIndices logs1 logs2
  let mismatchExists := !mismatchIndices.isEmpty
  pure { mismatchExists, firstIndex := mismatchIndices.head?, lastIndex := mismatchIndices.getLast?,
         mismatchCount := mismatchIndices.length, mismatchIndices }

/-- Model of `mismatch_window` (lines 172–183). The loop leaves `last` alone
    where it finds nothing. -/
def mismatchWindow (logs1 logs2 : List U64) : Exec (Option (ℕ × ℕ)) := do
  assertThat (logs1.length = logs2.length) "length mismatch"
  match ← firstMismatch logs1 logs2 with
  | none => pure none
  | some (first, _, _) =>
    let last ← (List.range' first (logs1.length - first)).reverse.findSomeM? fun i => do
      let a ← index logs1 i
      let b ← index logs2 i
      pure (if a ≠ b then some i else none)
    pure (some (first, last.getD first))

/-- Model of `prefix_divergence` (lines 185–208). -/
def prefixDivergence (self : KSentry) (logs1 logs2 : List U64) : Exec PrefixDivergence := do
  assertThat (logs1.length = logs2.length) "length mismatch"
  let p1 ← prefixStates self logs1
  let p2 ← prefixStates self logs2
  let found ← (List.range p1.length).findSomeM? fun i => do
    let a ← index p1 i
    let b ← index p2 i
    pure (if a ≠ b then some (i, a, b) else none)
  match found with
  | some (i, a, b) =>
    pure { divergenceExists := true, firstPrefixIndex := some i, originalPrefixState := some a,
           changedPrefixState := some b }
  | none =>
    pure { divergenceExists := false, firstPrefixIndex := none, originalPrefixState := none,
           changedPrefixState := none }

/-- `&logs[start..=end]`. -/
def sliceInclusive (logs : List U64) (start end_ : ℕ) : Exec (List U64) :=
  if start ≤ end_ + 1 ∧ end_ < logs.length then .ok ((logs.take (end_ + 1)).drop start)
  else .error .indexOutOfBounds

/-- Model of `localize_window` (lines 210–237). -/
def localizeWindow (self : KSentry) (logs1 logs2 : List U64) : Exec WindowLocalization := do
  assertThat (logs1.length = logs2.length) "length mismatch"
  match ← mismatchWindow logs1 logs2 with
  | none =>
    pure { mismatchExists := false, start := none, end_ := none, originalWindowState := none,
           changedWindowState := none, shiftedOriginalWindowState := none,
           shiftedChangedWindowState := none }
  | some (start, end_) =>
    let originalWindow ← sliceInclusive logs1 start end_
    let changedWindow ← sliceInclusive logs2 start end_
    let originalWindowState ← stateForLogs self originalWindow
    let changedWindowState ← stateForLogs self changedWindow
    let shiftedOriginalWindowState ← shiftedStateForLogs self originalWindow start
    let shiftedChangedWindowState ← shiftedStateForLogs self changedWindow start
    pure { mismatchExists := true, start := some start, end_ := some end_,
           originalWindowState := some originalWindowState,
           changedWindowState := some changedWindowState,
           shiftedOriginalWindowState := some shiftedOriginalWindowState,
           shiftedChangedWindowState := some shiftedChangedWindowState }

/-! ## Mismatches -/

section

variable {l1 l2 : List U64}

/-- The logs differ at position `i`. -/
def Mismatch (l1 l2 : List U64) (i : ℕ) : Prop := l1.getD i 0 ≠ l2.getD i 0

instance (l1 l2 : List U64) : DecidablePred (Mismatch l1 l2) := fun _ =>
  inferInstanceAs (Decidable (_ ≠ _))

/-- The body of the scanning loops: nothing panics at a position of both logs. -/
theorem index_pair {α : Type} {i : ℕ} (hi : i < min l1.length l2.length) (f : U64 → U64 → Exec α) :
    (do
      let a ← index l1 i
      let b ← index l2 i
      f a b) = f (l1.getD i 0) (l2.getD i 0) := by
  have h1 : i < l1.length := by omega
  have h2 : i < l2.length := by omega
  rw [index_of_lt h1, index_of_lt h2, ok_bind, ok_bind, List.getD_eq_getElem _ _ h1,
    List.getD_eq_getElem _ _ h2]

theorem eq_iff_forall_not_mismatch (hlen : l1.length = l2.length) :
    l1 = l2 ↔ ∀ i < l1.length, ¬ Mismatch l1 l2 i := by
  constructor
  · rintro rfl i _
    exact not_not.mpr rfl
  · intro h
    refine List.ext_getElem hlen fun i hi hi' => ?_
    have hmis := h i hi
    rwa [Mismatch, not_not, List.getD_eq_getElem _ _ hi, List.getD_eq_getElem _ _ hi'] at hmis

/-- A scan over some of the common positions. -/
theorem scan_eq_ok {ρ : Type} {is : List ℕ} (his : ∀ i ∈ is, i < min l1.length l2.length) (value : ℕ → U64 → U64 → ρ) :
    (is.findSomeM? fun i => do
        let a ← index l1 i
        let b ← index l2 i
        pure (if a ≠ b then some (value i a b) else none)) =
      .ok ((is.find? fun i => decide (Mismatch l1 l2 i)).map fun i =>
        value i (l1.getD i 0) (l2.getD i 0)) := by
  have hbody : ∀ i ∈ is, (do
        let a ← index l1 i
        let b ← index l2 i
        pure (if a ≠ b then some (value i a b) else none) : Exec (Option ρ)) =
      .ok (if Mismatch l1 l2 i then some (value i (l1.getD i 0) (l2.getD i 0)) else none) := by
    intro i hi
    rw [index_pair (his i hi)]
    rfl
  rw [findSomeM?_eq_ok hbody, findSome?_ite]

/-- The loop that collects the mismatches at some of the common positions. -/
theorem collect_eq_ok {is : List ℕ} (his : ∀ i ∈ is, i < min l1.length l2.length) :
    (is.foldlM (fun out i => do
        let a ← index l1 i
        let b ← index l2 i
        pure (if a ≠ b then out ++ [i] else out)) [] : Exec (List ℕ)) =
      .ok (is.filter fun i => decide (Mismatch l1 l2 i)) := by
  refine foldlM_collect_eq_ok (fun out i hi => ?_) []
  rw [index_pair (his i hi)]
  rfl

theorem lt_min_of_mem_range (hlen : l1.length = l2.length) :
    ∀ i ∈ List.range l1.length, i < min l1.length l2.length := by
  intro i hi
  rw [← hlen, Nat.min_self]
  exact List.mem_range.mp hi

theorem firstMismatch_eq (hlen : l1.length = l2.length) :
    firstMismatch l1 l2 =
      .ok (((List.range l1.length).find? fun i => decide (Mismatch l1 l2 i)).map fun i =>
        (i, l1.getD i 0, l2.getD i 0)) := by
  rw [firstMismatch, assertThat_of hlen, ok_bind]
  exact scan_eq_ok (lt_min_of_mem_range hlen) fun i a b => (i, a, b)

theorem allMismatchIndices_eq (hlen : l1.length = l2.length) :
    allMismatchIndices l1 l2 =
      .ok ((List.range l1.length).filter fun i => decide (Mismatch l1 l2 i)) := by
  rw [allMismatchIndices, assertThat_of hlen, ok_bind]
  exact collect_eq_ok (lt_min_of_mem_range hlen)

/-! ## The ends of the mismatches -/

theorem find?_mismatch_eq_none (h : l1 = l2) (is : List ℕ) :
    (is.find? fun i => decide (Mismatch l1 l2 i)) = none := by
  subst h
  simp [Mismatch]

theorem firstMismatch_of_eq (h : l1 = l2) : firstMismatch l1 l2 = .ok none := by
  rw [firstMismatch_eq (by rw [h]), find?_mismatch_eq_none h]
  rfl

theorem firstMismatch_of_isFirst (hlen : l1.length = l2.length) {i : ℕ}
    (hi : IsFirst (Mismatch l1 l2) l1.length i) :
    firstMismatch l1 l2 = .ok (some (i, l1.getD i 0, l2.getD i 0)) := by
  rw [firstMismatch_eq hlen, hi.find?_eq]
  rfl

theorem mismatchWindow_of_eq (h : l1 = l2) : mismatchWindow l1 l2 = .ok none := by
  rw [mismatchWindow, assertThat_of (by rw [h]), ok_bind, firstMismatch_of_eq h]
  rfl

/-- The backward scan stops at the last mismatch: it does not pass the first one. -/
theorem mismatchWindow_of_ends (hlen : l1.length = l2.length) {s e : ℕ}
    (hs : IsFirst (Mismatch l1 l2) l1.length s) (he : IsLast (Mismatch l1 l2) l1.length e) :
    mismatchWindow l1 l2 = .ok (some (s, e)) := by
  have his : ∀ i ∈ (List.range' s (l1.length - s)).reverse, i < min l1.length l2.length := by
    intro i hi
    rw [List.mem_reverse, List.mem_range'_1] at hi
    omega
  have hscan := scan_eq_ok his fun i _ _ => i
  rw [he.find?_reverse_eq (hs.le he)] at hscan
  rw [mismatchWindow, assertThat_of hlen, ok_bind, firstMismatch_of_isFirst hlen hs, ok_bind]
  show (do
    let last ← (List.range' s (l1.length - s)).reverse.findSomeM? fun i => do
      let a ← index l1 i
      let b ← index l2 i
      pure (if a ≠ b then some i else none)
    pure (some (s, last.getD s))) = (Except.ok (some (s, e)) : Exec _)
  rw [hscan]
  rfl

/-- What the collected indices say. -/
theorem mismatchInfo_returns (hlen : l1.length = l2.length) :
    Returns (mismatchInfo l1 l2) fun info =>
      info.mismatchIndices = ((List.range l1.length).filter fun i => decide (Mismatch l1 l2 i)) ∧
      info.firstIndex = info.mismatchIndices.head? ∧
      info.lastIndex = info.mismatchIndices.getLast? ∧
      info.mismatchCount = info.mismatchIndices.length ∧
      (info.mismatchExists = false ↔ l1 = l2) := by
  rw [mismatchInfo, assertThat_of hlen, ok_bind, allMismatchIndices_eq hlen, ok_bind]
  refine Returns.pure ⟨rfl, rfl, rfl, rfl, ?_⟩
  rw [eq_iff_forall_not_mismatch hlen]
  simp [List.filter_eq_nil_iff]

theorem exists_ends (hlen : l1.length = l2.length) (hne : l1 ≠ l2) :
    ∃ s e, IsFirst (Mismatch l1 l2) l1.length s ∧ IsLast (Mismatch l1 l2) l1.length e := by
  have hex : ∃ i < l1.length, Mismatch l1 l2 i := by
    by_contra h
    push Not at h
    exact hne ((eq_iff_forall_not_mismatch hlen).mpr h)
  obtain ⟨s, hs⟩ := exists_isFirst hex
  obtain ⟨e, he⟩ := exists_isLast hex
  exact ⟨s, e, hs, he⟩

/-! ## The window -/

/-- The entries from `s` to `e`. -/
def windowOf (l : List U64) (s e : ℕ) : List U64 := (l.take (e + 1)).drop s

theorem sliceInclusive_eq {l : List U64} {s e : ℕ} (hse : s ≤ e) (he : e < l.length) :
    sliceInclusive l s e = .ok (windowOf l s e) := if_pos ⟨by omega, he⟩

theorem length_windowOf {l : List U64} {s e : ℕ} (he : e < l.length) :
    (windowOf l s e).length = e + 1 - s := by
  rw [windowOf, List.length_drop, List.length_take]
  omega

theorem sumFrom_window (ks : KSentry) {l : List U64} {s e : ℕ} (hse : s ≤ e) (he : e < l.length) :
    sumFrom ks 0 l = sumFrom ks 0 (l.take s) + sumFrom ks s (windowOf l s e) +
      sumFrom ks (e + 1) (l.drop (e + 1)) := by
  have hpre : (l.take (e + 1)).take s = l.take s := by
    rw [List.take_take, min_eq_left (by omega)]
  have hlen : (l.take s).length = s := by rw [List.length_take]; omega
  have hlen' : (l.take (e + 1)).length = e + 1 := by rw [List.length_take]; omega
  have houter := sumFrom_append ks 0 (l.take (e + 1)) (l.drop (e + 1))
  have hinner := sumFrom_append ks 0 ((l.take (e + 1)).take s) ((l.take (e + 1)).drop s)
  rw [List.take_append_drop, hlen', zero_add] at houter
  rw [List.take_append_drop, hpre, hlen, zero_add] at hinner
  rw [houter, hinner]
  rfl

theorem getElem?_eq_of_not_mismatch (hlen : l1.length = l2.length) {i : ℕ}
    (h : ¬ Mismatch l1 l2 i) : l1[i]? = l2[i]? := by
  rw [Mismatch, not_not] at h
  by_cases hi : i < l1.length
  · have hi' : i < l2.length := by omega
    rw [List.getD_eq_getElem _ _ hi, List.getD_eq_getElem _ _ hi'] at h
    rw [List.getElem?_eq_getElem hi, List.getElem?_eq_getElem hi', h]
  · rw [List.getElem?_eq_none (by omega), List.getElem?_eq_none (by omega)]

/-- Outside of the window the logs are equal, so their sums differ by what the
    windows contribute. -/
theorem sumFrom_sub_window (ks : KSentry) (hlen : l1.length = l2.length) {s e : ℕ}
    (hs : IsFirst (Mismatch l1 l2) l1.length s) (he : IsLast (Mismatch l1 l2) l1.length e) :
    sumFrom ks 0 l1 - sumFrom ks 0 l2 =
      sumFrom ks s (windowOf l1 s e) - sumFrom ks s (windowOf l2 s e) := by
  have helt : e < l1.length := he.lt
  have helt' : e < l2.length := by omega
  have hpre : l1.take s = l2.take s := by
    apply List.ext_getElem?
    intro i
    rw [List.getElem?_take, List.getElem?_take]
    split_ifs with hi
    · exact getElem?_eq_of_not_mismatch hlen (hs.before i hi)
    · rfl
  have hpost : l1.drop (e + 1) = l2.drop (e + 1) := by
    apply List.ext_getElem?
    intro i
    rw [List.getElem?_drop, List.getElem?_drop]
    by_cases hi : e + 1 + i < l1.length
    · exact getElem?_eq_of_not_mismatch hlen (he.after _ (by omega) hi)
    · rw [List.getElem?_eq_none (by omega), List.getElem?_eq_none (by omega)]
  rw [sumFrom_window ks (hs.le he) helt, sumFrom_window ks (hs.le he) helt', hpre, hpost]
  ring

theorem localizeWindow_of_eq (ks : KSentry) (h : l1 = l2) :
    Returns (localizeWindow ks l1 l2) fun w =>
      w.mismatchExists = false ∧ w.start = none ∧ w.end_ = none := by
  rw [localizeWindow, assertThat_of (by rw [h]), ok_bind, mismatchWindow_of_eq h]
  exact Returns.pure ⟨rfl, rfl, rfl⟩

theorem localizeWindow_of_ends {ks : KSentry} (hp : 1 < ks.p.toNat) (hlen : l1.length = l2.length)
    (hn : l1.length ≤ 2 ^ 32) {s e : ℕ} (hs : IsFirst (Mismatch l1 l2) l1.length s)
    (he : IsLast (Mismatch l1 l2) l1.length e) :
    Returns (localizeWindow ks l1 l2) fun w =>
      w.mismatchExists = true ∧ w.start = some s ∧ w.end_ = some e ∧
      ∃ s1 s2, w.shiftedOriginalWindowState = some s1 ∧ w.shiftedChangedWindowState = some s2 ∧
        shiftedStateForLogs ks (windowOf l1 s e) s = .ok s1 ∧
        shiftedStateForLogs ks (windowOf l2 s e) s = .ok s2 ∧
        Rep ks.p.toNat s1 (sumFrom ks s (windowOf l1 s e)) ∧
        Rep ks.p.toNat s2 (sumFrom ks s (windowOf l2 s e)) := by
  have hse := hs.le he
  have helt : e < l1.length := he.lt
  have helt' : e < l2.length := by omega
  have hw1 : (windowOf l1 s e).length = e + 1 - s := length_windowOf helt
  have hw2 : (windowOf l2 s e).length = e + 1 - s := length_windowOf helt'
  rw [localizeWindow, assertThat_of hlen, ok_bind, mismatchWindow_of_ends hlen hs he, ok_bind]
  show Returns (do
    let originalWindow ← sliceInclusive l1 s e
    let changedWindow ← sliceInclusive l2 s e
    let originalWindowState ← stateForLogs ks originalWindow
    let changedWindowState ← stateForLogs ks changedWindow
    let shiftedOriginalWindowState ← shiftedStateForLogs ks originalWindow s
    let shiftedChangedWindowState ← shiftedStateForLogs ks changedWindow s
    pure (WindowLocalization.mk true (some s) (some e) (some originalWindowState)
      (some changedWindowState) (some shiftedOriginalWindowState)
      (some shiftedChangedWindowState))) _
  rw [sliceInclusive_eq hse helt, ok_bind, sliceInclusive_eq hse helt', ok_bind]
  have hshift1 : s + (windowOf l1 s e).length ≤ 2 ^ 32 := by omega
  have hshift2 : s + (windowOf l2 s e).length ≤ 2 ^ 32 := by omega
  obtain ⟨s1, hs1, hrep1⟩ := shiftedStateForLogs_rep hp hshift1
  obtain ⟨s2, hs2, hrep2⟩ := shiftedStateForLogs_rep hp hshift2
  refine (stateForLogs_rep hp (by omega)).bind fun a _ => ?_
  refine (stateForLogs_rep hp (by omega)).bind fun b _ => ?_
  rw [hs1, ok_bind, hs2, ok_bind]
  exact Returns.pure ⟨rfl, rfl, rfl, s1, s2, rfl, rfl, rfl, rfl, hrep1, hrep2⟩

end

/-- `localize_window` reports a mismatch exactly when the logs differ. Then its
    window runs from the first to the last mismatch, as `first_mismatch`,
    `mismatch_window` and `mismatch_info` find them, its shifted states are those
    of the entries in the window at their place, the difference of the two states
    is the difference of the shifted states, and so the shifted states differ
    exactly when the logs have different states. -/
theorem localizeWindow_tight {q p : U64} (hq : 1 ≤ q.toNat) (hp : 1 < p.toNat) {l1 l2 : List U64}
    (hlen : l1.length = l2.length) (hn : l1.length ≤ 2 ^ 32) :
    ∃ ks w info, KSentry.new q p = .ok ks ∧ localizeWindow ks l1 l2 = .ok w ∧
      mismatchInfo l1 l2 = .ok info ∧
      (w.mismatchExists = false ↔ l1 = l2) ∧ (info.mismatchExists = false ↔ l1 = l2) ∧
      (l1 = l2 → w.start = none ∧ w.end_ = none ∧ firstMismatch l1 l2 = .ok none ∧
        mismatchWindow l1 l2 = .ok none ∧ info.firstIndex = none ∧ info.lastIndex = none) ∧
      (l1 ≠ l2 → ∃ s e d1 d2 s1 s2, w.start = some s ∧ w.end_ = some e ∧
        IsFirst (Mismatch l1 l2) l1.length s ∧ IsLast (Mismatch l1 l2) l1.length e ∧
        firstMismatch l1 l2 = .ok (some (s, l1.getD s 0, l2.getD s 0)) ∧
        mismatchWindow l1 l2 = .ok (some (s, e)) ∧
        info.firstIndex = some s ∧ info.lastIndex = some e ∧
        stateForLogs ks l1 = .ok d1 ∧ stateForLogs ks l2 = .ok d2 ∧
        w.shiftedOriginalWindowState = some s1 ∧ w.shiftedChangedWindowState = some s2 ∧
        shiftedStateForLogs ks ((l1.take (e + 1)).drop s) s = .ok s1 ∧
        shiftedStateForLogs ks ((l2.take (e + 1)).drop s) s = .ok s2 ∧
        (d1.toNat - d2.toNat : ℤ) ≡ s1.toNat - s2.toNat [ZMOD p.toNat] ∧
        (s1 ≠ s2 ↔ d1 ≠ d2)) := by
  obtain ⟨ks, hks, rfl, rfl⟩ := KSentry.exists_new hp hq
  obtain ⟨info, hinfo, hindices, hfirst, hlast, -, hexists⟩ := mismatchInfo_returns hlen
  by_cases heq : l1 = l2
  · obtain ⟨w, hw, hfalse, hstart, hend⟩ := localizeWindow_of_eq ks heq
    have hnil : info.mismatchIndices = [] := by
      subst heq
      simpa [Mismatch] using hindices
    refine ⟨ks, w, info, hks, hw, hinfo, iff_of_true hfalse heq, hexists, ?_,
      fun hne => absurd heq hne⟩
    intro _
    refine ⟨hstart, hend, firstMismatch_of_eq heq, mismatchWindow_of_eq heq, ?_, ?_⟩
    · rw [hfirst, hnil]
      rfl
    · rw [hlast, hnil]
      rfl
  · obtain ⟨s, e, hs, he⟩ := exists_ends hlen heq
    obtain ⟨w, hw, htrue, hstart, hend, s1, s2, hs1, hs2, hshift1, hshift2, hrep1, hrep2⟩ :=
      localizeWindow_of_ends hp hlen hn hs he
    obtain ⟨d1, hd1, hr1⟩ := stateForLogs_rep hp hn
    obtain ⟨d2, hd2, hr2⟩ := stateForLogs_rep hp (hlen ▸ hn)
    have hsub := sumFrom_sub_window ks hlen hs he
    refine ⟨ks, w, info, hks, hw, hinfo, by simp [htrue, heq], hexists,
      fun h => absurd h heq, fun _ => ?_⟩
    refine ⟨s, e, d1, d2, s1, s2, hstart, hend, hs, he, firstMismatch_of_isFirst hlen hs,
      mismatchWindow_of_ends hlen hs he, ?_, ?_, hd1, hd2, hs1, hs2, hshift1, hshift2, ?_, ?_⟩
    · rw [hfirst, hindices, hs.head?_filter]
    · rw [hlast, hindices, he.getLast?_filter]
    · rw [← ZMod.intCast_eq_intCast_iff]
      push_cast
      rw [hr1.cast, hr2.cast, hrep1.cast, hrep2.cast]
      exact hsub
    · rw [Ne, Ne, hrep1.eq_iff hrep2, hr1.eq_iff hr2, ← sub_eq_zero, ← hsub, sub_eq_zero]

/-- Mismatches at the positions `1` and `2` of four. -/
theorem localizeWindow_tight_middle :
    ∃ ks w d1 d2 s1 s2, KSentry.new 3#64 101#64 = .ok ks ∧
      localizeWindow ks [1#64, 2#64, 3#64, 4#64] [1#64, 5#64, 6#64, 4#64] = .ok w ∧
      w.mismatchExists = true ∧
      stateForLogs ks [1#64, 2#64, 3#64, 4#64] = .ok d1 ∧
      stateForLogs ks [1#64, 5#64, 6#64, 4#64] = .ok d2 ∧
      w.shiftedOriginalWindowState = some s1 ∧ w.shiftedChangedWindowState = some s2 ∧
      (s1 ≠ s2 ↔ d1 ≠ d2) := by
  have hlen : [1#64, 2#64, 3#64, 4#64].length = [1#64, 5#64, 6#64, 4#64].length := rfl
  obtain ⟨ks, w, info, hks, hw, -, hexists, -, -, hne⟩ :=
    localizeWindow_tight (q := 3#64) (p := 101#64) (by decide) (by decide) hlen (by decide)
  obtain ⟨s, e, d1, d2, s1, s2, -, -, -, -, -, -, -, -, hd1, hd2, hs1, hs2, -, -, -, hiff⟩ :=
    hne (by decide)
  refine ⟨ks, w, d1, d2, s1, s2, hks, hw, ?_, hd1, hd2, hs1, hs2, hiff⟩
  by_contra hfalse
  exact absurd (hexists.mp (by simpa using hfalse)) (by decide)

/-! ## Diverging prefixes -/

section

variable {l1 l2 : List U64}

theorem differsAt_take_iff {p k i : ℕ} :
    DiffersAt p (l1.take k) (l2.take k) i ↔ i < k ∧ DiffersAt p l1 l2 i := by
  unfold DiffersAt
  by_cases hi : i < k
  · simp [List.getD_eq_getElem?_getD, hi]
  · simp [List.getD_eq_getElem?_getD, hi]

/-- Prefixes without a difference have one state. -/
theorem sumFrom_take_eq (ks : KSentry) (hlen : l1.length = l2.length) {k : ℕ}
    (h : ∀ i < k, ¬ DiffersAt ks.p.toNat l1 l2 i) :
    sumFrom ks 0 (l1.take k) = sumFrom ks 0 (l2.take k) := by
  apply wsum_residues_eq_of_forall_not _ (by rw [List.length_take, List.length_take, hlen])
  intro i hi
  rw [differsAt_take_iff] at hi
  exact h i hi.1 hi.2

/-- The first difference moves the state: its weight is a power of the base. -/
theorem sumFrom_take_ne {ks : KSentry} (hprime : ks.p.toNat.Prime)
    (hq : ks.q.toNat % ks.p.toNat ≠ 0) (hlen : l1.length = l2.length) {i : ℕ}
    (hi : IsFirst (DiffersAt ks.p.toNat l1 l2) l1.length i) :
    sumFrom ks 0 (l1.take (i + 1)) ≠ sumFrom ks 0 (l2.take (i + 1)) := by
  have : Fact ks.p.toNat.Prime := ⟨hprime⟩
  have hlen' : (l1.take (i + 1)).length = (l2.take (i + 1)).length := by
    rw [List.length_take, List.length_take, hlen]
  have hdiff : DiffersAt ks.p.toNat (l1.take (i + 1)) (l2.take (i + 1)) i :=
    differsAt_take_iff.mpr ⟨Nat.lt_succ_self i, hi.holds⟩
  have honly : ∀ j, DiffersAt ks.p.toNat (l1.take (i + 1)) (l2.take (i + 1)) j → j = i := by
    intro j hj
    obtain ⟨hle, hd⟩ := differsAt_take_iff.mp hj
    by_contra hne
    exact hi.before j (by omega) hd
  have hsub := wsum_residues_sub_of_single
    (fun j => squareWeight (ks.q.toNat : ZMod ks.p.toNat) (0 + j)) hlen' (hdiff.lt_length hlen') honly
  have hvalue : (diffAt (l1.take (i + 1)) (l2.take (i + 1)) i : ZMod ks.p.toNat) ≠ 0 := fun h0 =>
    (diffAt_cast_eq_zero_iff _ _ _ _).mp h0 hdiff
  rw [← sub_ne_zero]
  show wsum _ (residues ks.p.toNat (l1.take (i + 1))) -
    wsum _ (residues ks.p.toNat (l2.take (i + 1))) ≠ 0
  rw [hsub]
  exact mul_ne_zero hvalue (pow_ne_zero _ (natCast_ne_zero_iff_mod.mpr hq))

/-- Prefix states differ exactly when the sums of the prefixes do. -/
theorem mismatch_prefixStates_iff {ks : KSentry} {p1 p2 : List U64}
    (hp1 : p1.length = l1.length) (hp2 : p2.length = l1.length)
    (h1 : ∀ k s, p1[k]? = some s → Rep ks.p.toNat s (sumFrom ks 0 (l1.take (k + 1))))
    (h2 : ∀ k s, p2[k]? = some s → Rep ks.p.toNat s (sumFrom ks 0 (l2.take (k + 1)))) {k : ℕ}
    (hk : k < l1.length) :
    Mismatch p1 p2 k ↔ sumFrom ks 0 (l1.take (k + 1)) ≠ sumFrom ks 0 (l2.take (k + 1)) := by
  have hk1 : k < p1.length := by omega
  have hk2 : k < p2.length := by omega
  have hr1 := h1 k _ (List.getElem?_eq_getElem hk1)
  have hr2 := h2 k _ (List.getElem?_eq_getElem hk2)
  rw [Mismatch, List.getD_eq_getElem _ _ hk1, List.getD_eq_getElem _ _ hk2, Ne, hr1.eq_iff hr2]

/-- What `prefix_divergence` reports, whether there is a difference or not. -/
theorem prefixDivergence_returns {ks : KSentry} (hprime : ks.p.toNat.Prime)
    (hq : ks.q.toNat % ks.p.toNat ≠ 0) (hlen : l1.length = l2.length)
    (hn : l1.length ≤ 2 ^ 32) :
    Returns (prefixDivergence ks l1 l2) fun d =>
      (∀ i, IsFirst (DiffersAt ks.p.toNat l1 l2) l1.length i →
        d.firstPrefixIndex = some i ∧ d.divergenceExists = true) ∧
      ((∀ i, ¬ DiffersAt ks.p.toNat l1 l2 i) →
        d.firstPrefixIndex = none ∧ d.divergenceExists = false) := by
  have hp : 1 < ks.p.toNat := hprime.one_lt
  obtain ⟨p1, hp1, hlen1, h1⟩ := prefixStates_rep hp hn
  obtain ⟨p2, hp2, hlen2, h2⟩ := prefixStates_rep hp (hlen ▸ hn)
  have hiff := fun {k} => mismatch_prefixStates_iff (k := k) hlen1 (hlen2.trans hlen.symm) h1 h2
  have hscan := scan_eq_ok (lt_min_of_mem_range (hlen1.trans (hlen2.trans hlen.symm).symm))
    fun i a b => (i, a, b)
  rw [prefixDivergence, assertThat_of hlen, ok_bind, hp1, ok_bind, hp2, ok_bind, hscan, ok_bind]
  by_cases hdiff : ∃ i < l1.length, DiffersAt ks.p.toNat l1 l2 i
  · obtain ⟨i, hi⟩ := exists_isFirst hdiff
    have hfirst : IsFirst (Mismatch p1 p2) p1.length i := by
      have hlt := hi.lt
      refine ⟨by omega, (hiff hlt).mpr (sumFrom_take_ne hprime hq hlen hi), fun j hj => ?_⟩
      rw [hiff (by omega), not_not]
      exact sumFrom_take_eq ks hlen fun k hk => hi.before k (by omega)
    rw [hfirst.find?_eq]
    refine Returns.pure ⟨fun j hj => ?_, fun hnone => absurd hi.holds (hnone i)⟩
    rw [hj.unique hi]
    exact ⟨rfl, rfl⟩
  · have hnone : (List.range p1.length).find? (fun i => decide (Mismatch p1 p2 i)) = none := by
      rw [List.find?_range_eq_none]
      intro k hk
      have hsame : ¬ Mismatch p1 p2 k := by
        rw [hiff (by omega), not_not]
        exact sumFrom_take_eq ks hlen fun i hi hd => hdiff ⟨i, by omega, hd⟩
      simpa using hsame
    rw [hnone]
    exact Returns.pure ⟨fun i hi => absurd ⟨i, hi.lt, hi.holds⟩ hdiff, fun _ => ⟨rfl, rfl⟩⟩

/-- Entries below the modulus are their own residues. -/
theorem differsAt_iff_mismatch {p : ℕ} (h1 : ∀ x ∈ l1, x.toNat < p) (h2 : ∀ x ∈ l2, x.toNat < p)
    (hlen : l1.length = l2.length) {i : ℕ} (hi : i < l1.length) :
    DiffersAt p l1 l2 i ↔ Mismatch l1 l2 i := by
  have hi' : i < l2.length := by omega
  rw [DiffersAt, Mismatch, List.getD_eq_getElem _ _ hi, List.getD_eq_getElem _ _ hi',
    Nat.mod_eq_of_lt (h1 _ (List.getElem_mem hi)), Nat.mod_eq_of_lt (h2 _ (List.getElem_mem hi')),
    Ne, BitVec.toNat_inj]

end

/-- Over a prime modulus that does not divide the base, the first diverging prefix
    ends at the first entry whose residues differ, and prefixes diverge only when
    there is one. When all entries are below the modulus this is the index of
    `first_mismatch`. -/
theorem prefixDivergence_first {q p : U64} (hprime : p.toNat.Prime)
    (hq : q.toNat % p.toNat ≠ 0) {l1 l2 : List U64} (hlen : l1.length = l2.length)
    (hn : l1.length ≤ 2 ^ 32) :
    ∃ ks d, KSentry.new q p = .ok ks ∧ prefixDivergence ks l1 l2 = .ok d ∧
      (∀ i, d.firstPrefixIndex = some i ↔ IsFirst (DiffersAt p.toNat l1 l2) l1.length i) ∧
      (d.divergenceExists = false ↔ ¬ ∃ i < l1.length, DiffersAt p.toNat l1 l2 i) ∧
      ((∀ x ∈ l1, x.toNat < p.toNat) → (∀ x ∈ l2, x.toNat < p.toNat) →
        ∃ found, firstMismatch l1 l2 = .ok found ∧
          d.firstPrefixIndex = found.map fun f => f.1) := by
  obtain ⟨ks, hks, rfl, rfl⟩ := KSentry.exists_new hprime.one_lt (pos_of_mod_ne_zero hq)
  obtain ⟨d, hd, hsome, hnone⟩ := prefixDivergence_returns hprime hq hlen hn
  refine ⟨ks, d, hks, hd, ?_⟩
  by_cases hdiff : ∃ i < l1.length, DiffersAt ks.p.toNat l1 l2 i
  · obtain ⟨i, hi⟩ := exists_isFirst hdiff
    obtain ⟨hindex, hexists⟩ := hsome i hi
    refine ⟨fun j => ?_, by simp [hexists, hdiff], fun hl1 hl2 => ?_⟩
    · rw [hindex, Option.some.injEq]
      exact ⟨fun h => h ▸ hi, fun hj => hi.unique hj⟩
    · have hmis : IsFirst (Mismatch l1 l2) l1.length i :=
        ⟨hi.lt, (differsAt_iff_mismatch hl1 hl2 hlen hi.lt).mp hi.holds, fun j hj hm =>
          hi.before j hj ((differsAt_iff_mismatch hl1 hl2 hlen (hj.trans hi.lt)).mpr hm)⟩
      exact ⟨_, firstMismatch_of_isFirst hlen hmis, hindex⟩
  · have hall : ∀ i, ¬ DiffersAt ks.p.toNat l1 l2 i := fun i hi => hdiff ⟨i, hi.lt_length hlen, hi⟩
    obtain ⟨hindex, hexists⟩ := hnone hall
    refine ⟨fun j => ?_, by simp [hexists, hall], fun hl1 hl2 => ?_⟩
    · rw [hindex]
      exact iff_of_false (by simp) fun hj => hall j hj.holds
    · have heq : l1 = l2 := (eq_iff_forall_not_mismatch hlen).mpr fun i hi hm =>
        hall i ((differsAt_iff_mismatch hl1 hl2 hlen hi).mpr hm)
      exact ⟨none, firstMismatch_of_eq heq, hindex⟩

/-- `102` and `1` agree modulo `101`, so the second entry is the first that counts. -/
theorem prefixDivergence_first_second :
    ∃ ks d, KSentry.new 3#64 101#64 = .ok ks ∧
      prefixDivergence ks [102#64, 2#64, 7#64] [1#64, 3#64, 7#64] = .ok d ∧
      d.firstPrefixIndex = some 1 := by
  have hprime : (101#64).toNat.Prime := by norm_num
  have hq : (3#64).toNat % (101#64).toNat ≠ 0 := by decide
  have hlen : [102#64, 2#64, 7#64].length = [1#64, 3#64, 7#64].length := rfl
  obtain ⟨ks, d, hks, hd, hfirst, -⟩ := prefixDivergence_first hprime hq hlen (by decide)
  refine ⟨ks, d, hks, hd, (hfirst 1).mpr ⟨by decide, by decide, fun j hj => ?_⟩⟩
  have hzero : j = 0 := by omega
  subst hzero
  decide

end TimeFence.Metrics.Main
