import TimeFence.Common.Machine

/-!
# Fault injection

Model of `timefence-core/src/fault.rs`: what a telemetry pipeline does to a
stream under stress. The loops do not look at the elements, so they are generic;
`incident.rs` repeats them over events.

`dropOne_eq` and `duplicateOne_eq` say which list a loop builds, and
`length_applyFault_ne_iff` says which faults change the length of a stream, and
with it the metadata of its checkpoint.
-/

namespace TimeFence.Core

open TimeFence.Common

/-! ## Model -/

/-- `enum FaultKind` (lines 8–16). -/
inductive FaultKind where
  | none
  | dropOne
  | swapAdjacent
  | duplicateOne
  | truncateTail
  | spliceOldPrefix
  deriving DecidableEq, Repr

section

variable {α : Type*}

/-- Model of `drop_one` (lines 18–23). -/
def dropOne (xs : List α) (index : ℕ) : List α :=
  xs.zipIdx.filterMap fun (x, i) => if i = index then .none else .some x

/-- Model of `swap_adjacent` (lines 25–33). -/
def swapAdjacent (xs : List α) (index : ℕ) : List α :=
  if h : index + 1 < xs.length then (xs.set index xs[index + 1]).set (index + 1) xs[index] else xs

/-- Model of `duplicate_one` (lines 35–47): each element is pushed once, and the
    one at `index` once more. -/
def duplicateOne (xs : List α) (index : ℕ) : List α :=
  xs.zipIdx.flatMap fun (x, i) => if i = index then [x, x] else [x]

/-- Model of `truncate_tail` (lines 49–51). -/
def truncateTail (xs : List α) (newLen : ℕ) : List α := xs.take newLen

/-- Model of `splice_old_prefix` (lines 53–65). -/
def spliceOldPrefix (current old : List α) (prefixLen : ℕ) : List α :=
  old.take prefixLen ++ current.drop prefixLen

end

/-- The `match` of `inject_fault`, with the stream that it splices in as an
    argument. -/
def applyFault {α : Type*} (old xs : List α) : FaultKind → List α
  | .none => xs
  | .dropOne => dropOne xs 1
  | .swapAdjacent => swapAdjacent xs 1
  | .duplicateOne => duplicateOne xs 1
  | .truncateTail => truncateTail xs (xs.length - 1)
  | .spliceOldPrefix => spliceOldPrefix xs old 2

/-- Model of `inject_fault` (lines 67–79). -/
def injectFault (xs : List U128) (kind : FaultKind) : List U128 :=
  applyFault [999#128, 888#128, 777#128, 666#128] xs kind

/-! ## What the loops build -/

section

variable {α : Type*} (xs : List α)

/-- An `enumerate` loop that treats the element at one index by `f` and keeps
    the others. -/
theorem flatMap_zipIdx_eq (f : α → List α) (index : ℕ) :
    (xs.zipIdx.flatMap fun y => if y.2 = index then f y.1 else [y.1]) =
      xs.take index ++ xs[index]?.toList.flatMap f ++ xs.drop (index + 1) := by
  -- Past the index the loop copies.
  have hcopy : ∀ (xs : List α) (n : ℕ), index < n →
      ((xs.zipIdx n).flatMap fun y => if y.2 = index then f y.1 else [y.1]) = xs := by
    intro xs
    induction xs with
    | nil => simp
    | cons x xs ih =>
      intro n hn
      have hne : n ≠ index := by omega
      simp [hne, ih (n + 1) (by omega)]
  -- Induction on the stream, with the index of its first element general.
  have key : ∀ (xs : List α) (n i : ℕ), index = n + i →
      ((xs.zipIdx n).flatMap fun y => if y.2 = index then f y.1 else [y.1]) =
        xs.take i ++ xs[i]?.toList.flatMap f ++ xs.drop (i + 1) := by
    intro xs
    induction xs with
    | nil => simp
    | cons x xs ih =>
      intro n i hi
      cases i with
      | zero =>
        rw [List.zipIdx_cons, List.flatMap_cons, hcopy xs (n + 1) (by omega)]
        simp [hi]
      | succ i =>
        have hne : n ≠ index := by omega
        simp [hne, ih (n + 1) i (by omega)]
  exact key xs 0 index (by omega)

theorem dropOne_eq (index : ℕ) : dropOne xs index = xs.take index ++ xs.drop (index + 1) := by
  have h := flatMap_zipIdx_eq xs (fun _ => []) index
  have hnil : xs[index]?.toList.flatMap (fun _ => ([] : List α)) = [] := by simp
  rw [hnil, List.append_nil] at h
  rw [dropOne, List.filterMap_eq_flatMap_toList, ← h]
  simp only [apply_ite Option.toList, Option.toList_none, Option.toList_some]

theorem duplicateOne_eq (index : ℕ) :
    duplicateOne xs index = xs.take (index + 1) ++ xs.drop index := by
  rw [duplicateOne, flatMap_zipIdx_eq xs (fun x => [x, x])]
  by_cases h : index < xs.length
  · have htake : xs.take (index + 1) = xs.take index ++ [xs[index]] :=
      List.take_append_getElem h |>.symm
    have hdrop : xs.drop index = xs[index] :: xs.drop (index + 1) := List.drop_eq_getElem_cons h
    rw [List.getElem?_eq_getElem h, htake, hdrop, List.append_assoc, List.append_assoc]
    rfl
  · simp [List.drop_eq_nil_of_le, List.take_of_length_le, not_lt.mp h, Nat.le_succ_of_le]

theorem length_dropOne (index : ℕ) :
    (dropOne xs index).length = if index < xs.length then xs.length - 1 else xs.length := by
  rw [dropOne_eq, List.length_append, List.length_take, List.length_drop]
  split_ifs <;> omega

@[simp] theorem length_swapAdjacent (index : ℕ) : (swapAdjacent xs index).length = xs.length := by
  unfold swapAdjacent
  split_ifs <;> simp

theorem length_duplicateOne (index : ℕ) : (duplicateOne xs index).length =
    if index < xs.length then xs.length + 1 else xs.length := by
  rw [duplicateOne_eq, List.length_append, List.length_take, List.length_drop]
  split_ifs <;> omega

theorem length_spliceOldPrefix (old : List α) (prefixLen : ℕ) :
    (spliceOldPrefix xs old prefixLen).length =
      min prefixLen old.length + (xs.length - prefixLen) := by
  rw [spliceOldPrefix, List.length_append, List.length_take, List.length_drop]

end

/-! ## Faults that change the length -/

/-- The length of a faulted stream. -/
theorem length_applyFault {α : Type*} (old xs : List α) (kind : FaultKind) :
    (applyFault old xs kind).length =
      match kind with
      | .none => xs.length
      | .dropOne => if 1 < xs.length then xs.length - 1 else xs.length
      | .swapAdjacent => xs.length
      | .duplicateOne => if 1 < xs.length then xs.length + 1 else xs.length
      | .truncateTail => xs.length - 1
      | .spliceOldPrefix => min 2 old.length + (xs.length - 2) := by
  cases kind with
  | none => rfl
  | dropOne => exact length_dropOne xs 1
  | swapAdjacent => exact length_swapAdjacent xs 1
  | duplicateOne => exact length_duplicateOne xs 1
  | truncateTail => simp [applyFault, truncateTail]
  | spliceOldPrefix => exact length_spliceOldPrefix xs old 2

/-- The faults that change the length of a stream of length `n`. -/
def FaultKind.ChangesLength (n : ℕ) : FaultKind → Prop
  | .none => False
  | .dropOne => 2 ≤ n
  | .swapAdjacent => False
  | .duplicateOne => 2 ≤ n
  | .truncateTail => 1 ≤ n
  | .spliceOldPrefix => n < 2

theorem length_applyFault_ne_iff {α : Type*} {old : List α} (hold : 2 ≤ old.length) (xs : List α)
    (kind : FaultKind) :
    (applyFault old xs kind).length ≠ xs.length ↔ kind.ChangesLength xs.length := by
  rw [length_applyFault]
  cases kind with
  | none => simp [FaultKind.ChangesLength]
  | dropOne =>
    simp only [FaultKind.ChangesLength]
    split_ifs <;> omega
  | swapAdjacent => simp [FaultKind.ChangesLength]
  | duplicateOne =>
    simp only [FaultKind.ChangesLength]
    split_ifs <;> omega
  | truncateTail =>
    simp only [FaultKind.ChangesLength]
    omega
  | spliceOldPrefix =>
    simp only [FaultKind.ChangesLength]
    omega

/-- A fault adds at most two elements. -/
theorem length_applyFault_le {α : Type*} (old xs : List α) (kind : FaultKind) :
    (applyFault old xs kind).length ≤ xs.length + 2 := by
  rw [length_applyFault]
  cases kind <;> simp only <;> (try split_ifs) <;> omega

end TimeFence.Core
