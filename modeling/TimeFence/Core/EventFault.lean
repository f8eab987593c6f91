import TimeFence.Core.Incident

/-!
# Faults before and after encoding

The fault logic of `fault.rs` exists a second time in `incident.rs`, over events
and with its own loops and guards. `injectEventFaultArms` follows that copy arm
by arm; it injects the same faults (`injectEventFaultArms_eq`), and for the
faults that splice nothing in it does not matter whether a window of events is
faulted before or after it is turned into field elements
(`eventsToFieldStream_injectEventFault`).
-/

namespace TimeFence.Core

open TimeFence.Common

/-! ## Model -/

/-- `inject_event_fault` (lines 28–88) with its loops and guards as they stand. -/
def injectEventFaultArms (events : List TelemetryEvent) : FaultKind → List TelemetryEvent
  | .none => events
  | .dropOne => events.zipIdx.filterMap fun (e, i) => if i = 1 then none else some e
  | .swapAdjacent =>
    if h : events.length > 2 then (events.set 1 events[2]).set 2 events[1] else events
  | .duplicateOne =>
    events.zipIdx.foldl (fun out (e, i) =>
      let out := out ++ [e]
      if i = 1 then out ++ [e] else out) []
  | .truncateTail => events.take (events.length - 1)
  | .spliceOldPrefix =>
    let prefixLen := 2
    let out := (oldEvents.take prefixLen).foldl (fun out e => out ++ [e]) []
    (events.drop prefixLen).foldl (fun out e => out ++ [e]) out

/-- The value that `to_field_element` returns for a modulus that is not zero. -/
def fieldElement (hash : String → U64) (p : U128) (e : TelemetryEvent) : U128 :=
  (hash e.canonicalString).widen % p

/-! ## The two copies -/

theorem injectEventFaultArms_eq (events : List TelemetryEvent) (kind : FaultKind) :
    injectEventFaultArms events kind = injectEventFault events kind := by
  unfold injectEventFault
  cases kind with
  | none => rfl
  | dropOne => rfl
  | swapAdjacent =>
    -- `len > 2` is `1 + 1 < len`.
    rfl
  | duplicateOne =>
    show _ = duplicateOne events 1
    rw [duplicateOne, List.flatMap_eq_foldl, injectEventFaultArms]
    congr 1
    funext out y
    show (if y.2 = 1 then out ++ [y.1] ++ [y.1] else out ++ [y.1]) =
      out ++ if y.2 = 1 then [y.1, y.1] else [y.1]
    split_ifs
    · rw [List.append_assoc]
      rfl
    · rfl
  | truncateTail => rfl
  | spliceOldPrefix =>
    show _ = spliceOldPrefix events oldEvents 2
    rw [spliceOldPrefix, injectEventFaultArms]
    simp only [List.foldl_append_eq_append, ← List.flatMap_def, List.flatMap_singleton',
      List.nil_append]

/-! ## Encoding -/

section

variable {α β : Type*} (f : α → β)

/-- A fault moves elements without looking at them. -/
theorem applyFault_map (old : List α) (old' : List β) (xs : List α) {kind : FaultKind}
    (hkind : kind ≠ .spliceOldPrefix) :
    applyFault old' (xs.map f) kind = (applyFault old xs kind).map f := by
  cases kind with
  | none => rfl
  | dropOne =>
    show dropOne (xs.map f) 1 = (dropOne xs 1).map f
    rw [dropOne_eq, dropOne_eq, List.map_append, List.map_take, List.map_drop]
  | swapAdjacent =>
    show swapAdjacent (xs.map f) 1 = (swapAdjacent xs 1).map f
    unfold swapAdjacent
    by_cases h : 1 + 1 < xs.length
    · have h' : 1 + 1 < (xs.map f).length := by rwa [List.length_map]
      rw [dif_pos h, dif_pos h', List.map_set, List.map_set, List.getElem_map, List.getElem_map]
    · have h' : ¬ 1 + 1 < (xs.map f).length := by rwa [List.length_map]
      rw [dif_neg h, dif_neg h']
  | duplicateOne =>
    show duplicateOne (xs.map f) 1 = (duplicateOne xs 1).map f
    rw [duplicateOne_eq, duplicateOne_eq, List.map_append, List.map_take, List.map_drop]
  | truncateTail =>
    show (xs.map f).take ((xs.map f).length - 1) = (xs.take (xs.length - 1)).map f
    rw [List.length_map, List.map_take]
  | spliceOldPrefix => exact absurd rfl hkind

end

theorem eventsToFieldStream_eq_map (hash : String → U64) {p : U128} (hp : 0 < p.toNat)
    (events : List TelemetryEvent) :
    eventsToFieldStream hash events p = .ok (events.map (fieldElement hash p)) := by
  have hp0 : p ≠ 0#128 := by
    rintro rfl
    exact absurd hp (by decide)
  have helem : ∀ e : TelemetryEvent, e.toFieldElement hash p = .ok (fieldElement hash p e) := by
    intro e
    rw [TelemetryEvent.toFieldElement, checkedRem, if_neg hp0]
    rfl
  unfold eventsToFieldStream
  induction events with
  | nil => rfl
  | cons e events ih =>
    rw [List.mapM_cons, helem, ok_bind, ih, ok_bind]
    rfl

/-- Faulting a window of events and then encoding it gives the stream that one
    gets by encoding the window and faulting the stream. -/
theorem eventsToFieldStream_injectEventFault (hash : String → U64) {p : U128} (hp : 0 < p.toNat)
    (events : List TelemetryEvent) {kind : FaultKind} (hkind : kind ≠ .spliceOldPrefix) :
    ∃ xs, eventsToFieldStream hash events p = .ok xs ∧
      eventsToFieldStream hash (injectEventFaultArms events kind) p = .ok (injectFault xs kind) := by
  refine ⟨events.map (fieldElement hash p), eventsToFieldStream_eq_map hash hp events, ?_⟩
  rw [eventsToFieldStream_eq_map hash hp, injectEventFaultArms_eq, injectFault, injectEventFault,
    applyFault_map _ oldEvents _ _ hkind]

/-- Exchanging two events of the demo window, with the length of the canonical
    string as the hash. -/
theorem eventsToFieldStream_injectEventFault_swap :
    ∃ xs, eventsToFieldStream (fun s => BitVec.ofNat 64 s.length) incidentEvents 101#128 = .ok xs ∧
      eventsToFieldStream (fun s => BitVec.ofNat 64 s.length)
        (injectEventFaultArms incidentEvents .swapAdjacent) 101#128 =
          .ok (injectFault xs .swapAdjacent) :=
  eventsToFieldStream_injectEventFault _ (by decide) _ (by decide)

end TimeFence.Core
