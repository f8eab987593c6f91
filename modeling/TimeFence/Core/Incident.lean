import TimeFence.Core.Events
import TimeFence.Core.Fault
import TimeFence.Core.Verdict

/-!
# Incident cases

Model of `timefence-core/src/incident.rs`: an event window is damaged by a
fault, both windows are turned into streams of field elements, each stream gets
a whole-stream checkpoint, and the verifier compares the two.

* `verifyStreams_verdict`: what the verifier says about any two streams.
* `buildCase_status`: what it says about a faulted event window. The faults that
  change the number of events are exactly those reported as a change of length.
* `runIncidentSuite_status`: the verdicts of the demo suite, for any hash.
-/

namespace TimeFence.Core

open TimeFence.Common TimeFence.Algebra

/-! ## Model -/

/-- The old event window that `inject_event_fault` splices in (lines 64–72). -/
def oldEvents : List TelemetryEvent :=
  (incidentEvents.modify 0 fun e => { e with process := "old-bash", timestampNs := 1#64 }).modify 1
    fun e => { e with target := "/old/secret/token", timestampNs := 2#64 }

/-- Model of `inject_event_fault` (lines 28–88). Its loops are those of
    `inject_fault`, over events. -/
def injectEventFault (events : List TelemetryEvent) (kind : FaultKind) : List TelemetryEvent :=
  applyFault oldEvents events kind

/-- The result of checkpointing and comparing two streams. -/
structure StreamComparison where
  expected : TimeFenceCheckpoint
  observedCkpt : TimeFenceCheckpoint
  report : VerificationReport
  deriving DecidableEq, Repr

/-- The part of `build_case` that works on streams (lines 104–127). -/
def verifyStreams (originalStream observedStream : List U128) (q p : U128) :
    Exec StreamComparison := do
  let expectedState ← ksentryFast originalStream q p
  let observedState ← ksentryFast observedStream q p
  let expected ← TimeFenceCheckpoint.new "node-1:runtime" 0#64 0#64
    (BitVec.ofNat 64 originalStream.length) expectedState.digest q p
  let observedCkpt ← TimeFenceCheckpoint.new "node-1:runtime" 0#64 0#64
    (BitVec.ofNat 64 observedStream.length) observedState.digest q p
  pure { expected, observedCkpt, report := verifyCheckpoint expected observedCkpt }

/-- `struct IncidentCase` (lines 16–26). -/
structure IncidentCase where
  name : String
  originalEvents : List TelemetryEvent
  observedEvents : List TelemetryEvent
  originalStream : List U128
  observedStream : List U128
  expected : TimeFenceCheckpoint
  observedCkpt : TimeFenceCheckpoint
  report : VerificationReport
  deriving DecidableEq, Repr

/-- Model of `build_case` (lines 90–139). -/
def buildCase (hash : String → U64) (name : String) (originalEvents : List TelemetryEvent)
    (fault : FaultKind) (q p : U128) : Exec IncidentCase := do
  let observedEvents := injectEventFault originalEvents fault
  let originalStream ← eventsToFieldStream hash originalEvents p
  let observedStream ← eventsToFieldStream hash observedEvents p
  let comparison ← verifyStreams originalStream observedStream q p
  pure { name, originalEvents, observedEvents, originalStream, observedStream,
         expected := comparison.expected, observedCkpt := comparison.observedCkpt,
         report := comparison.report }

/-- The names and faults of the suite, in its order. -/
def suiteCases : List (String × FaultKind) :=
  [("clean", .none), ("drop_one", .dropOne), ("swap_adjacent", .swapAdjacent),
    ("duplicate_one", .duplicateOne), ("truncate_tail", .truncateTail),
    ("splice_old_prefix", .spliceOldPrefix)]

/-- Model of `run_incident_suite` (lines 141–176). -/
def runIncidentSuite (hash : String → U64) (q p : U128) : Exec (List IncidentCase) :=
  suiteCases.mapM fun (name, fault) => buildCase hash name incidentEvents fault q p

/-- Model of `summarize_events` (lines 178–184). -/
def summarizeEvents (events : List TelemetryEvent) : String :=
  " -> ".intercalate (events.map TelemetryEvent.shortLabel)

/-! ## Two streams -/

section

variable {hash : String → U64} {q p : U128} {xs ys : List U128}

/-- The status of the report is the verdict on the two streams. -/
theorem verifyStreams_status (hp : ModulusOk p) (hq : 0 < q.toNat) (hx : xs.length < 2 ^ 64)
    (hy : ys.length < 2 ^ 64) :
    Returns (verifyStreams xs ys q p) fun c => c.report.status = streamVerdict q p xs ys := by
  refine (ksentryFast_digest hp hq xs hx).bind fun e he => ?_
  refine (ksentryFast_digest hp hq ys hy).bind fun o ho => ?_
  have hzero : (0#64).toNat = 0 := rfl
  refine (new_isCheckpointOf he (by rw [hzero]; omega)).bind fun expected ⟨_, hexp⟩ => ?_
  refine (new_isCheckpointOf ho (by rw [hzero]; omega)).bind fun observed ⟨_, hobs⟩ => ?_
  exact Returns.pure (hexp.status_eq hobs)

/-- The verdict of the whole-stream verifier, for all streams: a length mismatch
    exactly when the lengths differ, clean exactly when they are equal and the
    weighted sum of the differences is divisible by `p`, a digest mismatch in
    the remaining cases, and never anything else. -/
theorem verifyStreams_verdict (hp : ModulusOk p) (hq : 0 < q.toNat) (hx : xs.length < 2 ^ 64)
    (hy : ys.length < 2 ^ 64) :
    Returns (verifyStreams xs ys q p) fun c =>
      (c.report.status = .metadataMismatch .length ↔ xs.length ≠ ys.length) ∧
      (c.report.status = .clean ↔ xs.length = ys.length ∧ (p.toNat : ℤ) ∣
        ∑ i ∈ Finset.range xs.length, diffAt xs ys i * (q.toNat : ℤ) ^ (i * (i + 1) / 2)) ∧
      (c.report.status = .digestMismatch ↔ xs.length = ys.length ∧ ¬ (p.toNat : ℤ) ∣
        ∑ i ∈ Finset.range xs.length, diffAt xs ys i * (q.toNat : ℤ) ^ (i * (i + 1) / 2)) ∧
      (c.report.status = .metadataMismatch .length ∨ c.report.status = .clean ∨
        c.report.status = .digestMismatch) := by
  refine (verifyStreams_status hp hq hx hy).mono fun c hc => ?_
  rw [hc]
  exact ⟨streamVerdict_eq_length_iff q p xs ys, streamVerdict_eq_clean_iff q p xs ys,
    streamVerdict_eq_digestMismatch_iff q p xs ys, streamVerdict_cases q p xs ys⟩

/-- Exchanging the last two elements of `[10, 20, 30, 40]` changes the digest. -/
theorem verifyStreams_verdict_swap :
    Returns
      (verifyStreams [10#128, 20#128, 30#128, 40#128] [10#128, 20#128, 40#128, 30#128] 7#128
        1000000007#128)
      fun c => c.report.status = .digestMismatch := by
  refine (verifyStreams_verdict modulusOk_demo (by decide) (by decide) (by decide)).mono ?_
  intro c ⟨_, _, hdigest, _⟩
  exact hdigest.mpr ⟨rfl, by decide⟩

/-! ## Event windows -/

/-- The verdict on a faulted event window. -/
theorem buildCase_returns (hp : ModulusOk p) (hq : 0 < q.toNat) (name : String)
    {events : List TelemetryEvent} (hn : events.length + 2 < 2 ^ 64) (fault : FaultKind) :
    Returns (buildCase hash name events fault q p) fun c =>
      eventsToFieldStream hash events p = .ok c.originalStream ∧
      eventsToFieldStream hash (injectEventFault events fault) p = .ok c.observedStream ∧
      c.originalStream.length = events.length ∧
      c.observedStream.length = (injectEventFault events fault).length ∧
      c.report.status = streamVerdict q p c.originalStream c.observedStream := by
  obtain ⟨xs, hxs, hxlen⟩ := eventsToFieldStream_returns hash hp.pos events
  obtain ⟨ys, hys, hylen⟩ :=
    eventsToFieldStream_returns hash hp.pos (injectEventFault events fault)
  have hle := length_applyFault_le oldEvents events fault
  have hx : xs.length = events.length := hxlen.length_eq.symm
  have hy : ys.length = (injectEventFault events fault).length := hylen.length_eq.symm
  rw [injectEventFault] at hy
  rw [buildCase, hxs, ok_bind, hys, ok_bind]
  refine (verifyStreams_status hp hq (by omega) (by omega)).bind fun c hc => ?_
  exact Returns.pure ⟨rfl, rfl, hx, hy, hc⟩

/-- Whatever the events and their hashes are, the faults that are reported as a
    change of length are those that change the number of events, and no fault is
    reported as any other metadata mismatch. -/
theorem buildCase_status (hp : ModulusOk p) (hq : 0 < q.toNat) (name : String)
    {events : List TelemetryEvent} (hn : events.length + 2 < 2 ^ 64) (fault : FaultKind) :
    Returns (buildCase hash name events fault q p) fun c =>
      (c.report.status = .metadataMismatch .length ↔ fault.ChangesLength events.length) ∧
      (fault = .none → c.report.status = .clean) := by
  refine (buildCase_returns hp hq name hn fault).mono fun c ⟨hx, hy, hxlen, hylen, hc⟩ => ?_
  constructor
  · rw [hc, streamVerdict_eq_length_iff, hxlen, hylen,
      ← length_applyFault_ne_iff (show 2 ≤ oldEvents.length by decide), ne_comm]
    rfl
  · rintro rfl
    have hsame : injectEventFault events .none = events := rfl
    rw [hsame, hx, Except.ok.injEq] at hy
    rw [hc, hy, streamVerdict_self]

/-- The suite reports a change of length for `drop_one`, `duplicate_one` and
    `truncate_tail`, and for no other case. -/
theorem runIncidentSuite_status (hp : ModulusOk p) (hq : 0 < q.toNat) :
    Returns (runIncidentSuite hash q p) (List.Forall₂
      (fun (case : String × FaultKind) (c : IncidentCase) =>
        c.report.status = .metadataMismatch .length ↔
          case.2 ∈ [FaultKind.dropOne, .duplicateOne, .truncateTail]) suiteCases) := by
  -- The suite runs on four events.
  have hfault : ∀ fault : FaultKind, fault.ChangesLength 4 ↔
      fault ∈ [FaultKind.dropOne, .duplicateOne, .truncateTail] := by
    intro fault
    cases fault <;> simp [FaultKind.ChangesLength]
  apply Returns.mapM
  intro case _
  refine (buildCase_status hp hq case.1 (by decide) case.2).mono fun c h => ?_
  exact h.1.trans (hfault case.2)

end

end TimeFence.Core
