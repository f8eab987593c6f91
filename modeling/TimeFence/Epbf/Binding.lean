import TimeFence.Epbf.Event

/-!
# Which fields of a kernel event reach the digest

The digest sees an event through its canonical text. `raw_event_to_telemetry`
prints the process id and the user id into the target of an exec event and into
the placeholder for a missing target, and drops both wherever the kernel sent a
target text. `canonicalString_ne_iff_bindsProcess` says which of the kept events
bind the two ids.
-/

namespace TimeFence.Epbf

open TimeFence.Common TimeFence.Core

/-- The target text of a raw event. -/
def RawKernelEvent.targetText (raw : RawKernelEvent) : String := bytesToString raw.target.toList

/-- The target of the telemetry event carries the two ids: the event is an exec
    event, or it has no target text. -/
def RawKernelEvent.BindsProcess (raw : RawKernelEvent) : Prop :=
  raw.eventType = eventExec ∨ raw.targetText = ""

instance (raw : RawKernelEvent) : Decidable raw.BindsProcess :=
  inferInstanceAs (Decidable (_ ∨ _))

/-! ## Canonical texts -/

/-- Events that differ in nothing but their targets. -/
theorem canonicalString_eq_iff_target {e e' : TelemetryEvent} (hkind : e.kind = e'.kind)
    (hprocess : e.process = e'.process) (htime : e.timestampNs = e'.timestampNs) :
    e.canonicalString = e'.canonicalString ↔ e.target = e'.target := by
  rw [TelemetryEvent.canonicalString_eq_iff_body, TelemetryEvent.body, TelemetryEvent.body,
    hprocess, List.append_cancel_left_eq, List.append_cancel_left_eq, String.toList_inj]
  tauto

/-- The ids go nowhere but into the target. -/
theorem canonicalString_with_ids_eq_iff (raw : RawKernelEvent) (pid uid : U32) :
    (rawEventToTelemetry { raw with pid := pid, uid := uid }).canonicalString =
        (rawEventToTelemetry raw).canonicalString ↔
      (rawEventToTelemetry { raw with pid := pid, uid := uid }).target =
        (rawEventToTelemetry raw).target := by
  apply canonicalString_eq_iff_target
  all_goals
    unfold rawEventToTelemetry
    split_ifs <;> rfl

/-! ## Targets -/

/-- A kept event with a target text has this text as its target. -/
theorem target_of_not_bindsProcess {raw : RawKernelEvent} (hkeep : shouldKeepEvent raw = true)
    (h : ¬ raw.BindsProcess) : (rawEventToTelemetry raw).target = raw.targetText := by
  obtain ⟨hexec, htext⟩ := not_or.mp h
  have hempty : ¬ (bytesToString raw.target.toList).isEmpty = true := by
    rwa [String.isEmpty_iff]
  unfold shouldKeepEvent at hkeep
  unfold rawEventToTelemetry
  by_cases hopenat : raw.eventType = eventOpenat
  · rw [if_neg hexec, if_pos hopenat]
    exact if_neg hempty
  · by_cases hconnect : raw.eventType = eventConnect
    · rw [if_neg hexec, if_neg hopenat, if_pos hconnect]
      exact if_neg hempty
    · simp [hexec, hopenat, hconnect] at hkeep

/-- The other events have the two ids between fixed texts. -/
theorem target_of_bindsProcess {raw : RawKernelEvent} (h : raw.BindsProcess) :
    ∃ before after : String, ∀ pid uid : U32,
      (rawEventToTelemetry { raw with pid := pid, uid := uid }).target =
        before ++ pid.toNat.repr ++ ":uid=" ++ uid.toNat.repr ++ after := by
  unfold rawEventToTelemetry
  by_cases hexec : raw.eventType = eventExec
  · refine ⟨"exec:pid=", ":comm=" ++ bytesToString raw.comm.toList, fun pid uid => ?_⟩
    rw [if_pos hexec, ← String.append_assoc]
  · have hempty : (bytesToString raw.target.toList).isEmpty = true :=
      String.isEmpty_iff.mpr (h.resolve_left hexec)
    by_cases hopenat : raw.eventType = eventOpenat
    · refine ⟨"openat:pid=", ":path=<unknown>", fun pid uid => ?_⟩
      rw [if_neg hexec, if_pos hopenat]
      exact if_pos hempty
    · by_cases hconnect : raw.eventType = eventConnect
      · refine ⟨"connect:pid=", ":target=<unknown>", fun pid uid => ?_⟩
        rw [if_neg hexec, if_neg hopenat, if_pos hconnect]
        exact if_pos hempty
      · refine ⟨"unknown:pid=", "", fun pid uid => ?_⟩
        rw [if_neg hexec, if_neg hopenat, if_neg hconnect, String.append_empty]

/-- The separator in front of the user id is found behind the digits of the
    process id. -/
theorem target_with_ids_eq_iff {raw : RawKernelEvent} (h : raw.BindsProcess) (pid uid : U32) :
    (rawEventToTelemetry { raw with pid := pid, uid := uid }).target =
        (rawEventToTelemetry raw).target ↔ pid = raw.pid ∧ uid = raw.uid := by
  obtain ⟨before, after, htarget⟩ := target_of_bindsProcess h
  have hraw : (rawEventToTelemetry raw).target =
      before ++ raw.pid.toNat.repr ++ ":uid=" ++ raw.uid.toNat.repr ++ after :=
    htarget raw.pid raw.uid
  have hcolon := notMem_repr (c := ':') (by decide)
  have hword : ":uid=".toList = ':' :: "uid=".toList := by decide
  rw [htarget, hraw, ← String.toList_inj]
  simp only [String.toList_append, hword, List.append_assoc, List.cons_append,
    List.append_cancel_left_eq]
  rw [append_cons_inj_left (hcolon _) (hcolon _), List.append_cancel_left_eq,
    List.append_cancel_right_eq, toList_repr_toNat_inj, toList_repr_toNat_inj]

/-- A kept event without a target text is an exec event or a connect event: the
    filter wants a path of an open event. -/
theorem not_bindsProcess_of_openat {raw : RawKernelEvent} (hkeep : shouldKeepEvent raw = true)
    (hopenat : raw.eventType = eventOpenat) : ¬ raw.BindsProcess := by
  have hne : raw.eventType ≠ eventExec := by
    rw [hopenat]
    decide
  rintro (hexec | htext)
  · exact hne hexec
  · unfold shouldKeepEvent at hkeep
    rw [if_neg hne, if_pos hopenat] at hkeep
    change bytesToString raw.target.toList = "" at htext
    rw [htext] at hkeep
    exact absurd hkeep (by decide)

/-! ## The two ids -/

/-- What happens to the canonical text when at least one of the two ids changes. -/
theorem canonicalString_with_ids_ne_iff {raw : RawKernelEvent} (hkeep : shouldKeepEvent raw = true)
    {pid uid : U32} (hids : ¬ (pid = raw.pid ∧ uid = raw.uid)) :
    (rawEventToTelemetry { raw with pid := pid, uid := uid }).canonicalString ≠
      (rawEventToTelemetry raw).canonicalString ↔ raw.BindsProcess := by
  rw [Ne, canonicalString_with_ids_eq_iff]
  by_cases hbinds : raw.BindsProcess
  · rw [target_with_ids_eq_iff hbinds]
    exact iff_of_true hids hbinds
  · -- The ids of an event that does not bind them go nowhere.
    have hkeep' : shouldKeepEvent { raw with pid := pid, uid := uid } = true := hkeep
    rw [target_of_not_bindsProcess hkeep hbinds, target_of_not_bindsProcess hkeep' hbinds]
    exact iff_of_false (not_not.mpr rfl) hbinds

/-- Changing the process id alone, or the user id alone, changes the canonical
    text of a kept event exactly when its target carries the ids. A kept open
    event never does. -/
theorem canonicalString_ne_iff_bindsProcess {raw : RawKernelEvent}
    (hkeep : shouldKeepEvent raw = true) :
    (∀ pid, pid ≠ raw.pid →
      ((rawEventToTelemetry { raw with pid := pid }).canonicalString ≠
        (rawEventToTelemetry raw).canonicalString ↔ raw.BindsProcess)) ∧
    (∀ uid, uid ≠ raw.uid →
      ((rawEventToTelemetry { raw with uid := uid }).canonicalString ≠
        (rawEventToTelemetry raw).canonicalString ↔ raw.BindsProcess)) ∧
    (raw.eventType = eventOpenat → ¬ raw.BindsProcess) := by
  refine ⟨fun pid hpid => ?_, fun uid huid => ?_, not_bindsProcess_of_openat hkeep⟩
  · have hids : ¬ (pid = raw.pid ∧ raw.uid = raw.uid) := fun h => hpid h.1
    exact canonicalString_with_ids_ne_iff hkeep hids
  · have hids : ¬ (raw.pid = raw.pid ∧ uid = raw.uid) := fun h => huid h.2
    exact canonicalString_with_ids_ne_iff hkeep hids

/-- An exec event of `bash` by two processes. -/
theorem canonicalString_ne_iff_bindsProcess_exec :
    (rawEventToTelemetry ⟨eventExec, 72#32, 1000#32, 5#64,
        byteArray [98#8, 97#8, 115#8, 104#8] 0 16, byteArray [] 0 128⟩).canonicalString ≠
      (rawEventToTelemetry ⟨eventExec, 71#32, 1000#32, 5#64,
        byteArray [98#8, 97#8, 115#8, 104#8] 0 16, byteArray [] 0 128⟩).canonicalString := by
  have hkeep : shouldKeepEvent ⟨eventExec, 71#32, 1000#32, 5#64,
      byteArray [98#8, 97#8, 115#8, 104#8] 0 16, byteArray [] 0 128⟩ = true := by decide +kernel
  exact ((canonicalString_ne_iff_bindsProcess hkeep).1 72#32 (by decide)).mpr (.inl rfl)

/-- A kept connect event to `8.8.8.8:53` has one canonical text whichever process
    and user it comes from. -/
theorem canonicalString_connect_collision :
    ∃ raw, shouldKeepEvent raw = true ∧ raw.targetText = "8.8.8.8:53" ∧
      (∃ pid, pid ≠ raw.pid ∧ (rawEventToTelemetry { raw with pid := pid }).canonicalString =
        (rawEventToTelemetry raw).canonicalString) ∧
      (∃ uid, uid ≠ raw.uid ∧ (rawEventToTelemetry { raw with uid := uid }).canonicalString =
        (rawEventToTelemetry raw).canonicalString) := by
  refine ⟨⟨eventConnect, 71#32, 1000#32, 5#64, byteArray [110#8, 99#8] 0 16,
    byteArray [56#8, 46#8, 56#8, 46#8, 56#8, 46#8, 56#8, 58#8, 53#8, 51#8] 0 128⟩, rfl,
    by decide +kernel, ⟨72#32, by decide, by decide +kernel⟩, 0#32, by decide, by decide +kernel⟩

end TimeFence.Epbf
