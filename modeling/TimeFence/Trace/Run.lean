import TimeFence.Core.Detection
import TimeFence.Core.EventFault
import TimeFence.Core.Verdict
import TimeFence.Trace.Strace

/-!
# Runs of strace

Model of the program of `timefence-trace/src/main.rs` behind its line parser
(lines 139–231): the lines of a traced script become a run, and an expected run
is compared with an observed one. `run_strace_script` executes the script; here
its output is a list of lines.

* `buildTraceRun_returns`: what a run holds.
* `buildCase_verdict`: the comparison is the checkpoint verifier of
  `timefence-core`, and sees of the two outputs nothing but the sequences of
  telemetry events.
* `buildCase_edit`: what the comparison says after any edit of one line.
-/

namespace TimeFence.Trace

open TimeFence.Common TimeFence.Core TimeFence.Algebra
open TimeFence.Epbf (contains)

/-! ## Model -/

/-- `struct TraceRun` (lines 24–29). -/
structure TraceRun where
  name : String
  rawSyscallLinesSeen : U64
  events : List TraceEvent
  digest : U128
  deriving DecidableEq, Repr

/-- Model of `TraceRun::len` (lines 32–34). -/
def TraceRun.len (self : TraceRun) : ℕ := self.events.length

/-- `struct CompareCase` (lines 46–51). -/
structure CompareCase where
  name : String
  expected : TraceRun
  observed : TraceRun
  status : String
  deriving DecidableEq, Repr

/-- Model of `TraceEvent::to_field_element` (lines 14–16). -/
def TraceEvent.toFieldElement (hash : String → U64) (self : TraceEvent) (p : U128) : Exec U128 :=
  self.event.toFieldElement hash p

/-- The condition of lines 163–166. -/
def namesSyscall (line : String) : Bool :=
  contains line "execve(" || contains line "openat(" || contains line "open(" ||
    contains line "connect("

/-- The counter of lines (lines 163–169). -/
def countLine (seen : U64) (line : String) : Exec U64 :=
  if namesSyscall line then checkedAdd seen 1#64 else pure seen

/-- The body of the loop over the lines (lines 162–174). -/
def readLine (state : U64 × List TraceEvent) (line : String) : Exec (U64 × List TraceEvent) := do
  let seen ← countLine state.1 line
  pure (seen, state.2 ++ (parseStraceLine line).toList)

/-- Model of `build_trace_run` (lines 156–189), for a script whose output is
    `lines`. -/
def buildTraceRun (hash : String → U64) (name : String) (lines : List String) (q p : U128) :
    Exec TraceRun := do
  let (rawSyscallLinesSeen, events) ← lines.foldlM readLine (0#64, [])
  let ks ← KSentry.new q p
  let ks ← events.foldlM (fun ks event => do
    let x ← event.toFieldElement hash p
    ks.update x) ks
  pure { name, rawSyscallLinesSeen, events, digest := ks.digest }

/-- Model of `compare_trace_runs` (lines 191–199). -/
def compareTraceRuns (expected observed : TraceRun) : String :=
  if expected.len ≠ observed.len then "METADATA_MISMATCH_LENGTH"
  else if expected.digest ≠ observed.digest then "DIGEST_MISMATCH_SAME_LENGTH"
  else "CLEAN"

/-- Model of `build_case` (lines 214–231). -/
def buildCase (hash : String → U64) (caseName : String) (expectedLines observedLines : List String)
    (q p : U128) : Exec CompareCase := do
  let expected ← buildTraceRun hash (caseName ++ "-expected") expectedLines q p
  let observed ← buildTraceRun hash (caseName ++ "-observed") observedLines q p
  let status := compareTraceRuns expected observed
  pure { name := caseName, expected, observed, status }

/-! ## What a run holds -/

/-- The events that the parser finds in the lines. -/
def eventsOf (lines : List String) : List TraceEvent := lines.filterMap parseStraceLine

/-- Their field elements. -/
def fieldStream (hash : String → U64) (p : U128) (lines : List String) : List U128 :=
  (eventsOf lines).map fun event => fieldElement hash p event.event

section Lines

variable {lines : List String} {line : String} {event : TraceEvent}

/-- A line that becomes an event is counted. -/
theorem namesSyscall_of_parseStraceLine (h : parseStraceLine line = some event) :
    namesSyscall line = true := by
  by_contra hno
  rw [namesSyscall, Bool.not_eq_true] at hno
  simp only [Bool.or_eq_false_iff] at hno
  obtain ⟨⟨⟨hexecve, hopenat⟩, hopen⟩, hconnect⟩ := hno
  simp [parseStraceLine, hexecve, hopenat, hopen, hconnect] at h

theorem length_eventsOf_le (lines : List String) :
    (eventsOf lines).length ≤ lines.countP namesSyscall := by
  induction lines with
  | nil => exact Nat.le_refl 0
  | cons line lines ih =>
    unfold eventsOf at ih ⊢
    rw [List.filterMap_cons, List.countP_cons]
    cases hparse : parseStraceLine line with
    | none => exact ih.trans (Nat.le_add_right _ _)
    | some event =>
      rw [if_pos (namesSyscall_of_parseStraceLine hparse), List.length_cons]
      exact Nat.add_le_add_right ih 1

theorem length_fieldStream (hash : String → U64) (p : U128) (lines : List String) :
    (fieldStream hash p lines).length = (eventsOf lines).length := List.length_map _

theorem fieldStream_append (hash : String → U64) (p : U128) (lines lines' : List String) :
    fieldStream hash p (lines ++ lines') = fieldStream hash p lines ++ fieldStream hash p lines' := by
  rw [fieldStream, eventsOf, List.filterMap_append, List.map_append]
  rfl

/-- The loop over the lines. -/
theorem foldlM_readLine_returns (hn : lines.length < 2 ^ 64) :
    Returns (lines.foldlM readLine (0#64, [])) fun state =>
      state.1.toNat = lines.countP namesSyscall ∧ state.2 = eventsOf lines := by
  refine Returns.foldlM (fun pre (state : U64 × List TraceEvent) =>
    state.1.toNat = pre.countP namesSyscall ∧ state.2 = eventsOf pre) ⟨rfl, rfl⟩ ?_
  intro pre line post state hlines ⟨hseen, hevents⟩
  have hpre := length_lt_of_split hlines
  have hcount := List.countP_le_length (p := namesSyscall) (l := pre)
  have hone : (1#64).toNat = 1 := rfl
  have hline : Returns (countLine state.1 line) fun seen =>
      seen.toNat = (pre ++ [line]).countP namesSyscall := by
    rw [List.countP_append, List.countP_singleton, countLine, ← hseen]
    split_ifs
    · exact checkedAdd_returns (by omega)
    · exact Returns.pure (Nat.add_zero _).symm
  refine hline.bind fun seen hseen' => Returns.pure ⟨hseen', ?_⟩
  show state.2 ++ (parseStraceLine line).toList = eventsOf (pre ++ [line])
  rw [hevents, eventsOf, eventsOf, List.filterMap_append]
  cases hparse : parseStraceLine line with
  | none => simp [hparse]
  | some event => simp [hparse]

end Lines

section Runs

variable {hash : String → U64} {name : String} {lines : List String} {q p : U128}

/-- The loop over the events is a run of the accumulator over their field
    elements. -/
theorem foldlM_update_eq (hp : 0 < p.toNat) (events : List TraceEvent) (ks : KSentry) :
    (events.foldlM (fun ks event => do
      let x ← event.toFieldElement hash p
      ks.update x) ks) =
      (events.map fun event => fieldElement hash p event.event).foldlM KSentry.update ks := by
  have hp0 : p ≠ 0#128 := by
    rintro rfl
    exact absurd hp (by decide)
  rw [List.foldlM_map]
  congr 1
  funext ks event
  rw [TraceEvent.toFieldElement, TelemetryEvent.toFieldElement, checkedRem, if_neg hp0, ok_bind]
  rfl

/-- A run holds the events of its lines, counts the lines that name a system call,
    and has the digest of the field elements. -/
theorem buildTraceRun_returns (hp : ModulusOk p) (hq : 0 < q.toNat) (hn : lines.length < 2 ^ 64) :
    Returns (buildTraceRun hash name lines q p) fun run =>
      run.events = eventsOf lines ∧
      run.rawSyscallLinesSeen.toNat = lines.countP namesSyscall ∧
      Rep p.toNat run.digest (digestOf q p (fieldStream hash p lines)) := by
  have hlen : (fieldStream hash p lines).length < 2 ^ 64 := by
    rw [length_fieldStream]
    exact lt_of_le_of_lt (List.length_filterMap_le _ _) hn
  obtain ⟨ks, hks, hdigest⟩ := ksentryFast_digest hp hq _ hlen
  obtain ⟨ks₀, hnew, hrun⟩ := bind_eq_ok_iff.mp hks
  refine (foldlM_readLine_returns hn).bind fun state ⟨hseen, hevents⟩ => ?_
  dsimp only
  rw [hnew, ok_bind, foldlM_update_eq hp.pos, hevents]
  rw [fieldStream] at hrun
  rw [hrun, ok_bind]
  exact Returns.pure ⟨rfl, hseen, hdigest⟩

end Runs

/-! ## The comparison -/

/-- The text of a verdict of the verifier. -/
def statusText : VerificationStatus → String
  | .clean => "CLEAN"
  | .digestMismatch => "DIGEST_MISMATCH_SAME_LENGTH"
  | .metadataMismatch _ => "METADATA_MISMATCH_LENGTH"

section Cases

variable {hash : String → U64} {caseName : String} {expectedLines observedLines : List String}
  {q p : U128}

/-- The two runs are compared as streams of field elements. -/
theorem buildCase_returns (hp : ModulusOk p) (hq : 0 < q.toNat)
    (hexpected : expectedLines.length < 2 ^ 64) (hobserved : observedLines.length < 2 ^ 64) :
    Returns (buildCase hash caseName expectedLines observedLines q p) fun c =>
      c.status = statusText (streamVerdict q p (fieldStream hash p expectedLines)
        (fieldStream hash p observedLines)) ∧
      c.expected.len ≤ c.expected.rawSyscallLinesSeen.toNat ∧
      c.observed.len ≤ c.observed.rawSyscallLinesSeen.toNat := by
  refine (buildTraceRun_returns hp hq hexpected).bind fun e ⟨hevents, hseen, hdigest⟩ => ?_
  refine (buildTraceRun_returns hp hq hobserved).bind fun o ⟨hevents', hseen', hdigest'⟩ => ?_
  refine Returns.pure ⟨?_, ?_, ?_⟩
  · show compareTraceRuns e o = _
    rw [compareTraceRuns, TraceRun.len, TraceRun.len, hevents, hevents', streamVerdict,
      length_fieldStream, length_fieldStream]
    simp only [ne_eq, hdigest.eq_iff hdigest']
    split_ifs <;> rfl
  · show e.events.length ≤ e.rawSyscallLinesSeen.toNat
    rw [hevents, hseen]
    exact length_eventsOf_le expectedLines
  · show o.events.length ≤ o.rawSyscallLinesSeen.toNat
    rw [hevents', hseen']
    exact length_eventsOf_le observedLines

/-- The comparison of two traces is the checkpoint verifier: its status is the
    verdict on checkpoints of the two field streams. So it sees nothing of the lines
    but the telemetry events in their order: lines that the parser drops, and what a
    kept line says besides its kind and its path, cannot change it. -/
theorem buildCase_verdict (hp : ModulusOk p) (hq : 0 < q.toNat)
    (hexpected : expectedLines.length < 2 ^ 64) (hobserved : observedLines.length < 2 ^ 64) :
    Returns (buildCase hash caseName expectedLines observedLines q p) fun c =>
      (∀ (streamId : String) (epoch startSeq : U64) (e o : TimeFenceCheckpoint),
        IsCheckpointOf streamId epoch startSeq q p (fieldStream hash p expectedLines) e →
        IsCheckpointOf streamId epoch startSeq q p (fieldStream hash p observedLines) o →
          c.status = statusText (verifyCheckpoint e o).status) ∧
      ((eventsOf expectedLines).map TraceEvent.event = (eventsOf observedLines).map TraceEvent.event →
        c.status = "CLEAN") ∧
      ((eventsOf expectedLines).length ≠ (eventsOf observedLines).length ↔
        c.status = "METADATA_MISMATCH_LENGTH") := by
  refine (buildCase_returns hp hq hexpected hobserved).mono fun c ⟨hstatus, _, _⟩ => ⟨?_, ?_, ?_⟩
  · intro streamId epoch startSeq e o he ho
    rw [hstatus, he.status_eq ho]
  · intro hevents
    have hstreams : fieldStream hash p expectedLines = fieldStream hash p observedLines := by
      have hmap := congrArg (List.map (fieldElement hash p)) hevents
      rwa [List.map_map, List.map_map] at hmap
    rw [hstatus, hstreams, streamVerdict_self]
    rfl
  · have hlength := streamVerdict_eq_length_iff q p (fieldStream hash p expectedLines)
      (fieldStream hash p observedLines)
    rw [length_fieldStream, length_fieldStream] at hlength
    rw [hstatus, ← hlength]
    rcases streamVerdict_cases q p (fieldStream hash p expectedLines)
      (fieldStream hash p observedLines) with h | h | h
    · simp [h, statusText]
    · simp [h, statusText]
    · simp [h, statusText]

/-- The destination of a connect call and the lines around it are not seen. -/
theorem buildCase_verdict_connect :
    Returns (buildCase (fun s => BitVec.ofNat 64 s.length) "demo"
      ["connect(3, 10.0.0.1) = 0", "+++ exited with 0 +++"]
      ["read(3) = 5", "[pid 7] connect(4, 198.51.100.10) = 0"] 7#128 1000000007#128)
      fun c => c.status = "CLEAN" := by
  refine (buildCase_verdict modulusOk_demo (by decide) (by decide) (by decide)).mono
    fun c h => h.2.1 ?_
  decide +kernel

/-! ## One edited line -/

/-- The value at the only position at which two streams can differ. -/
theorem streamVerdict_replace (hprime : p.toNat.Prime) (hq : q.toNat % p.toNat ≠ 0)
    (xs ys : List U128) (x y : U128) :
    streamVerdict q p (xs ++ x :: ys) (xs ++ y :: ys) =
      if x.toNat % p.toNat = y.toNat % p.toNat then .clean else .digestMismatch := by
  have hlen : (xs ++ x :: ys).length = (xs ++ y :: ys).length := by
    rw [List.length_append, List.length_append, List.length_cons, List.length_cons]
  have hat : ∀ z : U128, (xs ++ z :: ys).getD xs.length 0 = z := by
    intro z
    rw [List.getD_append_right _ _ _ _ le_rfl, Nat.sub_self, List.getD_cons_zero]
  have hother : ∀ i, i ≠ xs.length →
      (xs ++ x :: ys).getD i 0 = (xs ++ y :: ys).getD i 0 := by
    intro i hi
    rcases lt_or_gt_of_ne hi with hlt | hgt
    · rw [List.getD_append _ _ _ _ hlt, List.getD_append _ _ _ _ hlt]
    · obtain ⟨k, rfl⟩ : ∃ k, i = xs.length + (k + 1) := ⟨i - xs.length - 1, by omega⟩
      rw [List.getD_append_right _ _ _ _ (by omega), List.getD_append_right _ _ _ _ (by omega),
        Nat.add_sub_cancel_left, List.getD_cons_succ, List.getD_cons_succ]
  have hdiffers : ∀ i, DiffersAt p.toNat (xs ++ x :: ys) (xs ++ y :: ys) i → i = xs.length := by
    intro i hi
    by_contra hne
    exact hi (by rw [hother i hne])
  rw [streamVerdict, if_neg (not_not.mpr hlen)]
  by_cases hxy : x.toNat % p.toNat = y.toNat % p.toNat
  · have hsame : digestOf q p (xs ++ x :: ys) = digestOf q p (xs ++ y :: ys) := by
      refine digestOf_eq_of_forall_not q hlen fun i hi => hi ?_
      rw [hdiffers i hi, hat, hat, hxy]
    rw [if_neg (not_not.mpr hsame), if_pos hxy]
  · have hne : digestOf q p (xs ++ x :: ys) ≠ digestOf q p (xs ++ y :: ys) := by
      refine digestOf_ne_of_single hprime hq hlen ?_ hdiffers
      rw [DiffersAt, hat, hat]
      exact hxy
    rw [if_pos hne, if_neg hxy]

/-- What the parser makes of an optional line. -/
def eventOf (line : Option String) : Option TraceEvent := line.bind parseStraceLine

/-- The status after `old` was replaced by `new`, where `none` stands for no line. -/
def editStatus (hash : String → U64) (p : U128) (old new : Option String) : String :=
  match eventOf old, eventOf new with
  | none, none => "CLEAN"
  | some e, some e' =>
    if (hash e.event.canonicalString).toNat % p.toNat =
      (hash e'.event.canonicalString).toNat % p.toNat then "CLEAN"
    else "DIGEST_MISMATCH_SAME_LENGTH"
  | _, _ => "METADATA_MISMATCH_LENGTH"

theorem fieldStream_toList (hash : String → U64) (p : U128) (line : Option String) :
    fieldStream hash p line.toList =
      ((eventOf line).map fun event => fieldElement hash p event.event).toList := by
  cases line with
  | none => rfl
  | some line =>
    unfold fieldStream eventsOf eventOf
    cases hparse : parseStraceLine line with
    | none => simp [hparse]
    | some event => simp [hparse]

theorem toNat_fieldElement_mod (hash : String → U64) (p : U128) (e : TelemetryEvent) :
    (fieldElement hash p e).toNat % p.toNat = (hash e.canonicalString).toNat % p.toNat := by
  rw [fieldElement, BitVec.toNat_umod, U64.toNat_widen, Nat.mod_mod]

/-- Every edit of one line, anywhere in a trace of any length: a line that is
    inserted, deleted or replaced. An edit that changes whether there is an event is
    always seen, by the length; an edit of one event is always seen, by the digest,
    unless the hashes of the two canonical texts agree modulo `p`; and an edit of lines
    that the parser drops never is. -/
theorem buildCase_edit (hprime : p.toNat.Prime) (hle : p.toNat ≤ 2 ^ 64)
    (hq : q.toNat % p.toNat ≠ 0) (before after : List String) (old new : Option String)
    (hn : before.length + after.length + 1 < 2 ^ 64) :
    Returns (buildCase hash caseName (before ++ (old.toList ++ after))
      (before ++ (new.toList ++ after)) q p) fun c => c.status = editStatus hash p old new := by
  have hp : ModulusOk p := ⟨hprime.one_lt, hle⟩
  have hlen : ∀ line : Option String, (before ++ (line.toList ++ after)).length < 2 ^ 64 := by
    intro line
    have hline : line.toList.length ≤ 1 := by cases line <;> simp
    rw [List.length_append, List.length_append]
    omega
  refine (buildCase_returns hp (pos_of_mod_ne_zero hq) (hlen old) (hlen new)).mono
    fun c ⟨hstatus, _, _⟩ => ?_
  rw [hstatus, fieldStream_append, fieldStream_append, fieldStream_append, fieldStream_append,
    fieldStream_toList, fieldStream_toList, editStatus]
  cases eventOf old with
  | none =>
    cases eventOf new with
    | none =>
      show statusText (streamVerdict _ _ _ _) = _
      rw [streamVerdict_self]
      rfl
    | some e' =>
      rw [(streamVerdict_eq_length_iff q p _ _).mpr (by simp)]
      rfl
  | some e =>
    cases eventOf new with
    | none =>
      rw [(streamVerdict_eq_length_iff q p _ _).mpr (by simp)]
      rfl
    | some e' =>
      show statusText (streamVerdict q p
        (_ ++ fieldElement hash p e.event :: fieldStream hash p after)
        (_ ++ fieldElement hash p e'.event :: fieldStream hash p after)) = _
      rw [streamVerdict_replace hprime hq, toNat_fieldElement_mod, toNat_fieldElement_mod]
      dsimp only
      split_ifs <;> rfl

/-- Another executable in the second line, over `p = 101`. -/
theorem buildCase_edit_execve :
    Returns (buildCase (fun s => BitVec.ofNat 64 s.length) "demo"
      ["connect(3, 10.0.0.1) = 0", "execve(\"/bin/ls\")", "close(3)"]
      ["connect(3, 10.0.0.1) = 0", "execve(\"/bin/cat\")", "close(3)"] 7#128 101#128)
      fun c => c.status = "DIGEST_MISMATCH_SAME_LENGTH" := by
  have hprime : (101#128).toNat.Prime := by norm_num
  refine (buildCase_edit hprime (by decide) (by decide) ["connect(3, 10.0.0.1) = 0"] ["close(3)"]
    (some "execve(\"/bin/ls\")") (some "execve(\"/bin/cat\")") (by decide)).mono fun c h => ?_
  rw [h]
  decide +kernel

end Cases

end TimeFence.Trace
