import TimeFence.Common.SharedCounter
import TimeFence.Epbf.Collector
import TimeFence.Epbf.Kernel
import TimeFence.Epbf.Layout

/-!
# From the tracepoints to the digest

The whole live system: on every processor the tracepoint programs
(`timefence_epbf_ebpf/src/main.rs`) fire, write an event and hand it to the ring
buffer, which takes it or is full; the collector
(`timefence_epbf/src/main.rs`) takes the items on the other side. A failed output
is counted in a map of one entry (lines 57–73), which all processors share:
`*counter += 1` loads the entry and stores it again.

The firings on the processors, the two halves of an increment and the ticks of
the collector interleave in any order.

* `Reaches.userspace_run`: the collector sees a run of its own state machine, in
  which the memory of every event that the ring buffer took is delivered.
* `Reaches.counter_reaches`: the entry of the map is a shared counter.
* `pipeline_accounting`: no event is dropped or changed between the ring buffer
  and the digest.
* `pipeline_failures`: what the counter of failed outputs says.
-/

namespace TimeFence.Epbf

open TimeFence.Common TimeFence.Core

/-! ## Model -/

/-- `κ` are the processors. -/
structure System (κ : Type) where
  /-- The entry of `RINGBUF_OUTPUT_FAILURES`, and how far each processor has come
      with its increment. -/
  failures : SharedCounter κ 64
  /-- The ring buffer and the collector. -/
  userspace : State

/-- What can happen next. -/
inductive Label (κ : Type) where
  /-- A tracepoint fires on a processor. The padding of the event is `pad`, and
      `taken` tells whether the ring buffer takes it. -/
  | fire (k : κ) (tracepoint : Tracepoint) (ctx : Context) (pad : Vector U8 4) (taken : Bool)
  /-- The load of `*counter += 1`. -/
  | load (k : κ)
  /-- Its store. -/
  | store (k : κ)
  /-- The collector runs to its next point. -/
  | tick

section Model

variable {κ : Type} [DecidableEq κ]

/-- `count_ringbuf_output_failure` (lines 57–63), up to the load: the map has the
    key 0 only, and no other key has a counter. -/
inductive CountFailure (key : U32) (k : κ) : SharedCounter κ 64 → SharedCounter κ 64 → Prop
  | counter {c c' : SharedCounter κ 64} : key.toNat < 1 → c.Step (.request k) c' →
      CountFailure key k c c'
  | missing {c : SharedCounter κ 64} : ¬ key.toNat < 1 → CountFailure key k c c

/-- One step. A processor runs one tracepoint program at a time. -/
inductive System.Step (hash : String → U64) (key : U32) : System κ → Label κ → System κ → Prop
  /-- The program ends before `emit_event`. -/
  | ended {s : System κ} {k : κ} {tracepoint : Tracepoint} {ctx : Context} {pad : Vector U8 4}
      {taken : Bool} {code : U32} :
      s.failures.point k = .idle → tracepoint.handler ctx = .ok (.error code) →
      Step hash key s (.fire k tracepoint ctx pad taken) s
  /-- `EVENTS.output` takes the event (line 67). -/
  | output {s : System κ} {k : κ} {tracepoint : Tracepoint} {ctx : Context} {pad : Vector U8 4}
      {ev : RawKernelEvent} {userspace : State} :
      s.failures.point k = .idle → tracepoint.handler ctx = .ok (.ok ev) →
      s.userspace.step hash (.deliver (ev.toBytes pad)) = .ok userspace →
      Step hash key s (.fire k tracepoint ctx pad true) { s with userspace }
  /-- It does not (lines 68–71). -/
  | full {s : System κ} {k : κ} {tracepoint : Tracepoint} {ctx : Context} {pad : Vector U8 4}
      {ev : RawKernelEvent} {failures : SharedCounter κ 64} :
      s.failures.point k = .idle → tracepoint.handler ctx = .ok (.ok ev) →
      CountFailure key k s.failures failures →
      Step hash key s (.fire k tracepoint ctx pad false) { s with failures }
  | load {s : System κ} {k : κ} {failures : SharedCounter κ 64} :
      s.failures.Step (.load k) failures → Step hash key s (.load k) { s with failures }
  | store {s : System κ} {k : κ} {failures : SharedCounter κ 64} :
      s.failures.Step (.store k) failures → Step hash key s (.store k) { s with failures }
  | tick {s : System κ} {userspace : State} :
      s.userspace.step hash .tick = .ok userspace → Step hash key s .tick { s with userspace }

/-- `s` is the system after these steps. -/
inductive System.Reaches (hash : String → U64) (key : U32) : List (Label κ) → System κ → Prop
  | init {collector : Collector} : Collector.init = .ok collector →
      Reaches hash key [] ⟨SharedCounter.init,
        { point := .outer, collector, pending := [], consumed := [] }⟩
  | step {labels : List (Label κ)} {s s' : System κ} {l : Label κ} :
      Reaches hash key labels s → System.Step hash key s l s' → Reaches hash key (labels ++ [l]) s'

end Model

/-! ## What the steps say -/

section Labels

variable {κ : Type}

/-- The event that a firing hands to the ring buffer, whether it is taken, and its
    padding. -/
def Label.output? : Label κ → Option (RawKernelEvent × Vector U8 4 × Bool)
  | .fire _ tracepoint ctx pad taken =>
    match tracepoint.handler ctx with
    | .ok (.ok ev) => some (ev, pad, taken)
    | _ => none
  | _ => none

/-- What the collector sees of a step. -/
def Label.action? : Label κ → Option Action
  | .tick => some .tick
  | l =>
    match l.output? with
    | some (ev, pad, true) => some (.deliver (ev.toBytes pad))
    | _ => none

/-- What the counter sees of a step. -/
def Label.counterAction? : Label κ → Option (CounterAction κ)
  | .load k => some (.load k)
  | .store k => some (.store k)
  | .fire k tracepoint ctx pad taken =>
    match (Label.fire k tracepoint ctx pad taken).output? with
    | some (_, _, false) => some (.request k)
    | _ => none
  | .tick => none

/-- The events that the ring buffer took, in their order. -/
def taken (labels : List (Label κ)) : List RawKernelEvent :=
  labels.filterMap fun l => match l.output? with
    | some (ev, _, true) => some ev
    | _ => none

/-- The events that it did not take. -/
def lost (labels : List (Label κ)) : List RawKernelEvent :=
  labels.filterMap fun l => match l.output? with
    | some (ev, _, false) => some ev
    | _ => none

end Labels

section Labels

variable {κ : Type} {labels : List (Label κ)} {l : Label κ}

theorem lost_concat : lost (labels ++ [l]) = lost labels ++ lost [l] := by
  rw [lost, List.filterMap_append]
  rfl

/-- The items that the steps deliver are the memories of the events that were
    taken. -/
theorem parse_delivered (labels : List (Label κ)) :
    (delivered (labels.filterMap Label.action?)).filterMap parseRawKernelEvent = taken labels ∧
      (delivered (labels.filterMap Label.action?)).length = (taken labels).length := by
  induction labels with
  | nil => exact ⟨rfl, rfl⟩
  | cons l labels ih =>
    obtain ⟨hparse, hlen⟩ := ih
    unfold taken delivered at hparse hlen ⊢
    cases l with
    | fire k tracepoint ctx pad took =>
      cases houtput : (Label.fire k tracepoint ctx pad took).output? with
      | none => simpa [List.filterMap_cons, Label.action?, houtput] using ⟨hparse, hlen⟩
      | some r =>
        obtain ⟨ev, pad', took'⟩ := r
        cases took' with
        | false => simpa [List.filterMap_cons, Label.action?, houtput] using ⟨hparse, hlen⟩
        | true =>
          have hround := parseRawKernelEvent_toBytes ev pad' []
          rw [List.append_nil] at hround
          simpa [List.filterMap_cons, Label.action?, houtput, hround] using ⟨hparse, hlen⟩
    | load k => simpa [List.filterMap_cons, Label.action?, Label.output?] using ⟨hparse, hlen⟩
    | store k => simpa [List.filterMap_cons, Label.action?, Label.output?] using ⟨hparse, hlen⟩
    | tick => simpa [List.filterMap_cons, Label.action?, Label.output?] using ⟨hparse, hlen⟩

/-- Every failed output owes an increment. -/
theorem requests_counterAction (labels : List (Label κ)) :
    SharedCounter.requests (labels.filterMap Label.counterAction?) = (lost labels).length := by
  induction labels with
  | nil => rfl
  | cons l labels ih =>
    unfold lost SharedCounter.requests at ih ⊢
    cases l with
    | fire k tracepoint ctx pad took =>
      cases houtput : (Label.fire k tracepoint ctx pad took).output? with
      | none => simpa [List.filterMap_cons, Label.counterAction?, houtput] using ih
      | some r =>
        obtain ⟨ev, pad', took'⟩ := r
        cases took' with
        | true => simpa [List.filterMap_cons, Label.counterAction?, houtput] using ih
        | false =>
          simpa [List.filterMap_cons, Label.counterAction?, houtput, List.countP_cons,
            SharedCounter.isRequest] using ih
    | load k =>
      simpa [List.filterMap_cons, Label.counterAction?, Label.output?, List.countP_cons,
        SharedCounter.isRequest] using ih
    | store k =>
      simpa [List.filterMap_cons, Label.counterAction?, Label.output?, List.countP_cons,
        SharedCounter.isRequest] using ih
    | tick => simpa [List.filterMap_cons, Label.counterAction?, Label.output?] using ih

end Labels

/-! ## Steps -/

section Steps

variable {κ : Type} [DecidableEq κ] {hash : String → U64} {key : U32} {labels : List (Label κ)}
  {s s' : System κ} {l : Label κ}

/-- A step is at most one step of the collector. -/
theorem System.Step.userspace_step (h : System.Step hash key s l s') :
    [l].filterMap Label.action? = [] ∧ s'.userspace = s.userspace ∨
      ∃ a, [l].filterMap Label.action? = [a] ∧ s.userspace.step hash a = .ok s'.userspace := by
  cases h with
  | ended hidle hhandler =>
    refine .inl ⟨?_, rfl⟩
    simp [Label.action?, Label.output?, hhandler]
  | output hidle hhandler hdeliver =>
    refine .inr ⟨_, ?_, hdeliver⟩
    simp [Label.action?, Label.output?, hhandler]
  | full hidle hhandler hcount =>
    refine .inl ⟨?_, rfl⟩
    simp [Label.action?, Label.output?, hhandler]
  | load hload => exact .inl ⟨rfl, rfl⟩
  | store hstore => exact .inl ⟨rfl, rfl⟩
  | tick htick => exact .inr ⟨.tick, rfl, htick⟩

/-- A step is at most one step of the counter. -/
theorem System.Step.counter_step (hkey : key.toNat < 1) (h : System.Step hash key s l s') :
    [l].filterMap Label.counterAction? = [] ∧ s'.failures = s.failures ∨
      ∃ a, [l].filterMap Label.counterAction? = [a] ∧ s.failures.Step a s'.failures := by
  cases h with
  | ended hidle hhandler =>
    refine .inl ⟨?_, rfl⟩
    simp [Label.counterAction?, Label.output?, hhandler]
  | output hidle hhandler hdeliver =>
    refine .inl ⟨?_, rfl⟩
    simp [Label.counterAction?, Label.output?, hhandler]
  | full hidle hhandler hcount =>
    cases hcount with
    | counter _ hrequest =>
      refine .inr ⟨_, ?_, hrequest⟩
      simp [Label.counterAction?, Label.output?, hhandler]
    | missing hmissing => exact absurd hkey hmissing
  | load hload => exact .inr ⟨_, rfl, hload⟩
  | store hstore => exact .inr ⟨_, rfl, hstore⟩
  | tick htick => exact .inl ⟨rfl, rfl⟩

/-- Only a failed output begins an increment. -/
theorem System.Step.failures_eq {k : κ} {tracepoint : Tracepoint} {ctx : Context}
    {pad : Vector U8 4} (h : System.Step hash key s (.fire k tracepoint ctx pad true) s') :
    s'.failures = s.failures := by
  cases h with
  | ended => rfl
  | output => rfl

/-- The collector of the system runs as the collector alone does, on the items
    that are delivered to it. -/
theorem System.Reaches.userspace_run (h : System.Reaches hash key labels s) :
    run hash (labels.filterMap Label.action?) = .ok s.userspace := by
  induction h with
  | init hinit =>
    rw [List.filterMap_nil, run, hinit, ok_bind]
    rfl
  | @step labels s s' l hreach hstep ih =>
    rw [List.filterMap_append, run_append, ih, ok_bind]
    rcases hstep.userspace_step with ⟨hnone, hsame⟩ | ⟨a, ha, hstep⟩
    · rw [hnone, hsame]
      rfl
    · rw [ha, List.foldlM_cons, hstep, ok_bind]
      rfl

/-- The entry of the map is a shared counter. -/
theorem System.Reaches.counter_reaches (hkey : key.toNat < 1)
    (h : System.Reaches hash key labels s) :
    SharedCounter.Reaches (labels.filterMap Label.counterAction?) s.failures := by
  induction h with
  | init => exact .init
  | @step labels s s' l hreach hstep ih =>
    rw [List.filterMap_append]
    rcases hstep.counter_step hkey with ⟨hnone, hsame⟩ | ⟨a, ha, hstep⟩
    · rw [hnone, hsame, List.append_nil]
      exact ih
    · rw [ha]
      exact ih.step hstep

end Steps

/-! ## Progress -/

section Progress

variable {κ : Type} [DecidableEq κ] {hash : String → U64} {key : U32} {labels : List (Label κ)}
  {s : System κ}

theorem System.exists_init (κ : Type) [DecidableEq κ] (hash : String → U64) (key : U32) :
    ∃ s : System κ, System.Reaches hash key [] s ∧ s.failures = SharedCounter.init := by
  have hrun : Returns (run hash []) fun s => s.Inv hash (delivered []) :=
    run_returns (by norm_num)
  obtain ⟨s, hs, -⟩ := hrun
  obtain ⟨collector, hcollector, -⟩ := bind_eq_ok_iff.mp hs
  exact ⟨_, .init hcollector, rfl⟩

/-- The programs of the tracepoints do not panic. -/
theorem Tracepoint.handler_returns (tracepoint : Tracepoint) (ctx : Context) :
    Returns (tracepoint.handler ctx) fun _ => True := by
  cases tracepoint with
  | execve =>
    show Returns (tryExecve ctx) fun _ => True
    unfold tryExecve
    exact Returns.pure trivial
  | openat =>
    show Returns (tryOpenat ctx) fun _ => True
    unfold tryOpenat
    cases ctx.readAt with
    | none => exact Returns.pure trivial
    | some ptr =>
      dsimp only
      split_ifs
      · exact Returns.pure trivial
      · exact Returns.pure trivial
  | connect =>
    show Returns (tryConnect ctx) fun _ => True
    cases hread : ctx.readAt with
    | none =>
      unfold tryConnect
      rw [hread]
      exact Returns.pure trivial
    | some ptr => exact (tryConnect_written hread).mono fun _ _ => trivial

theorem CountFailure.exists {c : SharedCounter κ 64} {k : κ} (hidle : c.point k = .idle) :
    ∃ c', CountFailure key k c c' := by
  by_cases hkey : key.toNat < 1
  · exact ⟨_, .counter hkey (.request hidle)⟩
  · exact ⟨_, .missing hkey⟩

/-- A firing on an idle processor ends, whatever the helpers return and whether or
    not the ring buffer takes the event. -/
theorem System.exists_fire {k : κ} (hidle : s.failures.point k = .idle) (tracepoint : Tracepoint)
    (ctx : Context) (pad : Vector U8 4) (took : Bool) :
    ∃ s', System.Step hash key s (.fire k tracepoint ctx pad took) s' := by
  obtain ⟨r, hhandler, -⟩ := tracepoint.handler_returns ctx
  cases r with
  | error code => exact ⟨s, .ended hidle hhandler⟩
  | ok ev =>
    cases took with
    | true => exact ⟨_, .output hidle hhandler rfl⟩
    | false =>
      obtain ⟨c', hc'⟩ : ∃ c', CountFailure key k s.failures c' := CountFailure.exists hidle
      exact ⟨_, .full hidle hhandler hc'⟩

/-- A firing of `execve` with an event whose texts are empty. -/
def execFire {κ : Type} (k : κ) (taken : Bool) : Label κ :=
  .fire k .execve ⟨0#64, 0#64, 0#64, none, none, Vector.replicate 128 0#8, none⟩
    (Vector.replicate 4 0#8) taken

/-- A full ring buffer loses that event. -/
theorem System.step_execFire_false (hkey : key.toNat < 1) {k : κ}
    (hidle : s.failures.point k = .idle) :
    System.Step hash key s (execFire k false)
      { s with failures := ⟨s.failures.value, Function.update s.failures.point k .requested⟩ } :=
  .full hidle rfl (.counter hkey (.request hidle))

/-- The collector runs on. (The counter of skipped events is checked, hence the
    bound on the number of steps.) -/
theorem System.Reaches.exists_tick (h : System.Reaches hash key labels s)
    (hn : labels.length + 1 < 2 ^ 64) : ∃ s', System.Step hash key s .tick s' := by
  have hinv := run_inv h.userspace_run
  have hconsumed := congrArg List.length hinv.delivered_eq
  have hdelivered := length_delivered_le (labels.filterMap Label.action?)
  have hactions := List.length_filterMap_le Label.action? labels
  have hskipped := length_skippedOf_le s.userspace.consumed
  rw [List.length_append] at hconsumed
  obtain ⟨userspace, htick, -⟩ := State.step_returns hinv (by omega) .tick
  exact ⟨_, .tick htick⟩

/-- The collector can run on any number of times. -/
theorem System.Reaches.exists_ticks (h : System.Reaches hash key labels s) {n : ℕ}
    (hn : labels.length + n < 2 ^ 64) :
    ∃ s', System.Reaches hash key (labels ++ List.replicate n .tick) s' := by
  induction n with
  | zero => exact ⟨s, by simpa using h⟩
  | succ n ih =>
    obtain ⟨s', hs'⟩ := ih (by omega)
    have hlen : (labels ++ List.replicate n (.tick : Label κ)).length + 1 < 2 ^ 64 := by
      rw [List.length_append, List.length_replicate]
      omega
    obtain ⟨s'', htick⟩ := hs'.exists_tick hlen
    refine ⟨s'', ?_⟩
    rw [List.replicate_succ', ← List.append_assoc]
    exact hs'.step htick

/-- No party of the system can be stuck or panic, in whatever order the steps come:
    the collector can run on, an idle processor can run every tracepoint program to
    its end, and a processor that has begun to count can finish. -/
theorem pipeline_progress (h : System.Reaches hash key labels s)
    (hn : labels.length + 1 < 2 ^ 64) :
    (∃ s', System.Step hash key s .tick s') ∧
    (∀ k, s.failures.point k = .idle → ∀ tracepoint ctx pad took,
      ∃ s', System.Step hash key s (.fire k tracepoint ctx pad took) s') ∧
    (∀ k, s.failures.point k = .requested → ∃ s', System.Step hash key s (.load k) s') ∧
    ∀ k v, s.failures.point k = .loaded v → ∃ s', System.Step hash key s (.store k) s' := by
  refine ⟨h.exists_tick hn, fun k hidle => ?_, fun k hk => ?_, fun k v hk => ?_⟩
  · exact fun tracepoint ctx pad took => System.exists_fire hidle tracepoint ctx pad took
  · exact ⟨_, .load (.load hk)⟩
  · exact ⟨_, .store (.store hk)⟩

/-- The ring buffer is full when the first of two processors fires. That processor can
    load the counter, and store it after that; the other one can fire at the same time,
    and the collector can run on. -/
theorem pipeline_progress_lost : ∃ s loaded : System (Fin 2),
    System.Reaches (fun _ => 5#64) 0#32 [execFire 0 false] s ∧
      System.Step (fun _ => 5#64) 0#32 s (.load 0) loaded ∧
      (∃ s', System.Step (fun _ => 5#64) 0#32 loaded (.store 0) s') ∧
      (∃ s', System.Step (fun _ => 5#64) 0#32 loaded (execFire 1 true) s') ∧
      ∃ s', System.Step (fun _ => 5#64) 0#32 loaded .tick s' := by
  obtain ⟨s₀, hs₀, hinit⟩ := System.exists_init (Fin 2) (fun _ => 5#64) 0#32
  have hidle : s₀.failures.point 0 = .idle := by rw [hinit]; rfl
  have hother : s₀.failures.point 1 = .idle := by rw [hinit]; rfl
  have hlost := hs₀.step (System.step_execFire_false (by decide) hidle)
  obtain ⟨-, -, hloads, -⟩ := pipeline_progress hlost (by norm_num)
  obtain ⟨loaded, hload⟩ := hloads 0 (by simp)
  have hpoints : loaded.failures.point 0 = .loaded s₀.failures.value ∧
      loaded.failures.point 1 = .idle := by
    cases hload with
    | load h =>
      cases h with
      | load _ => exact ⟨by simp, by simp [hother]⟩
  obtain ⟨htick, hfires, -, hstores⟩ := pipeline_progress (hlost.step hload) (by norm_num)
  exact ⟨_, loaded, hlost, hload, hstores 0 _ hpoints.1, hfires 1 hpoints.2 _ _ _ _, htick⟩

end Progress

/-! ## The accounting -/

section Accounting

variable {κ : Type} [DecidableEq κ] {hash : String → U64} {key : U32} {labels : List (Label κ)}
  {s : System κ}

/-- What a maintainer may rely on at every point of every interleaving, for any
    number of processors. The collector has taken a prefix of the events that the
    ring buffer took, each parsed to the very event that a tracepoint wrote; every
    one of them is counted, as kept or as skipped, and no more than thirty are kept;
    and the accumulator is that of the field elements of those of them that pass the
    filter, in the order in which they were handed over. -/
theorem pipeline_accounting (h : System.Reaches hash key labels s) :
    ∃ n ≤ (taken labels).length,
      s.userspace.consumed.filterMap parseRawKernelEvent = (taken labels).take n ∧
      s.userspace.consumed.length = n ∧
      s.userspace.pending.filterMap parseRawKernelEvent = (taken labels).drop n ∧
      s.userspace.collector.keptEvents.toNat ≤ 30 ∧
      s.userspace.collector.keptEvents.toNat + s.userspace.collector.skippedEvents.toNat = n ∧
      s.userspace.collector.keptEvents.toNat =
        (((taken labels).take n).filter shouldKeepEvent).length ∧
      ∃ xs : List U128,
        ((((taken labels).take n).filter shouldKeepEvent).mapM fun raw =>
          (rawEventToTelemetry raw).toFieldElement hash p) = .ok xs ∧
        ksentryFast xs q p = .ok s.userspace.collector.ks := by
  have hinv := run_inv h.userspace_run
  obtain ⟨hparse, hlen⟩ := parse_delivered labels
  obtain ⟨xs, records, hholds⟩ := hinv.holds
  rw [hinv.delivered_eq] at hparse hlen
  rw [List.filterMap_append] at hparse
  rw [List.length_append] at hlen
  -- Every item parses, as there are no more items than events.
  have hconsumed := List.length_filterMap_le parseRawKernelEvent s.userspace.consumed
  have hpending := List.length_filterMap_le parseRawKernelEvent s.userspace.pending
  have htotal := congrArg List.length hparse
  rw [List.length_append] at htotal
  have hall : (s.userspace.consumed.filterMap parseRawKernelEvent).length =
      s.userspace.consumed.length := by omega
  have htake : s.userspace.consumed.filterMap parseRawKernelEvent =
      (taken labels).take s.userspace.consumed.length := by
    rw [← hparse, List.take_left' hall]
  have hdrop : s.userspace.pending.filterMap parseRawKernelEvent =
      (taken labels).drop s.userspace.consumed.length := by
    rw [← hparse, List.drop_left' hall]
  have hkept : keptOf s.userspace.consumed =
      ((taken labels).take s.userspace.consumed.length).filter shouldKeepEvent := by
    rw [keptOf, htake]
  have hsplit : (keptOf s.userspace.consumed).length + (skippedOf s.userspace.consumed).length =
      s.userspace.consumed.length := by
    rw [← hall, keptOf, skippedOf]
    exact (List.length_eq_length_filter_add _).symm
  refine ⟨s.userspace.consumed.length, by omega, htake, rfl, hdrop, hinv.kept_le, ?_, ?_, xs, ?_,
    hholds.ks_eq⟩
  · rw [hholds.kept_eq, hinv.skipped_eq, hsplit]
  · rw [hholds.kept_eq, hkept]
  · rw [← hkept]
    exact hholds.elements

/-- A connect call to `8.8.8.8:53`. -/
def dnsFire (k : Fin 2) : Label (Fin 2) :=
  .fire k .connect ⟨0#64, 0#64, 5#64, none, some 8#64, Vector.replicate 128 0#8,
    some ⟨2#16, 0x3500#16, 0x08080808#32⟩⟩ (Vector.replicate 4 7#8) true

/-- That call on the second of two processors, an `execve` on the first one whose event
    does not pass the filter, and the ticks in which the collector takes both. -/
def dnsLabels : List (Label (Fin 2)) :=
  [dnsFire 1, execFire 0 true] ++ List.replicate 4 .tick

theorem exists_dnsLabels (hash : String → U64) :
    ∃ s : System (Fin 2), System.Reaches hash 0#32 dnsLabels s := by
  obtain ⟨s₀, hs₀, hinit⟩ := System.exists_init (Fin 2) hash 0#32
  have hidle : s₀.failures.point 1 = .idle := by rw [hinit]; rfl
  have hother : s₀.failures.point 0 = .idle := by rw [hinit]; rfl
  obtain ⟨s₁, hconnect⟩ : ∃ s₁, System.Step hash 0#32 s₀ (dnsFire 1) s₁ :=
    System.exists_fire hidle _ _ _ _
  obtain ⟨s₂, hexec⟩ : ∃ s₂, System.Step hash 0#32 s₁ (execFire 0 true) s₂ :=
    System.exists_fire (by rw [hconnect.failures_eq]; exact hother) _ _ _ _
  exact ((hs₀.step hconnect).step hexec).exists_ticks (by norm_num)

/-- One of the two events is kept, and one is skipped. -/
theorem pipeline_accounting_dns :
    ∃ s : System (Fin 2), System.Reaches (fun _ => 5#64) 0#32 dnsLabels s ∧
      s.userspace.collector.keptEvents = 1#64 ∧ s.userspace.collector.skippedEvents = 1#64 ∧
      s.userspace.consumed.filterMap parseRawKernelEvent = taken dnsLabels ∧
      ((taken dnsLabels).filter shouldKeepEvent).length = 1 := by
  obtain ⟨s, hs⟩ := exists_dnsLabels fun _ => 5#64
  have hcounts : (run (fun _ => 5#64) (dnsLabels.filterMap Label.action?)).map
      (fun s => (s.collector.keptEvents, s.collector.skippedEvents)) = .ok (1#64, 1#64) := by
    decide +kernel
  rw [hs.userspace_run] at hcounts
  obtain ⟨hkept, hskipped⟩ := Prod.ext_iff.mp (Except.ok.inj hcounts)
  dsimp only at hkept hskipped
  obtain ⟨n, -, hconsumed, -, -, -, htwo, hcount, -⟩ := pipeline_accounting hs
  rw [hkept, hskipped] at htwo
  rw [hkept] at hcount
  have hall : (taken dnsLabels).take n = taken dnsLabels := by
    rw [← htwo]
    exact List.take_of_length_le (show (taken dnsLabels).length ≤ 2 by decide +kernel)
  rw [hall] at hconsumed hcount
  exact ⟨s, hs, hkept, hskipped, hconsumed, hcount.symm⟩

end Accounting

/-! ## The counter of failed outputs -/

section Failures

variable {κ : Type} [DecidableEq κ] {hash : String → U64} {key : U32}

/-- Every run of the counter is the counter of a run of the system. -/
theorem System.exists_of_counter (hkey : key.toNat < 1) {actions : List (CounterAction κ)}
    {c : SharedCounter κ 64} (h : SharedCounter.Reaches actions c) :
    ∃ (labels : List (Label κ)) (s : System κ), System.Reaches hash key labels s ∧
      s.failures = c ∧ (lost labels).length = SharedCounter.requests actions := by
  induction h with
  | init =>
    obtain ⟨s, hs, hfailures⟩ := System.exists_init κ hash key
    exact ⟨[], s, hs, hfailures, rfl⟩
  | @step actions c c' a hreach hstep ih =>
    obtain ⟨labels, s, hs, rfl, hlost⟩ := ih
    rw [SharedCounter.requests_concat, ← hlost]
    cases hstep with
    | @request k hidle =>
      refine ⟨_, _, hs.step (System.step_execFire_false hkey hidle), rfl, ?_⟩
      rw [lost_concat, List.length_append]
      rfl
    | @load k hk =>
      refine ⟨_, _, hs.step (.load (.load hk)), rfl, ?_⟩
      rw [lost_concat, List.length_append]
      rfl
    | @store k v hk =>
      refine ⟨_, _, hs.step (.store (.store hk)), rfl, ?_⟩
      rw [lost_concat, List.length_append]
      rfl

/-- What the counter of failed outputs says when its key names the entry of the map.
    It never reports more than were lost, and falls behind by the increments under
    way and by those that two processors made over each other. It reports every loss
    once no increment is under way, in every run, exactly when there are no two
    processors. -/
theorem pipeline_failures [Fintype κ] (hash : String → U64) (hkey : key.toNat < 1) :
    (∀ (labels : List (Label κ)) (s : System κ), System.Reaches hash key labels s →
      s.failures.value.toNat + s.failures.busy.card ≤ (lost labels).length) ∧
    ((∀ (labels : List (Label κ)) (s : System κ), System.Reaches hash key labels s →
      s.failures.Quiet → s.failures.value = BitVec.ofNat 64 (lost labels).length) ↔
        Subsingleton κ) := by
  refine ⟨fun labels s hs => ?_, fun hexact => ⟨fun k l => ?_⟩, fun hκ labels s hs hquiet => ?_⟩
  · have hreach := hs.counter_reaches hkey
    have hle := hreach.le_stores.1
    rw [← requests_counterAction, hreach.requests_eq]
    omega
  · -- Two processors can make one increment over the other.
    by_contra hne
    obtain ⟨actions, c, hc, hquiet, htwo, hone⟩ := SharedCounter.exists_lost (w := 64) hne
    obtain ⟨labels, s, hs, rfl, hlost⟩ : ∃ labels s, System.Reaches hash key labels s ∧ _ :=
      System.exists_of_counter hkey hc
    have hcount := hexact labels s hs hquiet
    rw [hone, hlost, htwo] at hcount
    exact absurd hcount (by decide)
  · have hreach := hs.counter_reaches hkey
    have hstores := hreach.requests_eq
    rw [SharedCounter.busy_eq_empty_iff.mpr hquiet, Finset.card_empty, Nat.add_zero] at hstores
    have hexclusive : ∀ (pre : List (CounterAction κ)) (t : SharedCounter κ 64),
        pre <+: labels.filterMap Label.counterAction? → SharedCounter.Reaches pre t →
          t.Exclusive := fun pre t _ _ k l _ _ _ _ => Subsingleton.elim k l
    rw [← requests_counterAction, hstores]
    exact (hreach.eq_of_exclusive hexclusive).1

/-- Two processors. -/
theorem pipeline_failures_two : ¬ ∀ (labels : List (Label (Fin 2))) (s : System (Fin 2)),
    System.Reaches (fun _ => 5#64) 0#32 labels s → s.failures.Quiet →
      s.failures.value = BitVec.ofNat 64 (lost labels).length := by
  rw [(pipeline_failures (fun _ => 5#64) (by decide)).2, not_subsingleton_iff_nontrivial]
  infer_instance

end Failures

end TimeFence.Epbf
