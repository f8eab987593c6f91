import TimeFence.Common.Ends
import TimeFence.Core.KSentry
import TimeFence.Epbf.Event

/-!
# The live collector

Model of the loop in `main` of the live collector (`timefence_epbf/src/main.rs`,
lines 184–303): two nested loops take items from a ring buffer, drop those that
do not parse, count those that do not pass the filter, and feed the others to a
K-Sentry accumulator, until thirty events are kept.

The loops are a state machine. A `tick` runs the program to its next point: the
conditions of the two loops, and the test behind each kept event. Between ticks
the kernel delivers items to the ring buffer. The state remembers the items that
have been consumed, so that the counters can be compared with them.

* `onItem_cases`, `tick_cases`: everything that one item can do to the variables,
  and everything that one tick can do.
* `State.Inv`: the invariant of the loop. `step_inv` shows that every step keeps
  it, and `run_inv` that it holds at every point of every run.
* `run_accounting`: what the variables say about the consumed items.
* `step_returns`: the loop does not panic, up to `2^64` skipped events.
-/

namespace TimeFence.Epbf

open TimeFence.Common TimeFence.Core

/-! ## Model -/

/-- The parameters of the accumulator (lines 184–185). -/
def q : U128 := 7#128

def p : U128 := 1000000007#128

/-- `struct LiveEventRecord` (lines 21–31). -/
structure LiveEventRecord where
  eventType : String
  pid : U32
  uid : U32
  timestampNs : U64
  comm : String
  target : String
  fieldElement : U128
  digestAfter : U128
  deriving DecidableEq, Repr

/-- The variables of the loop (lines 187–193). -/
structure Collector where
  ks : KSentry
  keptEvents : U64
  skippedEvents : U64
  firstEvents : List LiveEventRecord
  lastEvents : List LiveEventRecord
  deriving DecidableEq, Repr

def Collector.init : Exec Collector := do
  let ks ← KSentry.new q p
  pure { ks, keptEvents := 0#64, skippedEvents := 0#64, firstEvents := [], lastEvents := [] }

/-- The record of a kept event (lines 250–269). -/
def liveEventRecord (raw : RawKernelEvent) (x digest : U128) : LiveEventRecord :=
  let rawTarget := bytesToString raw.target.toList
  { eventType := eventTypeName raw.eventType
    pid := raw.pid
    uid := raw.uid
    timestampNs := raw.timestampNs
    comm := bytesToString raw.comm.toList
    target := if rawTarget.isEmpty then "<empty>" else rawTarget
    fieldElement := x
    digestAfter := digest }

/-- An event that passes the filter (lines 244–279). -/
def Collector.keep (hash : String → U64) (c : Collector) (raw : RawKernelEvent) :
    Exec Collector := do
  let x ← (rawEventToTelemetry raw).toFieldElement hash p
  let ks ← c.ks.update x
  let keptEvents ← checkedAdd c.keptEvents 1#64
  let record := liveEventRecord raw x ks.digest
  let firstEvents :=
    if c.firstEvents.length < 5 then c.firstEvents ++ [record] else c.firstEvents
  let lastEvents := if c.lastEvents.length = 5 then c.lastEvents.tail else c.lastEvents
  pure { ks, keptEvents, skippedEvents := c.skippedEvents, firstEvents,
         lastEvents := lastEvents ++ [record] }

/-- An item of the ring buffer (lines 238–279), and whether its event was kept. -/
def Collector.onItem (hash : String → U64) (c : Collector) (item : List U8) :
    Exec (Collector × Bool) :=
  match parseRawKernelEvent item with
  | none => pure (c, false)
  | some raw =>
    if ¬ shouldKeepEvent raw then do
      let skippedEvents ← checkedAdd c.skippedEvents 1#64
      pure ({ c with skippedEvents }, false)
    else do
      let c ← c.keep hash raw
      pure (c, true)

/-- Where the program stands. -/
inductive Point where
  /-- The condition of the outer loop (line 236). -/
  | outer
  /-- The condition of the inner loop (line 237), which takes an item. -/
  | inner
  /-- The test behind a kept event (line 296). -/
  | kept
  /-- Behind the loops. -/
  | done
  deriving DecidableEq, Repr

structure State where
  point : Point
  collector : Collector
  /-- The items in the ring buffer, oldest first. -/
  pending : List (List U8)
  /-- The items taken from it, oldest first. -/
  consumed : List (List U8)
  deriving DecidableEq, Repr

/-- The program runs to its next point. An empty ring buffer ends the inner
    loop, and the outer loop sleeps and tests its condition again. -/
def State.tick (hash : String → U64) (s : State) : Exec State :=
  match s.point with
  | .outer => pure { s with point := if s.collector.keptEvents < 30#64 then .inner else .done }
  | .inner =>
    match s.pending with
    | [] => pure { s with point := .outer }
    | item :: pending => do
      let (collector, kept) ← s.collector.onItem hash item
      pure { point := if kept then .kept else .inner, collector, pending,
             consumed := s.consumed ++ [item] }
  | .kept => pure { s with point := if 30#64 ≤ s.collector.keptEvents then .outer else .inner }
  | .done => pure s

/-- What can happen next. -/
inductive Action where
  | deliver (item : List U8)
  | tick
  deriving DecidableEq, Repr

def State.step (hash : String → U64) (s : State) : Action → Exec State
  | .deliver item => pure { s with pending := s.pending ++ [item] }
  | .tick => s.tick hash

/-- The state after these actions. -/
def run (hash : String → U64) (actions : List Action) : Exec State := do
  let collector ← Collector.init
  actions.foldlM (State.step hash) { point := .outer, collector, pending := [], consumed := [] }

/-! ## What the items say -/

/-- The events that pass the filter, in the order of the items. -/
def keptOf (items : List (List U8)) : List RawKernelEvent :=
  (items.filterMap parseRawKernelEvent).filter shouldKeepEvent

/-- The events that do not. -/
def skippedOf (items : List (List U8)) : List RawKernelEvent :=
  (items.filterMap parseRawKernelEvent).filter fun raw => !shouldKeepEvent raw

/-- The items that these actions deliver. -/
def delivered (actions : List Action) : List (List U8) :=
  actions.filterMap fun
    | .deliver item => some item
    | .tick => none

section Items

variable {items : List (List U8)} {item : List U8}

theorem keptOf_concat : keptOf (items ++ [item]) = keptOf items ++ keptOf [item] := by
  rw [keptOf, List.filterMap_append, List.filter_append]
  rfl

theorem skippedOf_concat : skippedOf (items ++ [item]) = skippedOf items ++ skippedOf [item] := by
  rw [skippedOf, List.filterMap_append, List.filter_append]
  rfl

end Items

theorem delivered_concat (actions : List Action) (a : Action) :
    delivered (actions ++ [a]) = delivered actions ++ delivered [a] := by
  rw [delivered, List.filterMap_append]
  rfl

/-! ## One item -/

section Item

variable {hash : String → U64} {c c' : Collector} {item : List U8} {kept : Bool}

/-- Everything that one item can do: nothing, when it does not parse; count as
    skipped, when it does not pass the filter; or be kept. -/
theorem Collector.onItem_cases (h : c.onItem hash item = .ok (c', kept)) :
    (kept = false ∧ c' = c ∧ keptOf [item] = [] ∧ skippedOf [item] = []) ∨
    (kept = false ∧ keptOf [item] = [] ∧ ∃ raw n, skippedOf [item] = [raw] ∧
      checkedAdd c.skippedEvents 1#64 = .ok n ∧ c' = { c with skippedEvents := n }) ∨
    (kept = true ∧ skippedOf [item] = [] ∧ ∃ raw, keptOf [item] = [raw] ∧
      c.keep hash raw = .ok c') := by
  unfold Collector.onItem at h
  unfold keptOf skippedOf
  rw [List.filterMap_cons, List.filterMap_nil]
  cases hparse : parseRawKernelEvent item with
  | none =>
    rw [hparse] at h
    cases h
    exact .inl ⟨rfl, rfl, rfl, rfl⟩
  | some raw =>
    rw [hparse] at h
    by_cases hkeep : shouldKeepEvent raw
    · have hkeep' : ¬ ¬ shouldKeepEvent raw = true := not_not.mpr hkeep
      simp only [if_neg hkeep'] at h
      obtain ⟨c₁, hc₁, hpure⟩ := bind_eq_ok_iff.mp h
      cases hpure
      exact .inr (.inr ⟨rfl, by simp [hkeep], raw, by simp [hkeep], hc₁⟩)
    · simp only [if_pos hkeep] at h
      obtain ⟨n, hn, hpure⟩ := bind_eq_ok_iff.mp h
      cases hpure
      exact .inr (.inl ⟨rfl, by simp [hkeep], raw, n, by simp [hkeep], hn, rfl⟩)

end Item

/-! ## One tick -/

theorem lt_thirty_iff {n : U64} : n < 30#64 ↔ n.toNat < 30 := BitVec.lt_def

/-- Everything that a tick can do: move to another point and change nothing else,
    where the inner loop goes on below thirty kept events only and the outer loop
    ends with thirty; or take the oldest item. -/
theorem State.tick_cases {hash : String → U64} {s s' : State} (h : s.tick hash = .ok s') :
    (∃ point, s' = { s with point } ∧
      (point = .inner → s.collector.keptEvents.toNat < 30) ∧
      (point = .done → 30 ≤ s.collector.keptEvents.toNat ∨ s.point = .done)) ∨
    (s.point = .inner ∧ ∃ item pending c kept, s.pending = item :: pending ∧
      s.collector.onItem hash item = .ok (c, kept) ∧
      s' = { point := if kept then .kept else .inner, collector := c, pending,
             consumed := s.consumed ++ [item] }) := by
  unfold State.tick at h
  cases hpoint : s.point with
  | outer =>
    rw [hpoint] at h
    cases h
    refine .inl ⟨_, rfl, ?_, ?_⟩
    · split_ifs with hlt
      · exact fun _ => lt_thirty_iff.mp hlt
      · simp
    · split_ifs with hlt
      · simp
      · rw [lt_thirty_iff, not_lt] at hlt
        exact fun _ => .inl hlt
  | inner =>
    rw [hpoint] at h
    cases hpending : s.pending with
    | nil =>
      rw [hpending] at h
      cases h
      exact .inl ⟨.outer, rfl, by simp, by simp⟩
    | cons item pending =>
      rw [hpending] at h
      obtain ⟨⟨c, kept⟩, hitem, hpure⟩ := bind_eq_ok_iff.mp h
      cases hpure
      exact .inr ⟨rfl, item, pending, c, kept, rfl, hitem, rfl⟩
  | kept =>
    rw [hpoint] at h
    cases h
    refine .inl ⟨_, rfl, ?_, ?_⟩
    · split_ifs with hle
      · simp
      · rw [BitVec.not_le, lt_thirty_iff] at hle
        exact fun _ => hle
    · split_ifs <;> simp
  | done =>
    rw [hpoint] at h
    cases h
    exact .inl ⟨.done, by rw [← hpoint], by simp, fun _ => .inr rfl⟩

/-! ## The kept events -/

/-- The records of the events `raws` with the field elements `xs`: each holds the
    digest of the events up to its own. -/
structure IsRecords (raws : List RawKernelEvent) (xs : List U128)
    (records : List LiveEventRecord) : Prop where
  length_eq : records.length = raws.length
  get : ∀ i raw x, raws[i]? = some raw → xs[i]? = some x →
    ∃ st, ksentryFast (xs.take (i + 1)) q p = .ok st ∧
      records[i]? = some (liveEventRecord raw x st.digest)

/-- The variables account for the events `raws`: their number, the accumulator
    over their field elements, and the records of the first and the last five. -/
structure Collector.Holds (hash : String → U64) (raws : List RawKernelEvent) (xs : List U128)
    (records : List LiveEventRecord) (c : Collector) : Prop where
  elements : (raws.mapM fun raw => (rawEventToTelemetry raw).toFieldElement hash p) = .ok xs
  ks_eq : ksentryFast xs q p = .ok c.ks
  kept_eq : c.keptEvents.toNat = raws.length
  isRecords : IsRecords raws xs records
  first_eq : c.firstEvents = records.take 5
  last_eq : c.lastEvents = lastN 5 records

section Kept

variable {hash : String → U64} {raws : List RawKernelEvent} {xs : List U128}
  {records : List LiveEventRecord} {c c' : Collector} {raw : RawKernelEvent} {x : U128}

theorem Collector.Holds.length_eq (h : c.Holds hash raws xs records) : xs.length = raws.length := by
  have helements : Returns (raws.mapM fun raw => (rawEventToTelemetry raw).toFieldElement hash p)
      (List.Forall₂ (fun _ _ => True) raws) := by
    refine Returns.mapM fun raw _ => ?_
    exact (checkedRem_returns (by decide)).mono fun _ _ => trivial
  exact (helements.of_eq_ok h.elements).length_eq.symm

/-- The accumulator counts the kept events too. -/
theorem Collector.Holds.position_eq (h : c.Holds hash raws xs records)
    (hn : raws.length < 2 ^ 64) : c.ks.position = c.keptEvents := by
  have hxs := h.length_eq
  have hrefines := (ksentryFast_refines modulusOk_demo (by decide) (by omega)).of_eq_ok h.ks_eq
  apply BitVec.eq_of_toNat_eq
  show c.ks.n.toNat = c.keptEvents.toNat
  rw [hrefines.n_eq, h.kept_eq, hxs]

/-- One more element goes through `update`. -/
theorem ksentryFast_concat {st st' : KSentry} (hrun : ksentryFast xs q p = .ok st)
    (hupdate : st.update x = .ok st') : ksentryFast (xs ++ [x]) q p = .ok st' := by
  obtain ⟨st₀, hnew, hxs⟩ := bind_eq_ok_iff.mp hrun
  rw [ksentryFast, hnew, ok_bind]
  exact foldlM_concat_eq_ok_iff.mpr ⟨st, hxs, hupdate⟩

theorem IsRecords.concat (h : IsRecords raws xs records) (hlen : xs.length = raws.length)
    {st : KSentry} (hst : ksentryFast (xs ++ [x]) q p = .ok st) :
    IsRecords (raws ++ [raw]) (xs ++ [x]) (records ++ [liveEventRecord raw x st.digest]) := by
  obtain ⟨hrecords, hget⟩ := h
  refine ⟨by simp [hrecords], fun i raw' x' hraw hx => ?_⟩
  rcases lt_trichotomy i raws.length with hi | hi | hi
  · rw [List.getElem?_append_left hi] at hraw
    rw [List.getElem?_append_left (by omega)] at hx
    rw [List.take_append_of_le_length (by omega), List.getElem?_append_left (by omega)]
    exact hget i raw' x' hraw hx
  · -- The new event.
    subst hi
    rw [List.getElem?_concat_length] at hraw
    rw [← hlen, List.getElem?_concat_length] at hx
    cases hraw
    cases hx
    rw [List.take_of_length_le (by simp; omega), ← hrecords, List.getElem?_concat_length]
    exact ⟨st, hst, rfl⟩
  · rw [List.getElem?_eq_none (by simp; omega)] at hraw
    cases hraw

/-- Keeping an event. -/
theorem Collector.keep_holds (h : c.Holds hash raws xs records)
    (hkeep : c.keep hash raw = .ok c') :
    c'.skippedEvents = c.skippedEvents ∧
      ∃ xs' records', c'.Holds hash (raws ++ [raw]) xs' records' := by
  obtain ⟨x, hx, hkeep⟩ := bind_eq_ok_iff.mp hkeep
  obtain ⟨ks, hks, hkeep⟩ := bind_eq_ok_iff.mp hkeep
  obtain ⟨n, hn, hpure⟩ := bind_eq_ok_iff.mp hkeep
  cases hpure
  have hrun := ksentryFast_concat h.ks_eq hks
  have hcount := (checkedAdd_returns (lt_of_checkedAdd hn)).of_eq_ok hn
  refine ⟨rfl, xs ++ [x], records ++ [liveEventRecord raw x ks.digest], ?_⟩
  exact
    { elements := by
        rw [List.mapM_append, h.elements, ok_bind, List.mapM_cons, hx, List.mapM_nil]
        rfl
      ks_eq := hrun
      kept_eq := by
        show n.toNat = (raws ++ [raw]).length
        rw [hcount, h.kept_eq, List.length_append]
        rfl
      isRecords := h.isRecords.concat h.length_eq hrun
      first_eq := by
        rw [take_concat, ← h.first_eq]
      last_eq := by
        rw [lastN_concat (by norm_num), ← h.last_eq] }

end Kept

/-! ## The invariant of the loop -/

/-- What holds at every point, after the items `items` have been delivered. -/
structure State.Inv (hash : String → U64) (items : List (List U8)) (s : State) : Prop where
  delivered_eq : items = s.consumed ++ s.pending
  holds : ∃ xs records, s.collector.Holds hash (keptOf s.consumed) xs records
  skipped_eq : s.collector.skippedEvents.toNat = (skippedOf s.consumed).length
  kept_le : s.collector.keptEvents.toNat ≤ 30
  inner_lt : s.point = .inner → s.collector.keptEvents.toNat < 30
  done_eq : s.point = .done → s.collector.keptEvents.toNat = 30

section Run

variable {hash : String → U64} {items : List (List U8)} {s s' : State} {a : Action}

theorem init_inv {c : Collector} (h : Collector.init = .ok c) :
    State.Inv hash [] { point := .outer, collector := c, pending := [], consumed := [] } := by
  obtain ⟨ks, hks, hpure⟩ := bind_eq_ok_iff.mp h
  cases hpure
  have hrun : ksentryFast [] q p = .ok ks := by
    rw [ksentryFast, hks, ok_bind]
    rfl
  refine ⟨rfl, ⟨[], [], ?_⟩, rfl, by simp, by simp, by simp⟩
  exact
    { elements := rfl
      ks_eq := hrun
      kept_eq := rfl
      isRecords := ⟨rfl, by simp⟩
      first_eq := rfl
      last_eq := rfl }

/-- Taking an item. -/
theorem State.take_inv {item : List U8} {pending : List (List U8)} {c : Collector} {kept : Bool}
    (h : s.Inv hash items) (hpoint : s.point = .inner) (hpending : s.pending = item :: pending)
    (hitem : s.collector.onItem hash item = .ok (c, kept)) :
    State.Inv hash items
      { point := if kept then .kept else .inner, collector := c, pending,
        consumed := s.consumed ++ [item] } := by
  obtain ⟨hdelivered, ⟨xs, records, hholds⟩, hskipped, -, hlt, -⟩ := h
  have hlt := hlt hpoint
  have hdelivered' : items = (s.consumed ++ [item]) ++ pending := by
    rw [hdelivered, hpending, List.append_assoc, List.singleton_append]
  rcases Collector.onItem_cases hitem with
    ⟨rfl, rfl, hkept, hskip⟩ | ⟨rfl, hkept, raw, n, hskip, hn, rfl⟩ | ⟨rfl, hskip, raw, hkept, hkeep⟩
  · refine ⟨hdelivered', ⟨xs, records, ?_⟩, ?_, hlt.le, fun _ => hlt, by simp⟩
    · show Collector.Holds hash (keptOf (s.consumed ++ [item])) xs records s.collector
      rw [keptOf_concat, hkept, List.append_nil]
      exact hholds
    · show s.collector.skippedEvents.toNat = (skippedOf (s.consumed ++ [item])).length
      rw [skippedOf_concat, hskip, List.append_nil, hskipped]
  · have hcount := (checkedAdd_returns (lt_of_checkedAdd hn)).of_eq_ok hn
    refine ⟨hdelivered', ⟨xs, records, ?_⟩, ?_, hlt.le, fun _ => hlt, by simp⟩
    · show Collector.Holds hash (keptOf (s.consumed ++ [item])) xs records
        { s.collector with skippedEvents := n }
      rw [keptOf_concat, hkept, List.append_nil]
      exact { hholds with }
    · show n.toNat = (skippedOf (s.consumed ++ [item])).length
      rw [skippedOf_concat, hskip, List.length_append, hcount, hskipped]
      rfl
  · obtain ⟨hsame, xs', records', hholds'⟩ := Collector.keep_holds hholds hkeep
    have hcount : c.keptEvents.toNat = s.collector.keptEvents.toNat + 1 := by
      rw [hholds'.kept_eq, hholds.kept_eq, List.length_append, List.length_singleton]
    refine ⟨hdelivered', ⟨xs', records', ?_⟩, ?_, ?_, by simp, by simp⟩
    · show Collector.Holds hash (keptOf (s.consumed ++ [item])) xs' records' c
      rw [keptOf_concat, hkept]
      exact hholds'
    · show c.skippedEvents.toNat = (skippedOf (s.consumed ++ [item])).length
      rw [skippedOf_concat, hskip, List.append_nil, hsame, hskipped]
    · show c.keptEvents.toNat ≤ 30
      omega

/-- The program keeps the invariant. -/
theorem State.tick_inv (h : s.Inv hash items) (htick : s.tick hash = .ok s') :
    s'.Inv hash items := by
  rcases State.tick_cases htick with
    ⟨point, rfl, hinner, hdone⟩ | ⟨hpoint, item, pending, c, kept, hpending, hitem, rfl⟩
  · refine { h with inner_lt := hinner, done_eq := fun hd => ?_ }
    rcases hdone hd with hge | hdone
    · exact le_antisymm h.kept_le hge
    · exact h.done_eq hdone
  · exact State.take_inv h hpoint hpending hitem

/-- The step lemma. -/
theorem State.step_inv (h : s.Inv hash items) (hstep : s.step hash a = .ok s') :
    s'.Inv hash (items ++ delivered [a]) := by
  cases a with
  | deliver item =>
    cases hstep
    refine { h with delivered_eq := ?_ }
    rw [h.delivered_eq, List.append_assoc]
    rfl
  | tick =>
    show s'.Inv hash (items ++ [])
    rw [List.append_nil]
    exact State.tick_inv h hstep

/-- The run lemma: the invariant holds at every point of every run. -/
theorem run_inv {actions : List Action} (hrun : run hash actions = .ok s) :
    s.Inv hash (delivered actions) := by
  obtain ⟨c, hc, hactions⟩ := bind_eq_ok_iff.mp hrun
  refine foldlM_invariant (fun pre (s : State) => s.Inv hash (delivered pre)) (init_inv hc) ?_
    hactions
  intro pre a s s' hs hstep
  rw [delivered_concat]
  exact State.step_inv hs hstep

/-- Actions after the thirtieth kept event change neither the variables nor the
    consumed items. -/
theorem State.step_full (h : s.Inv hash items) (hfull : s.collector.keptEvents.toNat = 30)
    (hstep : s.step hash a = .ok s') :
    s'.collector = s.collector ∧ s'.consumed = s.consumed := by
  cases a with
  | deliver item =>
    cases hstep
    exact ⟨rfl, rfl⟩
  | tick =>
    rcases State.tick_cases hstep with ⟨point, rfl, -, -⟩ | ⟨hpoint, -⟩
    · exact ⟨rfl, rfl⟩
    · -- The inner loop takes no item any more.
      have hlt := h.inner_lt hpoint
      omega

theorem run_full {later : List Action} (h : s.Inv hash items)
    (hfull : s.collector.keptEvents.toNat = 30) (hrun : later.foldlM (State.step hash) s = .ok s') :
    s'.collector = s.collector ∧ s'.consumed = s.consumed := by
  have key := foldlM_invariant (fun pre (s' : State) => s'.Inv hash (items ++ delivered pre) ∧
    s'.collector = s.collector ∧ s'.consumed = s.consumed)
    ⟨by rw [delivered, List.filterMap_nil, List.append_nil]; exact h, rfl, rfl⟩ ?_ hrun
  · exact key.2
  · intro pre a t t' ⟨ht, hcollector, hconsumed⟩ hstep
    obtain ⟨hcollector', hconsumed'⟩ := State.step_full ht (by rw [hcollector, hfull]) hstep
    rw [delivered_concat, ← List.append_assoc]
    exact ⟨State.step_inv ht hstep, hcollector'.trans hcollector, hconsumed'.trans hconsumed⟩

/-! ## The loop does not panic -/

theorem Collector.keep_returns {raws : List RawKernelEvent} {xs : List U128}
    {records : List LiveEventRecord} {c : Collector} (h : c.Holds hash raws xs records)
    (hn : raws.length < 30) (raw : RawKernelEvent) :
    Returns (c.keep hash raw) fun _ => True := by
  have hxs := h.length_eq
  have hkept := h.kept_eq
  have hrefines := (ksentryFast_refines modulusOk_demo (by decide) (by omega)).of_eq_ok h.ks_eq
  have hone : (1#64).toNat = 1 := rfl
  refine (checkedRem_returns (by decide)).bind fun x _ => ?_
  refine (KSentry.update_refines modulusOk_demo hrefines (by omega) x).bind fun ks _ => ?_
  refine (checkedAdd_returns (by omega)).bind fun n _ => ?_
  exact Returns.pure trivial

theorem Collector.onItem_returns {raws : List RawKernelEvent} {xs : List U128}
    {records : List LiveEventRecord} {c : Collector} (h : c.Holds hash raws xs records)
    (hn : raws.length < 30) (hskipped : c.skippedEvents.toNat + 1 < 2 ^ 64) (item : List U8) :
    Returns (c.onItem hash item) fun _ => True := by
  unfold Collector.onItem
  cases parseRawKernelEvent item with
  | none => exact Returns.pure trivial
  | some raw =>
    by_cases hkeep : shouldKeepEvent raw = true
    · simp only [if_neg (not_not.mpr hkeep)]
      refine (Collector.keep_returns h hn raw).bind fun c _ => ?_
      exact Returns.pure trivial
    · have hone : (1#64).toNat = 1 := rfl
      simp only [if_pos hkeep]
      refine (checkedAdd_returns (by omega)).bind fun n _ => ?_
      exact Returns.pure trivial

/-- A step returns as long as the counter of skipped events can count. -/
theorem State.step_returns (h : s.Inv hash items)
    (hskipped : (skippedOf s.consumed).length + 1 < 2 ^ 64) (a : Action) :
    Returns (s.step hash a) fun _ => True := by
  cases a with
  | deliver item => exact Returns.pure trivial
  | tick =>
    unfold State.step State.tick
    cases hpoint : s.point with
    | outer => exact Returns.pure trivial
    | kept => exact Returns.pure trivial
    | done => exact Returns.pure trivial
    | inner =>
      cases s.pending with
      | nil => exact Returns.pure trivial
      | cons item pending =>
        obtain ⟨xs, records, hholds⟩ := h.holds
        have hlt := h.inner_lt hpoint
        rw [hholds.kept_eq] at hlt
        have hitem := Collector.onItem_returns hholds hlt (by rwa [h.skipped_eq]) item
        exact hitem.bind fun _ _ => Returns.pure trivial

theorem length_delivered_le (actions : List Action) :
    (delivered actions).length ≤ actions.length := List.length_filterMap_le _ _

theorem length_skippedOf_le (items : List (List U8)) : (skippedOf items).length ≤ items.length :=
  (List.length_filter_le _ _).trans (List.length_filterMap_le _ _)

/-- A run of fewer than `2^64` actions returns. -/
theorem run_returns {actions : List Action} (hn : actions.length < 2 ^ 64) :
    Returns (run hash actions) fun s => s.Inv hash (delivered actions) := by
  have hcollector : Returns Collector.init fun _ => True := by
    refine (KSentry.new_refines modulusOk_demo.one_lt (by decide)).bind fun ks _ => ?_
    exact Returns.pure trivial
  obtain ⟨c, hinit, -⟩ := hcollector
  rw [run, hinit, ok_bind]
  refine Returns.foldlM (fun pre (s : State) => s.Inv hash (delivered pre)) (init_inv hinit) ?_
  intro pre a post s hactions hs
  have hskipped : (skippedOf s.consumed).length + 1 < 2 ^ 64 := by
    have hconsumed := congrArg List.length hs.delivered_eq
    have hle := length_delivered_le pre
    have hle' := length_skippedOf_le s.consumed
    rw [List.length_append] at hconsumed
    rw [hactions, List.length_append, List.length_cons] at hn
    omega
  obtain ⟨s', hs', -⟩ := State.step_returns hs hskipped a
  refine ⟨s', hs', ?_⟩
  rw [delivered_concat]
  exact State.step_inv hs hs'

end Run

/-! ## The accounting -/

theorem run_append (hash : String → U64) (actions later : List Action) :
    run hash (actions ++ later) = run hash actions >>= later.foldlM (State.step hash) := by
  unfold run
  simp only [List.foldlM_append, bind_assoc]

/-- What the variables say at every point of every run, whatever is delivered and
    whenever: the consumed items are a prefix of the delivered ones; at most thirty
    events are kept; the two counters and the position of the accumulator count the
    consumed items that pass and that fail the filter; the accumulator is that of
    the field elements of the kept events in their order; and the two lists hold
    the records of the first and the last five of them, each with the fields of
    its event and the digest of the kept events up to its own. Nothing is consumed
    after the thirtieth kept event, and the loop ends with exactly thirty. -/
theorem run_accounting (hash : String → U64) (actions : List Action) {s : State}
    (hrun : run hash actions = .ok s) :
    delivered actions = s.consumed ++ s.pending ∧
    s.collector.keptEvents.toNat ≤ 30 ∧
    s.collector.keptEvents.toNat = (keptOf s.consumed).length ∧
    s.collector.ks.position = s.collector.keptEvents ∧
    s.collector.skippedEvents.toNat = (skippedOf s.consumed).length ∧
    (∃ (xs : List U128) (records : List LiveEventRecord),
      ((keptOf s.consumed).mapM fun raw => (rawEventToTelemetry raw).toFieldElement hash p) =
        .ok xs ∧
      ksentryFast xs q p = .ok s.collector.ks ∧
      records.length = (keptOf s.consumed).length ∧
      (∀ i raw x, (keptOf s.consumed)[i]? = some raw → xs[i]? = some x →
        ∃ st record, ksentryFast (xs.take (i + 1)) q p = .ok st ∧ records[i]? = some record ∧
          record.digestAfter = st.digest ∧ record.fieldElement = x ∧
          record.eventType = eventTypeName raw.eventType ∧ record.pid = raw.pid ∧
          record.uid = raw.uid ∧ record.timestampNs = raw.timestampNs ∧
          record.comm = bytesToString raw.comm.toList ∧
          record.target = if (bytesToString raw.target.toList).isEmpty then "<empty>"
            else bytesToString raw.target.toList) ∧
      s.collector.firstEvents = records.take 5 ∧
      s.collector.lastEvents = records.drop (records.length - 5)) ∧
    (∀ later s', s.collector.keptEvents = 30#64 → run hash (actions ++ later) = .ok s' →
      s'.consumed = s.consumed) ∧
    (s.point = .done → s.collector.keptEvents = 30#64) := by
  have hinv := run_inv hrun
  obtain ⟨xs, records, hholds⟩ := hinv.holds
  have hle := hinv.kept_le
  have hkept := hholds.kept_eq
  refine ⟨hinv.delivered_eq, hle, hkept, hholds.position_eq (by omega), hinv.skipped_eq,
    ⟨xs, records, hholds.elements, hholds.ks_eq, hholds.isRecords.length_eq, ?_,
      hholds.first_eq, hholds.last_eq⟩, ?_, ?_⟩
  · intro i raw x hraw hx
    obtain ⟨st, hst, hrecord⟩ := hholds.isRecords.get i raw x hraw hx
    exact ⟨st, liveEventRecord raw x st.digest, hst, hrecord, rfl, rfl, rfl, rfl, rfl, rfl, rfl, rfl⟩
  · intro later s' hfull hlater
    rw [run_append, hrun, ok_bind] at hlater
    exact (run_full hinv (by rw [hfull]; rfl) hlater).2
  · intro hdone
    exact BitVec.eq_of_toNat_eq (hinv.done_eq hdone)

/-- The item of a `connect` event of the process `pid`, with empty texts. -/
def connectItem (pid : U8) : List U8 := [3#8, 0#8, 0#8, 0#8, pid] ++ List.replicate 163 0#8

/-- Seven `connect` events, and between them an item that is cut short and an event
    of no known type. -/
def mixedItems : List (List U8) :=
  [connectItem 1#8, connectItem 2#8, List.replicate 167 0#8, connectItem 3#8,
    List.replicate 168 0#8, connectItem 4#8, connectItem 5#8, connectItem 6#8, connectItem 7#8]

/-- Those items are delivered, and the collector takes them all. -/
def mixedRun : List Action := mixedItems.map Action.deliver ++ List.replicate 17 Action.tick

/-- Seven of the nine items are kept and one is skipped. The first list starts with
    the first kept event, the last list with the third, whose record has the digest
    `5 (1 + 7 + 7^3)`. -/
theorem run_accounting_mixed :
    ∃ s, run (fun _ => 5#64) mixedRun = .ok s ∧ s.consumed = mixedItems ∧
      (keptOf s.consumed).length = 7 ∧ (skippedOf s.consumed).length = 1 ∧
      s.collector.ks.position = 7#64 ∧
      (∃ record, s.collector.firstEvents[0]? = some record ∧ record.pid = 1#32 ∧
        record.digestAfter = 5#128) ∧
      ∃ record, s.collector.lastEvents[0]? = some record ∧ record.pid = 3#32 ∧
        record.digestAfter = 1755#128 ∧ record.target = "<empty>" := by
  obtain ⟨s, hs, -⟩ : Returns (run (fun _ => 5#64) mixedRun) (fun _ => True) :=
    (run_returns (by decide)).mono fun _ _ => trivial
  have hcounts : (run (fun _ => 5#64) mixedRun).map
      (fun s => (s.consumed, s.collector.keptEvents, s.collector.skippedEvents)) =
      .ok (mixedItems, 7#64, 1#64) := by decide +kernel
  rw [hs] at hcounts
  obtain ⟨hconsumed, hcounts⟩ := Prod.ext_iff.mp (Except.ok.inj hcounts)
  obtain ⟨hkept, hskipped⟩ := Prod.ext_iff.mp hcounts
  dsimp only at hconsumed hkept hskipped
  obtain ⟨-, -, hkeptOf, hposition, hskippedOf, ⟨xs, records, helements, -, hlength, hrecords,
    hfirst, hlast⟩, -, -⟩ := run_accounting _ _ hs
  rw [hkept] at hkeptOf hposition
  rw [hskipped] at hskippedOf
  rw [← hkeptOf] at hlength
  rw [hconsumed] at helements hrecords
  obtain rfl : xs = List.replicate 7 5#128 := by
    have hxs : ((keptOf mixedItems).mapM fun raw =>
        (rawEventToTelemetry raw).toFieldElement (fun _ => 5#64) p) =
        .ok (List.replicate 7 5#128) := by decide +kernel
    rw [hxs] at helements
    exact (Except.ok.inj helements).symm
  refine ⟨s, hs, hconsumed, hkeptOf.symm, hskippedOf.symm, hposition, ?_, ?_⟩
  · obtain ⟨raw, hraw, hpid⟩ := Option.map_eq_some_iff.mp
      (show (keptOf mixedItems)[0]?.map RawKernelEvent.pid = some 1#32 by decide +kernel)
    obtain ⟨st, record, hst, hrecord, hdigest, -, -, hrecordPid, -⟩ := hrecords 0 raw 5#128 hraw rfl
    have hvalue : (ksentryFast [5#128] q p).map KSentry.digest = .ok 5#128 := by decide +kernel
    rw [show [5#128] = (List.replicate 7 5#128).take (0 + 1) from rfl, hst] at hvalue
    refine ⟨record, ?_, hrecordPid.trans hpid, hdigest.trans (Except.ok.inj hvalue)⟩
    rw [hfirst, List.getElem?_take_of_lt (by norm_num), hrecord]
  · obtain ⟨raw, hraw, hpidTarget⟩ := Option.map_eq_some_iff.mp
      (show (keptOf mixedItems)[2]?.map (fun raw =>
        (raw.pid, (bytesToString raw.target.toList).isEmpty)) = some (3#32, true) by decide +kernel)
    obtain ⟨hpid, hempty⟩ := Prod.ext_iff.mp hpidTarget
    dsimp only at hpid hempty
    obtain ⟨st, record, hst, hrecord, hdigest, -, -, hrecordPid, -, -, -, htarget⟩ :=
      hrecords 2 raw 5#128 hraw rfl
    have hvalue : (ksentryFast [5#128, 5#128, 5#128] q p).map KSentry.digest = .ok 1755#128 := by
      decide +kernel
    rw [show [5#128, 5#128, 5#128] = (List.replicate 7 5#128).take (2 + 1) from rfl, hst] at hvalue
    refine ⟨record, ?_, hrecordPid.trans hpid, hdigest.trans (Except.ok.inj hvalue), ?_⟩
    · rw [hlast, hlength, List.getElem?_drop]
      exact hrecord
    · rw [htarget, if_pos hempty]

end TimeFence.Epbf
