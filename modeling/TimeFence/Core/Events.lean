import TimeFence.Common.Residue
import TimeFence.Common.Separators

/-!
# Telemetry events and their canonical text

Model of `timefence-core/src/events.rs`: an event is printed as a line of text,
and the hash of that text modulo `p` is its field element. `DefaultHasher`
belongs to the standard library, which leaves its algorithm open; here it is a
function `hash : String → U64`.

The text joins the fields with separators and escapes nothing.
`canonicalString_eq_iff` says exactly which events share a text: the kind and
the timestamp can always be read back, but text can move between the process
and the target across a `|target=` that one of the two contains.
-/

namespace TimeFence.Core

open TimeFence.Common

/-! ## Model -/

/-- `enum EventKind` (lines 10–18). -/
inductive EventKind where
  | exec
  | openFile
  | readFile
  | connect
  | writeFile
  | exit
  deriving DecidableEq, Repr

/-- The derived `Debug` text of a kind. -/
def EventKind.debug : EventKind → String
  | exec => "Exec"
  | openFile => "OpenFile"
  | readFile => "ReadFile"
  | connect => "Connect"
  | writeFile => "WriteFile"
  | exit => "Exit"

/-- `struct TelemetryEvent` (lines 20–26). -/
structure TelemetryEvent where
  kind : EventKind
  process : String
  target : String
  timestampNs : U64
  deriving DecidableEq, Repr

/-- Model of `canonical_string` (lines 43–48). -/
def TelemetryEvent.canonicalString (self : TelemetryEvent) : String :=
  "kind=" ++ self.kind.debug ++ "|process=" ++ self.process ++ "|target=" ++ self.target ++
    "|timestamp_ns=" ++ self.timestampNs.toNat.repr

/-- Model of `to_field_element` (lines 50–58). -/
def TelemetryEvent.toFieldElement (hash : String → U64) (self : TelemetryEvent) (p : U128) :
    Exec U128 :=
  checkedRem (hash self.canonicalString).widen p

/-- Model of `short_label` (lines 59–61). -/
def TelemetryEvent.shortLabel (self : TelemetryEvent) : String :=
  self.kind.debug ++ ":" ++ self.process ++ ":" ++ self.target

/-- Model of `incident_events` (lines 64–71). -/
def incidentEvents : List TelemetryEvent :=
  [⟨.exec, "bash", "/bin/bash", 100#64⟩,
    ⟨.openFile, "bash", "/var/run/secrets/token", 200#64⟩,
    ⟨.readFile, "bash", "/var/run/secrets/token", 300#64⟩,
    ⟨.connect, "bash", "198.51.100.10:443", 400#64⟩]

/-- Model of `events_to_field_stream` (lines 73–75). -/
def eventsToFieldStream (hash : String → U64) (events : List TelemetryEvent) (p : U128) :
    Exec (List U128) :=
  events.mapM fun e => e.toFieldElement hash p

/-! ## Field elements -/

/-- An event stream has one residue for each event. -/
theorem eventsToFieldStream_returns (hash : String → U64) {p : U128} (hp : 0 < p.toNat)
    (events : List TelemetryEvent) :
    Returns (eventsToFieldStream hash events p)
      (List.Forall₂ (fun (e : TelemetryEvent) (x : U128) =>
        x.toNat = (hash e.canonicalString).toNat % p.toNat) events) := by
  apply Returns.mapM
  intro e _
  refine (checkedRem_returns hp).mono fun x hx => ?_
  rw [hx, U64.toNat_widen]

/-! ## Reading the canonical text back -/

/-- The separator between the process and the target. -/
def targetSeparator : String := "|target="

/-- The text `s` contains the separator. -/
def HasSeparator (s : String) : Prop := targetSeparator.toList <:+: s.toList

instance (s : String) : Decidable (HasSeparator s) :=
  inferInstanceAs (Decidable (_ <:+: _))

theorem toList_targetSeparator : targetSeparator.toList = '|' :: "target=".toList := by
  decide

theorem hasSeparator_append (s t : String) : HasSeparator (s ++ targetSeparator ++ t) := by
  refine ⟨s.toList, t.toList, ?_⟩
  rw [String.toList_append, String.toList_append]

theorem EventKind.debug_toList_injective {k k' : EventKind}
    (h : k.debug.toList = k'.debug.toList) : k = k' := by
  cases k <;> cases k' <;> first | rfl | exact absurd h (by decide)

theorem EventKind.bar_notMem_debug (k : EventKind) : '|' ∉ k.debug.toList := by
  cases k <;> decide

namespace TelemetryEvent

/-- The text between `|process=` and `|timestamp_ns=`. -/
def body (e : TelemetryEvent) : List Char :=
  e.process.toList ++ (targetSeparator.toList ++ e.target.toList)

/-- The canonical text around its body, with the first and the last separator
    set off. -/
theorem toList_canonicalString (e : TelemetryEvent) :
    e.canonicalString.toList =
      ("kind=".toList ++ (e.kind.debug.toList ++
        '|' :: ("process=".toList ++ (e.body ++ "|timestamp_ns".toList)))) ++
      '=' :: e.timestampNs.toNat.repr.toList := by
  simp [canonicalString, body, targetSeparator, String.toList_append]

/-- The kind, the timestamp and the body can be read back. -/
theorem canonicalString_eq_iff_body (e e' : TelemetryEvent) :
    e.canonicalString = e'.canonicalString ↔
      e.kind = e'.kind ∧ e.timestampNs = e'.timestampNs ∧ e.body = e'.body := by
  have hequals := notMem_repr (c := '=') (by decide)
  rw [← String.toList_inj, toList_canonicalString, toList_canonicalString]
  -- The last `=` first, then the first `|`; what is left has fixed words around the body.
  rw [append_cons_inj_right (hequals _) (hequals _),
    List.append_cancel_left_eq,
    append_cons_inj_left (EventKind.bar_notMem_debug _) (EventKind.bar_notMem_debug _),
    List.append_cancel_left_eq, List.append_cancel_right_eq, toList_repr_toNat_inj]
  constructor
  · rintro ⟨⟨hkind, hbody⟩, htime⟩
    exact ⟨EventKind.debug_toList_injective hkind, htime, hbody⟩
  · rintro ⟨hkind, htime, hbody⟩
    exact ⟨⟨by rw [hkind], hbody⟩, htime⟩

/-- Which pairs of process and target have the same body. -/
theorem body_eq_iff (e e' : TelemetryEvent) :
    e.body = e'.body ↔
      (e.process = e'.process ∧ e.target = e'.target) ∨
      (∃ m, e'.process = e.process ++ targetSeparator ++ m ∧
        e.target = m ++ targetSeparator ++ e'.target) ∨
      (∃ m, e.process = e'.process ++ targetSeparator ++ m ∧
        e'.target = m ++ targetSeparator ++ e.target) := by
  rw [body, body, toList_targetSeparator, append_word_append_eq_iff (by decide),
    ← toList_targetSeparator]
  -- A list of characters is the content of a string.
  have hlist : ∀ {s t u v : String},
      (∃ m, s.toList = t.toList ++ (targetSeparator.toList ++ m) ∧
        u.toList = m ++ (targetSeparator.toList ++ v.toList)) ↔
      ∃ m, s = t ++ targetSeparator ++ m ∧ u = m ++ targetSeparator ++ v := by
    intro s t u v
    simp only [← String.toList_inj, String.toList_append, List.append_assoc]
    constructor
    · rintro ⟨m, hs, hu⟩
      exact ⟨String.ofList m, by rw [String.toList_ofList]; exact ⟨hs, hu⟩⟩
    · rintro ⟨m, hs, hu⟩
      exact ⟨m.toList, hs, hu⟩
  rw [hlist, hlist, String.toList_inj, String.toList_inj]

/-- What the canonical text binds: the kind, the timestamp, and the process and
    the target up to text that moves across a `|target=` inside them. Events
    whose processes do not contain `|target=` are bound completely, and so are
    events whose targets do not contain it. -/
theorem canonicalString_eq_iff (e e' : TelemetryEvent) :
    (e.canonicalString = e'.canonicalString ↔
      e.kind = e'.kind ∧ e.timestampNs = e'.timestampNs ∧
      ((e.process = e'.process ∧ e.target = e'.target) ∨
        (∃ m, e'.process = e.process ++ targetSeparator ++ m ∧
          e.target = m ++ targetSeparator ++ e'.target) ∨
        (∃ m, e.process = e'.process ++ targetSeparator ++ m ∧
          e'.target = m ++ targetSeparator ++ e.target))) ∧
    ((¬ HasSeparator e.process ∧ ¬ HasSeparator e'.process) ∨
        (¬ HasSeparator e.target ∧ ¬ HasSeparator e'.target) →
      e.canonicalString = e'.canonicalString → e = e') := by
  have hiff := (canonicalString_eq_iff_body e e').trans
    (and_congr_right' (and_congr_right' (body_eq_iff e e')))
  refine ⟨hiff, fun hfree h => ?_⟩
  obtain ⟨hkind, htime, ⟨hprocess, htarget⟩ | ⟨m, hprocess, htarget⟩ | ⟨m, hprocess, htarget⟩⟩ :=
    hiff.mp h
  · cases e
    cases e'
    simp_all
  · -- The word is in the process of `e'` and in the target of `e`.
    have h₁ := hasSeparator_append e.process m
    have h₂ := hasSeparator_append m e'.target
    rw [← hprocess] at h₁
    rw [← htarget] at h₂
    tauto
  · have h₁ := hasSeparator_append e'.process m
    have h₂ := hasSeparator_append m e.target
    rw [← hprocess] at h₁
    rw [← htarget] at h₂
    tauto

/-- Reading a token and reading another file are told apart. -/
theorem canonicalString_read_ne :
    (TelemetryEvent.mk .readFile "bash" "/var/run/secrets/token" 300#64).canonicalString ≠
      (TelemetryEvent.mk .readFile "bash" "/etc/hosts" 300#64).canonicalString := by
  intro h
  have heq := (canonicalString_eq_iff _ _).2 (.inl ⟨by decide, by decide⟩) h
  exact absurd heq (by decide)

/-- Two different events share their canonical text, since the separators are
    not escaped. -/
theorem canonicalString_collision :
    (TelemetryEvent.mk .exec "a|target=b" "c" 0#64).canonicalString =
      (TelemetryEvent.mk .exec "a" "b|target=c" 0#64).canonicalString ∧
    TelemetryEvent.mk .exec "a|target=b" "c" 0#64 ≠
      TelemetryEvent.mk .exec "a" "b|target=c" 0#64 := by
  constructor <;> decide

end TelemetryEvent

end TimeFence.Core
