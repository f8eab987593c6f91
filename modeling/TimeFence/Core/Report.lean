import TimeFence.Core.Incident
import TimeFence.Json.Reader
import TimeFence.Json.Writer

/-!
# Evidence reports and their JSON export

Model of `timefence-core/src/report.rs`: an incident case is summed up in an
`EvidenceReport`, and `reports_to_json` prints a list of reports with a
hand-written JSON printer. `str::replace` with a character as its pattern
replaces every occurrence of that character.

* `toList_jsonEscape`: the five global replacements of `json_escape` escape
  every character once. No pass touches what an earlier pass has printed.
* `reportsToJson_document`: the printed text is a JSON document, for every
  list of reports whose strings the printer can print.
* `reportsToJson_roundTrip`: a JSON reader gets all reports back from it.
* `buildReportsForCases_document`: for the reports of incident cases, only the
  names of the cases and the texts of their events have to be printable.
-/

namespace TimeFence.Core

open TimeFence.Common TimeFence.Json

/-! ## Model -/

/-- `struct EvidenceReport` (lines 14–24). -/
structure EvidenceReport where
  caseName : String
  status : String
  originalLen : U64
  observedLen : U64
  expectedDigest : U128
  observedDigest : U128
  originalTimeline : String
  observedTimeline : String
  conclusion : String
  deriving DecidableEq, Repr

/-- The derived `Debug` text of a mismatch. -/
def CheckpointMismatch.debug : CheckpointMismatch → String
  | none => "None"
  | streamId => "StreamId"
  | epoch => "Epoch"
  | startSeq => "StartSeq"
  | length => "Length"
  | endSeq => "EndSeq"
  | params => "Params"
  | digest => "Digest"

/-- The derived `Debug` text of a status. -/
def VerificationStatus.debug : VerificationStatus → String
  | clean => "Clean"
  | metadataMismatch reason => "MetadataMismatch(" ++ reason.debug ++ ")"
  | digestMismatch => "DigestMismatch"

/-- The conclusion of a report (lines 29–42). -/
def conclusionOf : VerificationStatus → String
  | .clean => "clean: timeline evidence matches source checkpoint"
  | .metadataMismatch reason =>
    "metadata mismatch: likely length/range/epoch/parameter problem: " ++ reason.debug
  | .digestMismatch => "digest mismatch: same range length, but content/order/splice changed"

/-- Model of `build_evidence_report` (lines 26–55). -/
def buildEvidenceReport (case : IncidentCase) : EvidenceReport where
  caseName := case.name
  status := case.report.status.debug
  originalLen := BitVec.ofNat 64 case.originalEvents.length
  observedLen := BitVec.ofNat 64 case.observedEvents.length
  expectedDigest := case.expected.digest
  observedDigest := case.observedCkpt.digest
  originalTimeline := summarizeEvents case.originalEvents
  observedTimeline := summarizeEvents case.observedEvents
  conclusion := conclusionOf case.report.status

/-- Model of `build_reports_for_cases` (lines 91–93). -/
def buildReportsForCases (cases : List IncidentCase) : List EvidenceReport :=
  cases.map buildEvidenceReport

/-- `s.replace(c, w)`. -/
def replace (c : Char) (w : String) (s : String) : String :=
  String.ofList (s.toList.flatMap fun b => if b = c then w.toList else [b])

/-- Model of `json_escape` (lines 83–89). -/
def jsonEscape (s : String) : String :=
  replace '\t' "\\t" (replace '\r' "\\r" (replace '\n' "\\n"
    (replace '"' "\\\"" (replace '\\' "\\\\" s))))

/-- The line of a string field, up to its comma. -/
def stringLine (key value : String) : String :=
  "    \"" ++ key ++ "\": \"" ++ jsonEscape value ++ "\""

/-- The line of a number field, up to its comma. -/
def numberLine (key : String) (value : ℕ) : String := "    \"" ++ key ++ "\": " ++ value.repr

/-- The body of the loop of `reports_to_json` (lines 100–137). -/
def pushReport (len : ℕ) (out : String) (i : ℕ) (r : EvidenceReport) : String :=
  let out := out ++ "  \x7b\n"
  let out := out ++ stringLine "case_name" r.caseName ++ ",\n"
  let out := out ++ stringLine "status" r.status ++ ",\n"
  let out := out ++ numberLine "original_len" r.originalLen.toNat ++ ",\n"
  let out := out ++ numberLine "observed_len" r.observedLen.toNat ++ ",\n"
  let out := out ++ numberLine "expected_digest" r.expectedDigest.toNat ++ ",\n"
  let out := out ++ numberLine "observed_digest" r.observedDigest.toNat ++ ",\n"
  let out := out ++ stringLine "original_timeline" r.originalTimeline ++ ",\n"
  let out := out ++ stringLine "observed_timeline" r.observedTimeline ++ ",\n"
  let out := out ++ stringLine "conclusion" r.conclusion ++ "\n"
  let out := out ++ "  \x7d"
  let out := if i + 1 ≠ len then out.push ',' else out
  out.push '\n'

/-- Model of `reports_to_json` (lines 95–142). -/
def reportsToJson (reports : List EvidenceReport) : String :=
  reports.zipIdx.foldl (fun out (r, i) => pushReport reports.length out i r) "[\n" ++ "]\n"

/-! ## Escaping -/

theorem toList_replace (c : Char) (w s : String) :
    (replace c w s).toList = s.toList.flatMap fun b => if b = c then w.toList else [b] := by
  rw [replace, String.toList_ofList]

/-- The five passes together escape every character once. -/
theorem toList_jsonEscape (s : String) : (jsonEscape s).toList = s.toList.flatMap escapeChar := by
  simp only [jsonEscape, toList_replace, List.flatMap_assoc]
  refine List.flatMap_congr fun c _ => ?_
  unfold escapeChar escapeLetter
  by_cases hbackslash : c = '\\'
  · subst hbackslash
    rfl
  by_cases hquote : c = '"'
  · subst hquote
    rfl
  by_cases hn : c = '\n'
  · subst hn
    rfl
  by_cases hr : c = '\r'
  · subst hr
    rfl
  by_cases ht : c = '\t'
  · subst ht
    rfl
  simp [hbackslash, hquote, hn, hr, ht]

/-- `json_escape` covers the newline, the carriage return and the tab of the
    control characters and leaves the others as they are. So the quoted text is
    a JSON string that denotes `s` when `s` has none of the others, and otherwise
    it is no JSON string at all. -/
theorem jsonEscape_stringText_iff (s : String) :
    (StringText ('"' :: ((jsonEscape s).toList ++ ['"'])) s ↔
      ∀ c ∈ s.toList, c.toNat < 0x20 → c = '\n' ∨ c = '\r' ∨ c = '\t') ∧
    ((∃ v, StringText ('"' :: ((jsonEscape s).toList ++ ['"'])) v) →
      StringText ('"' :: ((jsonEscape s).toList ++ ['"'])) s) := by
  have hiff : AllPrintable s ↔
      ∀ c ∈ s.toList, c.toNat < 0x20 → c = '\n' ∨ c = '\r' ∨ c = '\t' := by
    refine forall₂_congr fun c _ => ?_
    rw [Printable, ← not_lt]
    tauto
  rw [toList_jsonEscape, ← hiff]
  have hprinted (h : AllPrintable s) :
      StringText ('"' :: (s.toList.flatMap escapeChar ++ ['"'])) s :=
    .of_forall fun c hc => charText_escapeChar (h c hc)
  refine ⟨⟨AllPrintable.of_stringText, hprinted⟩, ?_⟩
  rintro ⟨v, hv⟩
  exact hprinted (.of_stringText hv)

/-- The escape character of a terminal sequence stays in the text. -/
theorem jsonEscape_stringText_escape :
    ¬ ∃ v, StringText ('"' :: ((jsonEscape "\x1b[0m").toList ++ ['"'])) v := by
  rintro ⟨v, hv⟩
  rw [toList_jsonEscape] at hv
  exact absurd (AllPrintable.of_stringText hv) (by decide)

/-! ## One report -/

namespace EvidenceReport

/-- The members of a report, as JSON. -/
def members (r : EvidenceReport) : List (String × Value) :=
  [("case_name", .string r.caseName), ("status", .string r.status),
    ("original_len", .number r.originalLen.toNat 0),
    ("observed_len", .number r.observedLen.toNat 0),
    ("expected_digest", .number r.expectedDigest.toNat 0),
    ("observed_digest", .number r.observedDigest.toNat 0),
    ("original_timeline", .string r.originalTimeline),
    ("observed_timeline", .string r.observedTimeline), ("conclusion", .string r.conclusion)]

/-- The string fields of a report. -/
def texts (r : EvidenceReport) : List String :=
  [r.caseName, r.status, r.originalTimeline, r.observedTimeline, r.conclusion]

/-- A quoted string field. -/
def quoted (s : String) : List Char := '"' :: ((jsonEscape s).toList ++ ['"'])

/-- The members of a report, as printed. -/
def memberTexts (r : EvidenceReport) : List (List Char) :=
  [memberText "case_name" (quoted r.caseName), memberText "status" (quoted r.status),
    memberText "original_len" r.originalLen.toNat.repr.toList,
    memberText "observed_len" r.observedLen.toNat.repr.toList,
    memberText "expected_digest" r.expectedDigest.toNat.repr.toList,
    memberText "observed_digest" r.observedDigest.toNat.repr.toList,
    memberText "original_timeline" (quoted r.originalTimeline),
    memberText "observed_timeline" (quoted r.observedTimeline),
    memberText "conclusion" (quoted r.conclusion)]

/-- A report between its braces. -/
def text (r : EvidenceReport) : List Char :=
  '\x7b' :: (separated "\n    ".toList "\n  ".toList r.memberTexts ++ ['\x7d'])

theorem valueText_quoted {s : String} (h : AllPrintable s) :
    ValueText (quoted s) (.string s) := by
  rw [quoted, toList_jsonEscape]
  exact .string (.of_forall fun c hc => charText_escapeChar (h c hc))

theorem valueText_repr (n : ℕ) : ValueText n.repr.toList (.number n 0) := .number (number_repr n)

theorem isMember_string {key s : String} (hkey : Plain key) (h : AllPrintable s) :
    IsMember (memberText key (quoted s)) (key, .string s) :=
  ⟨hkey, quoted s, rfl, valueText_quoted h⟩

theorem isMember_number {key : String} (hkey : Plain key) (n : ℕ) :
    IsMember (memberText key n.repr.toList) (key, .number n 0) :=
  ⟨hkey, n.repr.toList, rfl, valueText_repr n⟩

/-- A printed report is a JSON object with the nine members. -/
theorem valueText_text {r : EvidenceReport} (h : ∀ s ∈ r.texts, AllPrintable s) :
    ValueText r.text (.object r.members) := by
  simp only [texts, List.forall_mem_cons] at h
  obtain ⟨hname, hstatus, horiginal, hobserved, hconclusion, -⟩ := h
  have hmembers : List.Forall₂ IsMember r.memberTexts r.members :=
    .cons (isMember_string (by decide) hname) <|
    .cons (isMember_string (by decide) hstatus) <|
    .cons (isMember_number (by decide) _) <|
    .cons (isMember_number (by decide) _) <|
    .cons (isMember_number (by decide) _) <|
    .cons (isMember_number (by decide) _) <|
    .cons (isMember_string (by decide) horiginal) <|
    .cons (isMember_string (by decide) hobserved) <|
    .cons (isMember_string (by decide) hconclusion) .nil
  exact .object (members_separated (by decide) (by decide) hmembers (by simp [memberTexts]))

end EvidenceReport

/-! ## The loop -/

theorem toList_stringLine (key value : String) :
    (stringLine key value).toList =
      "    ".toList ++ memberText key (EvidenceReport.quoted value) := by
  simp [stringLine, memberText, EvidenceReport.quoted]

theorem toList_numberLine (key : String) (value : ℕ) :
    (numberLine key value).toList = "    ".toList ++ memberText key value.repr.toList := by
  simp [numberLine, memberText]

/-- What the body of the loop prints. -/
theorem toList_pushReport (len : ℕ) (out : String) (i : ℕ) (r : EvidenceReport) :
    (pushReport len out i r).toList =
      out.toList ++ ("  ".toList ++ (r.text ++ if i + 1 ≠ len then ",\n".toList else ['\n'])) := by
  unfold pushReport EvidenceReport.text EvidenceReport.memberTexts
  split_ifs <;> simp [separated, toList_stringLine, toList_numberLine]

/-- The loop prints the reports that are left, `pre` and a newline being printed.
    The newline belongs to the whitespace before the next report, so every
    report but the last is followed by its comma alone. -/
theorem toList_foldl_pushReport {len : ℕ} {reports : List EvidenceReport} (hne : reports ≠ []) :
    ∀ (k : ℕ) (out : String) (pre : List Char), k + reports.length = len →
      out.toList = pre ++ ['\n'] →
      ((reports.zipIdx k).foldl (fun out (r, i) => pushReport len out i r) out).toList =
        pre ++ separated "\n  ".toList "\n".toList (reports.map EvidenceReport.text) := by
  induction reports with
  | nil => exact absurd rfl hne
  | cons r reports ih =>
    intro k out pre hlen hout
    rw [List.length_cons] at hlen
    rw [List.zipIdx_cons, List.foldl_cons]
    have hpush := toList_pushReport len out k r
    rw [hout] at hpush
    cases reports with
    | nil =>
      have hlast : ¬ k + 1 ≠ len := by simp at hlen; omega
      rw [if_neg hlast] at hpush
      rw [List.zipIdx_nil, List.foldl_nil, hpush]
      simp [separated]
    | cons r' reports =>
      have hmore : k + 1 ≠ len := by simp at hlen; omega
      rw [if_pos hmore] at hpush
      rw [ih (by simp) (k + 1) _ (pre ++ ("\n  ".toList ++ (r.text ++ [',']))) (by omega)
        (by rw [hpush]; simp)]
      simp [separated]

/-- The printed reports are a JSON document. -/
theorem reportsToJson_document {reports : List EvidenceReport}
    (h : ∀ r ∈ reports, ∀ s ∈ r.texts, AllPrintable s) :
    Document (reportsToJson reports).toList
      (.array (reports.map fun r => .object r.members)) := by
  have hnil : Ws [] := by decide
  have hnewline : Ws ['\n'] := by decide
  cases reports with
  | nil =>
    exact .mk hnil (.emptyArray hnewline) hnewline
  | cons r reports =>
    have hloop := toList_foldl_pushReport (List.cons_ne_nil r reports) 0 "[\n" ['[']
      (Nat.zero_add _) rfl
    have hvalues : List.Forall₂ ValueText ((r :: reports).map EvidenceReport.text)
        ((r :: reports).map fun r => .object r.members) := by
      rw [List.forall₂_map_left_iff, List.forall₂_map_right_iff, List.forall₂_same]
      exact fun r hr => EvidenceReport.valueText_text (h r hr)
    have hindent : Ws "\n  ".toList := by decide
    have harray := elements_separated hindent hnewline hvalues (by simp)
    have hdoc := Document.mk hnil (.array harray) hnewline
    rw [reportsToJson, String.toList_append, hloop]
    simpa using hdoc

/-! ## The round trip -/

/-- What `reports_to_json` prints reads back as what it was given: for every list
    of reports whose strings contain no control character but newlines,
    carriage returns and tabs, the text is a well-formed JSON document. It
    denotes one value only, which the reader finds: an array with one object for
    each report, with nine members that hold the fields of the report. -/
theorem reportsToJson_roundTrip (reports : List EvidenceReport)
    (h : ∀ r ∈ reports,
      ∀ s ∈ [r.caseName, r.status, r.originalTimeline, r.observedTimeline, r.conclusion],
        ∀ c ∈ s.toList, c.toNat < 0x20 → c = '\n' ∨ c = '\r' ∨ c = '\t') :
    ∃ objects : List Value,
      Document (reportsToJson reports).toList (.array objects) ∧
      (∀ v, Document (reportsToJson reports).toList v → v = .array objects) ∧
      Json.read (reportsToJson reports).toList = some (.array objects) ∧
      objects.length = reports.length ∧
      ∀ (i : ℕ) (r : EvidenceReport), reports[i]? = some r → objects[i]? = some (.object
        [("case_name", .string r.caseName), ("status", .string r.status),
          ("original_len", .number r.originalLen.toNat 0),
          ("observed_len", .number r.observedLen.toNat 0),
          ("expected_digest", .number r.expectedDigest.toNat 0),
          ("observed_digest", .number r.observedDigest.toNat 0),
          ("original_timeline", .string r.originalTimeline),
          ("observed_timeline", .string r.observedTimeline),
          ("conclusion", .string r.conclusion)]) := by
  have htexts : ∀ r ∈ reports, ∀ s ∈ r.texts, AllPrintable s := by
    intro r hr s hs c hc
    by_cases hcontrol : c.toNat < 0x20
    · exact .inr (h r hr s hs c hc hcontrol)
    · exact .inl (by omega)
  have hdoc := reportsToJson_document htexts
  refine ⟨reports.map fun r => .object r.members, hdoc, fun v hv => hv.unique hdoc,
    read_of_document hdoc, by simp, fun i r hr => ?_⟩
  rw [List.getElem?_map, hr]
  rfl

/-- Two reports, with strings that need every escape of the printer. -/
theorem reportsToJson_roundTrip_two :
    ∃ objects : List Value,
      Json.read (reportsToJson
        [⟨"a\"b\\c\n\r\t", "Clean", 4#64, 4#64, 1#128, 1#128, "", "x", "clean"⟩,
          ⟨"\\n", "Clean", 0#64, 1#64, BitVec.allOnes 128, 0#128, "é", "", "]"⟩]).toList =
        some (.array objects) ∧ objects.length = 2 := by
  obtain ⟨objects, -, -, hread, hlen, -⟩ := reportsToJson_roundTrip
    [⟨"a\"b\\c\n\r\t", "Clean", 4#64, 4#64, 1#128, 1#128, "", "x", "clean"⟩,
      ⟨"\\n", "Clean", 0#64, 1#64, BitVec.allOnes 128, 0#128, "é", "", "]"⟩] (by simp)
  exact ⟨objects, hread, hlen⟩

/-! ## The reports of incident cases -/

theorem CheckpointMismatch.allPrintable_debug (reason : CheckpointMismatch) :
    AllPrintable reason.debug := by
  cases reason <;> decide

theorem VerificationStatus.allPrintable_debug (status : VerificationStatus) :
    AllPrintable status.debug := by
  cases status with
  | clean => decide
  | metadataMismatch reason =>
    exact (AllPrintable.append (by decide) reason.allPrintable_debug).append (by decide)
  | digestMismatch => decide

theorem allPrintable_conclusionOf (status : VerificationStatus) :
    AllPrintable (conclusionOf status) := by
  cases status with
  | clean => decide
  | metadataMismatch reason => exact AllPrintable.append (by decide) reason.allPrintable_debug
  | digestMismatch => decide

theorem allPrintable_summarizeEvents {events : List TelemetryEvent}
    (h : ∀ e ∈ events, AllPrintable e.process ∧ AllPrintable e.target) :
    AllPrintable (summarizeEvents events) := by
  refine AllPrintable.intercalate (by decide) fun s hs => ?_
  obtain ⟨e, he, rfl⟩ := List.mem_map.mp hs
  have hkind : AllPrintable e.kind.debug := by cases e.kind <;> decide
  have hcolon : AllPrintable ":" := by decide
  exact ((((hkind.append hcolon).append (h e he).1).append hcolon).append (h e he).2)

/-- The export of incident cases is a JSON document whenever their names and the
    processes and targets of their events can be printed: every other text of a
    report is one of the program's own. -/
theorem buildReportsForCases_document {cases : List IncidentCase}
    (hname : ∀ c ∈ cases, AllPrintable c.name)
    (hevents : ∀ c ∈ cases, ∀ e ∈ c.originalEvents ++ c.observedEvents,
      AllPrintable e.process ∧ AllPrintable e.target) :
    Document (reportsToJson (buildReportsForCases cases)).toList
      (.array (cases.map fun c => .object (buildEvidenceReport c).members)) := by
  have htexts : ∀ r ∈ buildReportsForCases cases, ∀ s ∈ r.texts, AllPrintable s := by
    intro r hr
    obtain ⟨c, hc, rfl⟩ := List.mem_map.mp hr
    have hwindow := hevents c hc
    rw [List.forall_mem_append] at hwindow
    simp only [EvidenceReport.texts, List.forall_mem_cons]
    exact ⟨hname c hc, c.report.status.allPrintable_debug,
      allPrintable_summarizeEvents hwindow.1, allPrintable_summarizeEvents hwindow.2,
      allPrintable_conclusionOf _, by simp⟩
  have hdoc := reportsToJson_document htexts
  rw [buildReportsForCases, List.map_map] at hdoc
  exact hdoc

end TimeFence.Core
