import TimeFence.Epbf.Event

/-!
# Lines of strace

Model of the line parser of `timefence-trace/src/main.rs` (lines 53–137). A line
is classified by the names of system calls that it contains anywhere, while the
call that it reports is the one whose name stands right before its first `(`.
The arguments behind are paths and socket names that the traced program chooses.

`classifiedBySyscall_iff` says for which lines the two agree: for all lines of
`execve`, and for the others unless the arguments spell a call that the parser
looks for first.
-/

namespace TimeFence.Trace

open TimeFence.Common TimeFence.Core
open TimeFence.Epbf (contains)

/-! ## Model -/

/-- `struct TraceEvent` (lines 7–11). -/
structure TraceEvent where
  event : TelemetryEvent
  raw : String
  deriving DecidableEq, Repr

/-- Model of `extract_quoted_arg` (lines 53–58). -/
def extractQuotedArg (line : String) : Option String := do
  let start ← line.toList.findIdx? (· = '"')
  let rest := line.toList.drop (start + 1)
  let stop ← rest.findIdx? (· = '"')
  some (String.ofList (rest.take stop))

/-- Model of `is_noise_path` (lines 60–68). -/
def isNoisePath (path : String) : Bool :=
  contains path "libc.so" || contains path "ld.so.cache" || contains path "/usr/lib/locale" ||
    contains path "/usr/share/locale" || contains path "/gconv/" || contains path "/rustup/" ||
    contains path "/target/release/deps"

/-- Model of `is_relevant_path` (lines 70–81). -/
def isRelevantPath (path : String) : Bool :=
  contains path "/tmp/timefence_clean.txt" || contains path "/tmp/timefence_observed.txt" ||
    contains path "/tmp/timefence_extra.txt" || contains path "/tmp/timefence_demo.txt" ||
    contains path "secret" || contains path "token" || contains path "/etc/passwd" ||
    contains path "/bin/bash" || contains path "/usr/bin/bash" || contains path "/usr/bin/cat"

/-- Model of `parse_strace_line` (lines 83–137). -/
def parseStraceLine (line : String) : Option TraceEvent :=
  if contains line "execve(" then
    let target := (extractQuotedArg line).getD "unknown_exec"
    if isNoisePath target then none
    else some { event := ⟨.exec, "strace-target", target, 0#64⟩, raw := line }
  else if contains line "openat(" || contains line "open(" then
    let target := (extractQuotedArg line).getD "unknown_file"
    if isNoisePath target then none
    else if !isRelevantPath target then none
    else some { event := ⟨.openFile, "strace-target", target, 0#64⟩, raw := line }
  else if contains line "connect(" then
    some { event := ⟨.connect, "strace-target", "socket_connect", 0#64⟩, raw := line }
  else none

/-! ## The system call of a line -/

/-- The characters of an identifier. -/
def isIdentifierChar (c : Char) : Bool := c.isAlphanum || c = '_'

/-- The text in front of the first `(`. -/
def callHead (line : String) : List Char := line.toList.takeWhile (· ≠ '(')

/-- The text behind the first `(`. -/
def arguments (line : String) : String :=
  String.ofList (line.toList.dropWhile (· ≠ '(')).tail

/-- The identifier right before the first `(`. -/
def syscallName (line : String) : Option String :=
  if '(' ∈ line.toList then
    some (String.ofList ((callHead line).rtakeWhile isIdentifierChar))
  else none

/-- The parser classifies the line by its system call. -/
def ClassifiedBySyscall (line : String) : Prop :=
  (syscallName line = some "execve" →
    ∀ e ∈ parseStraceLine line, e.event.kind = .exec) ∧
  (syscallName line = some "open" ∨ syscallName line = some "openat" →
    ∀ e ∈ parseStraceLine line, e.event.kind = .openFile) ∧
  (syscallName line = some "connect" →
    ∃ e ∈ parseStraceLine line, e.event.kind = .connect)

section

variable {line name : String}

theorem toList_eq_of_mem (h : '(' ∈ line.toList) :
    line.toList = callHead line ++ '(' :: (arguments line).toList := by
  obtain ⟨s, t, hline, hs⟩ := List.eq_append_cons_of_mem h
  have hall : ∀ c ∈ s, (decide (c ≠ '(')) = true := by
    intro c hc
    rw [decide_eq_true_eq]
    rintro rfl
    exact hs hc
  rw [callHead, arguments, hline, List.takeWhile_append_of_pos hall,
    List.dropWhile_append_of_pos hall, String.toList_ofList]
  simp

theorem notMem_callHead (line : String) : '(' ∉ callHead line := by
  intro h
  have hne := List.mem_takeWhile_imp h
  simp at hne

/-- A word of identifier characters at the end of a text belongs to the
    identifier there. -/
theorem suffix_rtakeWhile_iff {p : Char → Bool} {u l : List Char} (hu : ∀ c ∈ u, p c = true) :
    u <:+ l ↔ u <:+ l.rtakeWhile p := by
  constructor
  · rintro ⟨s, rfl⟩
    rw [List.rtakeWhile, List.reverse_append,
      List.takeWhile_append_of_pos (by simpa using hu), List.reverse_append, List.reverse_reverse]
    exact List.suffix_append _ _
  · intro h
    exact h.trans (List.rtakeWhile_suffix p l)

/-- A line contains the spelling of a call when its own call ends so, or when
    its arguments contain it. -/
theorem contains_call_iff (h : syscallName line = some name) (w call : String)
    (hcall : call = w ++ "(") (hw : w.toList.all isIdentifierChar = true) :
    contains line call = true ↔
      w.toList <:+ name.toList ∨ contains (arguments line) call = true := by
  subst hcall
  unfold syscallName at h
  split_ifs at h with hmem
  cases h
  rw [List.all_eq_true] at hw
  have hparen : '(' ∉ w.toList := fun hc => absurd (hw _ hc) (by decide)
  rw [contains, contains, decide_eq_true_eq, decide_eq_true_eq, String.toList_append,
    toList_eq_of_mem hmem, String.toList_ofList (l := List.rtakeWhile _ _),
    ← suffix_rtakeWhile_iff hw]
  exact concat_infix_append_cons_iff hparen (notMem_callHead line)

/-! ## What the parser returns -/

theorem kind_of_execve (h : contains line "execve(" = true) :
    ∀ e ∈ parseStraceLine line, e.event.kind = .exec := by
  intro e he
  rw [parseStraceLine, if_pos h] at he
  obtain ⟨-, rfl⟩ := by simpa using he
  rfl

theorem kind_of_open (hexecve : contains line "execve(" = false)
    (h : contains line "openat(" = true ∨ contains line "open(" = true) :
    ∀ e ∈ parseStraceLine line, e.event.kind = .openFile := by
  intro e he
  rw [parseStraceLine, if_neg (by simp [hexecve]), if_pos (by simpa using h)] at he
  obtain ⟨-, -, rfl⟩ := by simpa using he
  rfl

/-- A line that spells `execve(` is dropped as noise or taken as an exec event. -/
theorem parseStraceLine_eq_none_iff_of_execve (h : contains line "execve(" = true) :
    parseStraceLine line = none ↔
      isNoisePath ((extractQuotedArg line).getD "unknown_exec") = true := by
  rw [parseStraceLine, if_pos h]
  simp

theorem kind_of_connect (hexecve : contains line "execve(" = false)
    (hopenat : contains line "openat(" = false) (hopen : contains line "open(" = false)
    (h : contains line "connect(" = true) :
    ∃ e ∈ parseStraceLine line, e.event.kind = .connect := by
  rw [parseStraceLine, if_neg (by simp [hexecve]), if_neg (by simp [hopenat, hopen]), if_pos h]
  exact ⟨_, rfl, rfl⟩

/-! ## One call -/

/-- Lines of `open` and `openat`. -/
theorem kind_of_open_iff (h : syscallName line = some "open" ∨ syscallName line = some "openat") :
    (∀ e ∈ parseStraceLine line, e.event.kind = .openFile) ↔
      (contains (arguments line) "execve(" = true →
        isNoisePath ((extractQuotedArg line).getD "unknown_exec") = true) := by
  have hexecve : contains line "execve(" = true ↔ contains (arguments line) "execve(" = true := by
    rcases h with h | h
    · rw [contains_call_iff h "execve" "execve(" rfl (by decide), or_iff_right (by decide)]
    · rw [contains_call_iff h "execve" "execve(" rfl (by decide), or_iff_right (by decide)]
  have hopen : contains line "openat(" = true ∨ contains line "open(" = true := by
    rcases h with h | h
    · exact .inr ((contains_call_iff h "open" "open(" rfl (by decide)).mpr (.inl (by decide)))
    · exact .inl ((contains_call_iff h "openat" "openat(" rfl (by decide)).mpr (.inl (by decide)))
  rw [← hexecve]
  by_cases hex : contains line "execve(" = true
  · rw [← parseStraceLine_eq_none_iff_of_execve hex]
    constructor
    · intro hkind _
      -- An event of this line would be an exec event.
      by_contra hne
      obtain ⟨e, he⟩ := Option.ne_none_iff_exists'.mp hne
      have hexec := kind_of_execve hex e he
      rw [hkind e he] at hexec
      cases hexec
    · intro hnone e he
      rw [hnone hex] at he
      cases he
  · have hkind := kind_of_open (by simpa using hex) hopen
    exact iff_of_true hkind (fun hcall => absurd hcall hex)

/-- Lines of `connect`. -/
theorem kind_of_connect_iff (h : syscallName line = some "connect") :
    (∃ e ∈ parseStraceLine line, e.event.kind = .connect) ↔
      contains (arguments line) "execve(" = false ∧ contains (arguments line) "openat(" = false ∧
        contains (arguments line) "open(" = false := by
  have hexecve : contains line "execve(" = true ↔ contains (arguments line) "execve(" = true := by
    rw [contains_call_iff h "execve" "execve(" rfl (by decide), or_iff_right (by decide)]
  have hopenat : contains line "openat(" = true ↔ contains (arguments line) "openat(" = true := by
    rw [contains_call_iff h "openat" "openat(" rfl (by decide), or_iff_right (by decide)]
  have hopen : contains line "open(" = true ↔ contains (arguments line) "open(" = true := by
    rw [contains_call_iff h "open" "open(" rfl (by decide), or_iff_right (by decide)]
  have hconnect : contains line "connect(" = true :=
    (contains_call_iff h "connect" "connect(" rfl (by decide)).mpr (.inl (by decide))
  simp only [← Bool.not_eq_true, ← hexecve, ← hopenat, ← hopen]
  constructor
  · rintro ⟨e, he, hkind⟩
    have hex : ¬ contains line "execve(" = true := by
      intro hex
      rw [kind_of_execve hex e he] at hkind
      cases hkind
    have hop : ¬ (contains line "openat(" = true ∨ contains line "open(" = true) := by
      intro hop
      rw [kind_of_open (by simpa using hex) hop e he] at hkind
      cases hkind
    exact ⟨hex, not_or.mp hop⟩
  · rintro ⟨hex, hat, hop⟩
    exact kind_of_connect (by simpa using hex) (by simpa using hat) (by simpa using hop) hconnect

end

/-! ## The law -/

/-- The parser classifies a line by its system call exactly when the arguments do
    not spell a call that it looks for first: lines of `execve` always, lines of
    `open` and `openat` unless the arguments contain `execve(` and the line is
    not dropped as noise, and lines of `connect` unless the arguments contain
    `execve(`, `openat(` or `open(`. -/
theorem classifiedBySyscall_iff (line : String) :
    ClassifiedBySyscall line ↔
      (syscallName line = some "open" ∨ syscallName line = some "openat" →
        contains (arguments line) "execve(" = true →
          isNoisePath ((extractQuotedArg line).getD "unknown_exec") = true) ∧
      (syscallName line = some "connect" →
        contains (arguments line) "execve(" = false ∧
          contains (arguments line) "openat(" = false ∧
            contains (arguments line) "open(" = false) := by
  have hexecve : syscallName line = some "execve" →
      ∀ e ∈ parseStraceLine line, e.event.kind = .exec := fun h =>
    kind_of_execve ((contains_call_iff h "execve" "execve(" rfl (by decide)).mpr (.inl (by decide)))
  unfold ClassifiedBySyscall
  constructor
  · rintro ⟨-, hopen, hconnect⟩
    exact ⟨fun h => (kind_of_open_iff h).mp (hopen h),
      fun h => (kind_of_connect_iff h).mp (hconnect h)⟩
  · rintro ⟨hopen, hconnect⟩
    exact ⟨hexecve, fun h => (kind_of_open_iff h).mpr (hopen h),
      fun h => (kind_of_connect_iff h).mpr (hconnect h)⟩

/-- A `connect` whose socket path spells another call. -/
def socketPathLine : String :=
  "connect(3, \x7bsa_family=AF_UNIX, sun_path=\"/tmp/execve(\"\x7d, 110) = 0"

/-- The socket path makes an exec event of the line. -/
theorem classifiedBySyscall_socket_path :
    syscallName socketPathLine = some "connect" ∧
      (parseStraceLine socketPathLine).map (fun e => e.event.kind) = some .exec ∧
      ¬ ClassifiedBySyscall socketPathLine := by
  have hname : syscallName socketPathLine = some "connect" := by decide +kernel
  have hexec : (parseStraceLine socketPathLine).map (fun e => e.event.kind) = some .exec := by
    decide +kernel
  refine ⟨hname, hexec, fun h => ?_⟩
  obtain ⟨e, he, hkind⟩ := h.2.2 hname
  rw [he, Option.map_some, hkind] at hexec
  cases hexec

end TimeFence.Trace
