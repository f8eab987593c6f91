import TimeFence.Core.Events

/-!
# Kernel events

Model of the event side of the live collector
(`timefence_epbf/src/main.rs`, lines 33–125, and `timefence_epbf_common`): an
item of the ring buffer is the memory of a `RawKernelEvent`, which is filtered
by its type and its texts and turned into a telemetry event.

The layout of the `repr(C)` struct is that of a 64-bit little-endian target. The
texts are cut at their first zero byte and decoded as UTF-8, where every
maximal part that is not well formed becomes one `U+FFFD`
(`String::from_utf8_lossy`).
-/

namespace TimeFence.Epbf

open TimeFence.Common TimeFence.Core

/-! ## Text -/

/-- How many bytes a character takes whose first byte is `b`; zero when no
    character starts with `b`. -/
def utf8CharWidth (b : ℕ) : ℕ :=
  if b < 0x80 then 1
  else if 0xC2 ≤ b ∧ b ≤ 0xDF then 2
  else if 0xE0 ≤ b ∧ b ≤ 0xEF then 3
  else if 0xF0 ≤ b ∧ b ≤ 0xF4 then 4
  else 0

def isContinuation (c : ℕ) : Bool := 0x80 ≤ c && c ≤ 0xBF

/-- The second byte of a character: overlong forms, surrogates and values above
    `U+10FFFF` are excluded. -/
def isSecond (b c : ℕ) : Bool :=
  if b = 0xE0 then 0xA0 ≤ c && c ≤ 0xBF
  else if b = 0xED then 0x80 ≤ c && c ≤ 0x9F
  else if b = 0xF0 then 0x90 ≤ c && c ≤ 0xBF
  else if b = 0xF4 then 0x80 ≤ c && c ≤ 0x8F
  else isContinuation c

/-- The character at the front of `b :: rest`, and how many bytes of `rest` it
    takes. A byte past the end counts as zero, which continues nothing. -/
def decodeFront (b : ℕ) (rest : List U8) : Char × ℕ :=
  let byte (i : ℕ) := (rest.getD i 0#8).toNat
  let width := utf8CharWidth b
  if width = 1 then (Char.ofNat b, 0)
  else if width = 0 ∨ ¬ isSecond b (byte 0) then ('\uFFFD', 0)
  else if width = 2 then (Char.ofNat (b % 0x20 * 0x40 + byte 0 % 0x40), 1)
  else if ¬ isContinuation (byte 1) then ('\uFFFD', 1)
  else if width = 3 then
    (Char.ofNat ((b % 0x10 * 0x40 + byte 0 % 0x40) * 0x40 + byte 1 % 0x40), 2)
  else if ¬ isContinuation (byte 2) then ('\uFFFD', 2)
  else
    (Char.ofNat (((b % 0x08 * 0x40 + byte 0 % 0x40) * 0x40 + byte 1 % 0x40) * 0x40 +
      byte 2 % 0x40), 3)

/-- The characters of the bytes that are left after the first `skip`. -/
def decodeFrom : ℕ → List U8 → List Char
  | _, [] => []
  | skip + 1, _ :: bytes => decodeFrom skip bytes
  | 0, b :: bytes =>
    let (c, taken) := decodeFront b.toNat bytes
    c :: decodeFrom taken bytes

/-- `String::from_utf8_lossy`. -/
def fromUtf8Lossy (bytes : List U8) : String := String.ofList (decodeFrom 0 bytes)

/-- Model of `bytes_to_string` (lines 33–36). -/
def bytesToString (bytes : List U8) : String :=
  let stop := (bytes.findIdx? (· = 0#8)).getD bytes.length
  fromUtf8Lossy (bytes.take stop)

/-- `s.contains(w)`. -/
def contains (s w : String) : Bool := w.toList <:+: s.toList

/-! ## Events -/

def eventExec : U32 := 1#32

def eventOpenat : U32 := 2#32

def eventConnect : U32 := 3#32

/-- `struct RawKernelEvent`. -/
structure RawKernelEvent where
  eventType : U32
  pid : U32
  uid : U32
  timestampNs : U64
  comm : Vector U8 16
  target : Vector U8 128
  deriving DecidableEq, Repr

/-- `mem::size_of::<RawKernelEvent>()`: three `u32`, four bytes of padding, a
    `u64` and the two arrays. -/
def sizeOfRawKernelEvent : ℕ := 168

/-- The little-endian number in `n` bytes from `offset` on. -/
def word (data : List U8) (offset n : ℕ) : BitVec (8 * n) :=
  BitVec.ofNat (8 * n) (Nat.ofDigits 256 (((data.drop offset).take n).map BitVec.toNat))

/-- The bytes of a word are its digits: nothing is cut off. -/
theorem toNat_word (data : List U8) (offset n : ℕ) :
    (word data offset n).toNat =
      Nat.ofDigits 256 (((data.drop offset).take n).map BitVec.toNat) := by
  have hbyte : ∀ d ∈ ((data.drop offset).take n).map BitVec.toNat, d < 256 := by
    intro d hd
    obtain ⟨b, -, rfl⟩ := List.mem_map.mp hd
    exact b.isLt
  have hlen : (((data.drop offset).take n).map BitVec.toNat).length ≤ n := by
    rw [List.length_map, List.length_take]
    exact Nat.min_le_left _ _
  rw [word, BitVec.toNat_ofNat, Nat.mod_eq_of_lt]
  calc Nat.ofDigits 256 (((data.drop offset).take n).map BitVec.toNat)
      < 256 ^ (((data.drop offset).take n).map BitVec.toNat).length :=
        Nat.ofDigits_lt_base_pow_length (by norm_num) hbyte
    _ ≤ 256 ^ n := Nat.pow_le_pow_right (by norm_num) hlen
    _ = 2 ^ (8 * n) := by rw [pow_mul]; norm_num

/-- The array of `n` bytes from `offset` on. -/
def byteArray (data : List U8) (offset n : ℕ) : Vector U8 n :=
  Vector.ofFn fun i => data.getD (offset + i) 0#8

/-- Model of `parse_raw_kernel_event` (lines 38–45). -/
def parseRawKernelEvent (data : List U8) : Option RawKernelEvent :=
  if data.length < sizeOfRawKernelEvent then none
  else some
    { eventType := word data 0 4
      pid := word data 4 4
      uid := word data 8 4
      timestampNs := word data 16 8
      comm := byteArray data 24 16
      target := byteArray data 40 128 }

/-- Model of `event_type_name` (lines 47–54). -/
def eventTypeName (eventType : U32) : String :=
  if eventType = eventExec then "Exec"
  else if eventType = eventOpenat then "OpenFile"
  else if eventType = eventConnect then "Connect"
  else "Unknown"

/-- Model of `should_keep_event` (lines 56–84). -/
def shouldKeepEvent (raw : RawKernelEvent) : Bool :=
  let comm := bytesToString raw.comm.toList
  let target := bytesToString raw.target.toList
  if raw.eventType = eventExec then
    comm = "bash" || comm = "cat" || comm = "ls" || comm = "echo" || comm = "whoami" ||
      comm = "pwd" || comm = "curl" || comm = "wget" || comm = "nc" || comm = "python3"
  else if raw.eventType = eventOpenat then
    contains target "/tmp/timefence" || contains target "/etc/hostname" ||
      contains target "/etc/passwd"
  else if raw.eventType = eventConnect then true
  else false

/-- Model of `raw_event_to_telemetry` (lines 86–125). -/
def rawEventToTelemetry (raw : RawKernelEvent) : TelemetryEvent :=
  let comm := bytesToString raw.comm.toList
  let targetText := bytesToString raw.target.toList
  let pid := raw.pid.toNat.repr
  let uid := raw.uid.toNat.repr
  if raw.eventType = eventExec then
    ⟨.exec, comm, "exec:pid=" ++ pid ++ ":uid=" ++ uid ++ ":comm=" ++ comm, raw.timestampNs⟩
  else if raw.eventType = eventOpenat then
    let target :=
      if targetText.isEmpty then "openat:pid=" ++ pid ++ ":uid=" ++ uid ++ ":path=<unknown>"
      else targetText
    ⟨.openFile, comm, target, raw.timestampNs⟩
  else if raw.eventType = eventConnect then
    let target :=
      if targetText.isEmpty then "connect:pid=" ++ pid ++ ":uid=" ++ uid ++ ":target=<unknown>"
      else targetText
    ⟨.connect, comm, target, raw.timestampNs⟩
  else
    ⟨.exec, comm, "unknown:pid=" ++ pid ++ ":uid=" ++ uid, raw.timestampNs⟩

end TimeFence.Epbf
