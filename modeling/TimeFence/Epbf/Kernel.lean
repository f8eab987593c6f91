import TimeFence.Epbf.Binding
import TimeFence.Epbf.Ipv4

/-!
# The kernel side

Model of the three tracepoint programs (`timefence_epbf_ebpf/src/main.rs`, lines
27–55, 75–81 and 174–240), up to the call of `emit_event`: each fills in the
common fields of an event and writes its target. What the helpers of the kernel
return is the context of a firing.

* `tryConnect_written`: the target of a connect event holds the text of the
  destination and zeros behind it.
* `tryConnect_telemetry`: userspace keeps every connect event, reads the
  destination back from it, and tells all destinations apart.
-/

namespace TimeFence.Epbf

open TimeFence.Common TimeFence.Core

/-! ## Model -/

/-- `struct SockAddrIn`, whose padding no code reads. -/
structure SockAddrIn where
  sinFamily : U16
  sinPort : U16
  sinAddr : U32
  deriving DecidableEq, Repr

/-- What the helpers return at one firing of a tracepoint. -/
structure Context where
  /-- `bpf_get_current_pid_tgid()`. -/
  pidTgid : U64
  /-- `bpf_get_current_uid_gid()`. -/
  uidGid : U64
  /-- `bpf_ktime_get_ns()`. -/
  ktimeNs : U64
  /-- `bpf_get_current_comm()`. -/
  comm : Option (Vector U8 16)
  /-- `ctx.read_at(24)`. -/
  readAt : Option U64
  /-- What `bpf_probe_read_user_str_bytes` leaves in the target. -/
  userStr : Vector U8 128
  /-- `bpf_probe_read_user` at the address of the socket. -/
  userSockaddr : Option SockAddrIn
  deriving DecidableEq, Repr

/-- Model of `fill_common` (lines 36–55). -/
def fillCommon (ctx : Context) (eventType : U32) : RawKernelEvent :=
  { eventType
    pid := (ctx.pidTgid >>> 32).setWidth 32
    uid := ctx.uidGid.setWidth 32
    timestampNs := ctx.ktimeNs
    comm := ctx.comm.getD (Vector.replicate 16 0#8)
    target := Vector.replicate 128 0#8 }

/-- The loop of `write_bytes` (lines 77–80), from `i` on. -/
def writeBytesFrom (src : List U8) (dst : Vector U8 128) (i : ℕ) : Exec (Vector U8 128) :=
  if i < src.length ∧ i < 128 then do
    let b ← index src i
    let dst ← store dst i b
    writeBytesFrom src dst (i + 1)
  else pure dst
termination_by src.length - i

/-- Model of `write_bytes` (lines 75–81). -/
def writeBytes (dst : Vector U8 128) (src : List U8) : Exec (Vector U8 128) :=
  writeBytesFrom src dst 0

/-- `b"label\0"`. -/
def byteString (label : String) : List U8 := label.toList.map ascii ++ [0#8]

/-- Model of `try_execve` (lines 182–185): the event that is emitted, or the error
    code with which the program ends before. -/
def tryExecve (ctx : Context) : Exec (Except U32 RawKernelEvent) :=
  pure (.ok (fillCommon ctx eventExec))

/-- Model of `try_openat` (lines 195–206). -/
def tryOpenat (ctx : Context) : Exec (Except U32 RawKernelEvent) :=
  let event := fillCommon ctx eventOpenat
  match ctx.readAt with
  | none => pure (.error 1#32)
  | some filenamePtr =>
    if filenamePtr ≠ 0#64 then pure (.ok { event with target := ctx.userStr })
    else pure (.ok event)

/-- What `try_connect` writes into the zeroed target (lines 223–237). -/
def connectTarget (ctx : Context) (sockaddrPtr : U64) (target : Vector U8 128) :
    Exec (Vector U8 128) :=
  if sockaddrPtr ≠ 0#64 then
    match ctx.userSockaddr with
    | some sa =>
      if sa.sinFamily = 2#16 then writeIpv4Port target sa.sinAddr sa.sinPort
      else writeBytes target (byteString "socket_connect_non_ipv4")
    | none => writeBytes target (byteString "socket_connect_unreadable")
  else writeBytes target (byteString "socket_connect_null")

/-- Model of `try_connect` (lines 216–240). -/
def tryConnect (ctx : Context) : Exec (Except U32 RawKernelEvent) :=
  let event := fillCommon ctx eventConnect
  match ctx.readAt with
  | none => pure (.error 1#32)
  | some sockaddrPtr => do
    let target ← connectTarget ctx sockaddrPtr event.target
    pure (.ok { event with target })

/-- The three tracepoints. -/
inductive Tracepoint where
  | execve
  | openat
  | connect
  deriving DecidableEq, Repr

/-- The program of a tracepoint, up to `emit_event`. -/
def Tracepoint.handler : Tracepoint → Context → Exec (Except U32 RawKernelEvent)
  | .execve => tryExecve
  | .openat => tryOpenat
  | .connect => tryConnect

/-! ## Destinations -/

/-- What a connect event is about. -/
inductive Destination where
  | null
  | unreadable
  | nonIpv4
  | ipv4 (o1 o2 o3 o4 : U8) (port : ℕ)
  deriving DecidableEq, Repr

def Destination.text : Destination → String
  | .null => "socket_connect_null"
  | .unreadable => "socket_connect_unreadable"
  | .nonIpv4 => "socket_connect_non_ipv4"
  | .ipv4 o1 o2 o3 o4 port => ipv4PortText o1 o2 o3 o4 port

/-- The octet `i` of an address in network order. -/
def octet (addr : U32) (i : ℕ) : U8 := (addr >>> (8 * i)).setWidth 8

/-- The destination of a connect call whose socket address is at `ptr`. -/
def Context.destination (ctx : Context) (ptr : U64) : Destination :=
  if ptr = 0#64 then .null
  else match ctx.userSockaddr with
    | none => .unreadable
    | some sa =>
      if sa.sinFamily = 2#16 then
        .ipv4 (octet sa.sinAddr 0) (octet sa.sinAddr 1) (octet sa.sinAddr 2) (octet sa.sinAddr 3)
          (fromBe sa.sinPort).toNat
      else .nonIpv4

/-- A text of an address starts with a digit, the other texts do not. -/
theorem ipv4PortText_ne {o1 o2 o3 o4 : U8} {port : ℕ} {label : String}
    (h : label.toList.head?.all fun c => !c.isDigit) : ipv4PortText o1 o2 o3 o4 port ≠ label := by
  rintro rfl
  rw [toList_ipv4PortText] at h
  cases hlist : o1.toNat.repr.toList with
  | nil => simp [Nat.toList_repr] at hlist
  | cons c rest =>
    have hdigit : c.isDigit = true := isDigit_of_mem_repr (by rw [hlist]; exact List.mem_cons_self)
    simp [hlist, hdigit] at h

/-- Different destinations have different texts. -/
theorem Destination.text_injective : Function.Injective Destination.text := by
  intro d d' h
  cases d with
  | ipv4 o1 o2 o3 o4 port =>
    cases d' with
    | ipv4 o1' o2' o3' o4' port' =>
      obtain ⟨rfl, rfl, rfl, rfl, rfl⟩ := ipv4PortText_inj h
      rfl
    | _ => exact absurd h (ipv4PortText_ne (by decide))
  | _ =>
    cases d' with
    | ipv4 => exact absurd h.symm (ipv4PortText_ne (by decide))
    | _ => first | rfl | exact absurd h (by decide)

theorem Destination.text_ne_empty (d : Destination) : d.text ≠ "" := by
  cases d with
  | ipv4 => exact ipv4PortText_ne (by decide)
  | _ => decide

/-! ## The target -/

/-- The loop of `write_bytes` writes into a target that is zero behind what has
    been written. -/
theorem writeBytesFrom_returns {src : List U8} (hlen : src.length ≤ 128) {dst : Vector U8 128}
    {i : ℕ} (hi : i ≤ src.length)
    (hdst : dst.toList = src.take i ++ List.replicate (128 - i) 0#8) :
    Returns (writeBytesFrom src dst i) fun dst' =>
      dst'.toList = src ++ List.replicate (128 - src.length) 0#8 := by
  induction hk : src.length - i generalizing dst i with
  | zero =>
    have hdone : ¬ (i < src.length ∧ i < 128) := by omega
    have hall : i = src.length := by omega
    rw [writeBytesFrom, if_neg hdone]
    rw [hall, List.take_length] at hdst
    exact Returns.pure hdst
  | succ k ih =>
    have hlt : i < src.length := by omega
    have hcond : i < src.length ∧ i < 128 := ⟨hlt, by omega⟩
    rw [writeBytesFrom, if_pos hcond, index_of_lt hlt, ok_bind, store_returns dst hcond.2, ok_bind]
    refine ih hlt ?_ (by omega)
    obtain ⟨m, hm⟩ : ∃ m, 128 - i = m + 1 := ⟨127 - i, by omega⟩
    have hm' : 128 - (i + 1) = m := by omega
    rw [Vector.toList_set, hdst, hm, hm', List.replicate_succ, List.take_succ_eq_append_getElem hlt,
      List.set_append_right _ _ (by simp), List.length_take, Nat.min_eq_left hi, Nat.sub_self,
      List.set_cons_zero, List.append_assoc, List.singleton_append]

/-- A label and its zero byte. -/
theorem writeBytes_written {label : String} (hlen : label.toList.length < 128) :
    Returns (writeBytes (Vector.replicate 128 0#8) (byteString label)) fun dst =>
      Written dst label.toList.length label.toList := by
  have hbytes : (byteString label).length = label.toList.length + 1 := by simp [byteString]
  have hsrc : (byteString label).length ≤ 128 := by omega
  have hwrite := writeBytesFrom_returns hsrc (Nat.zero_le _)
    (by rw [List.take_zero, List.nil_append, Vector.toList_replicate])
  refine hwrite.mono fun dst hdst => ⟨?_, rfl⟩
  obtain ⟨k, hk⟩ : ∃ k, 128 - label.toList.length = k + 1 := ⟨127 - label.toList.length, by omega⟩
  have hk' : 128 - (label.toList.length + 1) = k := by omega
  rw [hdst, hbytes, hk, hk', byteString, List.append_assoc, List.replicate_succ]
  rfl

theorem toNat_octet (addr : U32) (i : ℕ) :
    (octet addr i).toNat = addr.toNat / 2 ^ (8 * i) % 256 := by
  rw [octet, BitVec.toNat_setWidth, BitVec.toNat_ushiftRight, Nat.shiftRight_eq_div_pow]

/-- An address is the word of its octets. -/
theorem word_octet (addr : U32) :
    word [octet addr 0, octet addr 1, octet addr 2, octet addr 3] 0 4 = addr := by
  have hlt := addr.isLt
  apply BitVec.eq_of_toNat_eq
  rw [toNat_word_four, toNat_octet, toNat_octet, toNat_octet, toNat_octet]
  omega

/-- A port is the word of its two bytes. -/
theorem word_port (port : U16) : word [port.setWidth 8, (port >>> 8).setWidth 8] 0 2 = port := by
  have hlt := port.isLt
  apply BitVec.eq_of_toNat_eq
  rw [toNat_word]
  simp only [List.drop_zero, List.take_succ_cons, List.take_zero, List.map_cons, List.map_nil,
    Nat.ofDigits_cons, Nat.ofDigits_nil, BitVec.toNat_setWidth, BitVec.toNat_ushiftRight,
    Nat.shiftRight_eq_div_pow]
  omega

/-- The writer of addresses, for any address and port. -/
theorem writeIpv4Port_octets (addr : U32) (port : U16) :
    Returns (writeIpv4Port (Vector.replicate 128 0#8) addr port) fun dst => ∃ pos, Written dst pos
      (ipv4PortText (octet addr 0) (octet addr 1) (octet addr 2) (octet addr 3)
        (fromBe port).toNat).toList := by
  have hport := toNat_fromBe_word (port.setWidth 8) ((port >>> 8).setWidth 8)
  rw [word_port] at hport
  have h := writeIpv4Port_written (octet addr 0) (octet addr 1) (octet addr 2) (octet addr 3)
    (port.setWidth 8) ((port >>> 8).setWidth 8)
  rwa [word_octet, word_port, ← hport] at h

/-! ## Connect events -/

/-- Each branch writes the text of the destination. -/
theorem connectTarget_written (ctx : Context) (ptr : U64) :
    Returns (connectTarget ctx ptr (Vector.replicate 128 0#8)) fun target =>
      ∃ pos, Written target pos (ctx.destination ptr).text.toList := by
  have hlabel : ∀ label : String, label.toList.length < 128 → (ctx.destination ptr).text = label →
      Returns (writeBytes (Vector.replicate 128 0#8) (byteString label)) fun target =>
        ∃ pos, Written target pos (ctx.destination ptr).text.toList := by
    intro label hlen htext
    rw [htext]
    exact (writeBytes_written hlen).mono fun target h => ⟨_, h⟩
  unfold connectTarget
  by_cases hnull : ptr = 0#64
  · rw [if_neg (not_not.mpr hnull)]
    exact hlabel _ (by decide) (by rw [Context.destination, if_pos hnull]; rfl)
  · rw [if_pos hnull]
    cases hsock : ctx.userSockaddr with
    | none =>
      exact hlabel _ (by decide) (by rw [Context.destination, if_neg hnull, hsock]; rfl)
    | some sa =>
      by_cases hfamily : sa.sinFamily = 2#16
      · have hdest : (ctx.destination ptr).text = ipv4PortText (octet sa.sinAddr 0)
            (octet sa.sinAddr 1) (octet sa.sinAddr 2) (octet sa.sinAddr 3)
            (fromBe sa.sinPort).toNat := by
          simp only [Context.destination, if_neg hnull, hsock, if_pos hfamily, Destination.text]
        simp only [if_pos hfamily]
        rw [hdest]
        exact writeIpv4Port_octets sa.sinAddr sa.sinPort
      · simp only [if_neg hfamily]
        exact hlabel _ (by decide) (by
          simp only [Context.destination, if_neg hnull, hsock, if_neg hfamily, Destination.text])

/-- The target of a connect event holds the text of the destination, and the other
    fields are the common ones. -/
theorem tryConnect_written {ctx : Context} {ptr : U64} (hptr : ctx.readAt = some ptr) :
    Returns (tryConnect ctx) fun r => ∃ target pos,
      Written target pos (ctx.destination ptr).text.toList ∧
      r = .ok { fillCommon ctx eventConnect with target } := by
  unfold tryConnect
  rw [hptr]
  exact (connectTarget_written ctx ptr).bind fun target ⟨pos, h⟩ =>
    Returns.pure ⟨target, pos, h, rfl⟩

/-- A destination fits into the target and has no zero byte. -/
theorem Written.bytesToString_destination {target : Vector U8 128} {pos : ℕ} {d : Destination}
    (h : Written target pos d.text.toList) (hport : ∀ o1 o2 o3 o4 port,
      d = .ipv4 o1 o2 o3 o4 port → port < 10 ^ 5) : bytesToString target.toList = d.text := by
  rw [← String.ofList_toList (s := d.text)]
  cases d with
  | ipv4 o1 o2 o3 o4 port =>
    have hlen := length_ipv4PortText_le o1 o2 o3 o4 (hport o1 o2 o3 o4 port rfl)
    exact h.bytesToString_eq (lt_of_le_of_lt hlen (by norm_num)) fun c hc =>
      ascii_of_mem_ipv4PortText hc
  | _ =>
    refine h.bytesToString_eq (by decide) fun c hc => ?_
    have hall : ∀ label : String, (label.toList.all fun c => 0 < c.toNat && c.toNat < 0x80) = true →
        c ∈ label.toList → 0 < c.toNat ∧ c.toNat < 0x80 := by
      intro label hlabel hc
      simpa using List.all_eq_true.mp hlabel c hc
    exact hall _ (by decide) hc

theorem Context.destination_port_lt {ctx : Context} {ptr : U64} {o1 o2 o3 o4 : U8} {port : ℕ}
    (h : ctx.destination ptr = .ipv4 o1 o2 o3 o4 port) : port < 10 ^ 5 := by
  unfold Context.destination at h
  by_cases hnull : ptr = 0#64
  · rw [if_pos hnull] at h
    cases h
  · rw [if_neg hnull] at h
    cases hsock : ctx.userSockaddr with
    | none =>
      rw [hsock] at h
      cases h
    | some sa =>
      rw [hsock] at h
      by_cases hfamily : sa.sinFamily = 2#16
      · simp only [if_pos hfamily, Destination.ipv4.injEq] at h
        have hlt := (fromBe sa.sinPort).isLt
        omega
      · simp only [if_neg hfamily] at h
        cases h

/-- A connect event, as userspace reads it. -/
theorem tryConnect_read {ctx : Context} {ptr : U64} (hptr : ctx.readAt = some ptr) :
    ∃ ev, tryConnect ctx = .ok (.ok ev) ∧ ev.eventType = eventConnect ∧
      ev.timestampNs = ctx.ktimeNs ∧ ev.targetText = (ctx.destination ptr).text := by
  obtain ⟨r, hr, target, pos, hwritten, rfl⟩ := tryConnect_written hptr
  exact ⟨_, hr, rfl, rfl, hwritten.bytesToString_destination fun _ _ _ _ _ hd =>
    Context.destination_port_lt hd⟩

/-- The telemetry of a connect event with a target text. -/
theorem rawEventToTelemetry_connect {ev : RawKernelEvent} (htype : ev.eventType = eventConnect)
    (htext : ev.targetText ≠ "") :
    rawEventToTelemetry ev =
      ⟨.connect, bytesToString ev.comm.toList, ev.targetText, ev.timestampNs⟩ := by
  have hexec : ev.eventType ≠ eventExec := by rw [htype]; decide
  have hopenat : ev.eventType ≠ eventOpenat := by rw [htype]; decide
  have hempty : ¬ (bytesToString ev.target.toList).isEmpty = true := by
    rwa [String.isEmpty_iff]
  unfold rawEventToTelemetry
  rw [if_neg hexec, if_neg hopenat, if_pos htype]
  simp only [if_neg hempty]
  rfl

/-- The way of a connect call to its telemetry event. Whatever the helpers return,
    the writers stay inside the target and userspace keeps the event; its telemetry
    target is the text of the destination, so that two calls have the same target
    exactly when they have the same destination; and neither the process id nor the
    user id reaches its canonical text. -/
theorem tryConnect_telemetry {ctx ctx' : Context} {ptr ptr' : U64} (hptr : ctx.readAt = some ptr)
    (hptr' : ctx'.readAt = some ptr') :
    ∃ ev ev', tryConnect ctx = .ok (.ok ev) ∧ tryConnect ctx' = .ok (.ok ev') ∧
      shouldKeepEvent ev = true ∧
      rawEventToTelemetry ev =
        ⟨.connect, bytesToString ev.comm.toList, (ctx.destination ptr).text, ctx.ktimeNs⟩ ∧
      ((rawEventToTelemetry ev).target = (rawEventToTelemetry ev').target ↔
        ctx.destination ptr = ctx'.destination ptr') ∧
      ∀ pid uid, (rawEventToTelemetry { ev with pid := pid, uid := uid }).canonicalString =
        (rawEventToTelemetry ev).canonicalString := by
  obtain ⟨ev, hev, htype, htime, htext⟩ := tryConnect_read hptr
  obtain ⟨ev', hev', htype', -, htext'⟩ := tryConnect_read hptr'
  have hne : ev.targetText ≠ "" := by rw [htext]; exact Destination.text_ne_empty _
  have hne' : ev'.targetText ≠ "" := by rw [htext']; exact Destination.text_ne_empty _
  have hkeep : ∀ raw : RawKernelEvent, raw.eventType = eventConnect → shouldKeepEvent raw = true := by
    intro raw hraw
    unfold shouldKeepEvent
    rw [if_neg (by rw [hraw]; decide), if_neg (by rw [hraw]; decide), if_pos hraw]
  have hread := rawEventToTelemetry_connect htype hne
  refine ⟨ev, ev', hev, hev', hkeep ev htype, ?_, ?_, fun pid uid => ?_⟩
  · rw [hread, htext, htime]
  · rw [hread, rawEventToTelemetry_connect htype' hne']
    show ev.targetText = ev'.targetText ↔ _
    rw [htext, htext', Destination.text_injective.eq_iff]
  · have hids : rawEventToTelemetry { ev with pid := pid, uid := uid } =
        ⟨.connect, bytesToString ev.comm.toList, ev.targetText, ev.timestampNs⟩ :=
      rawEventToTelemetry_connect htype hne
    rw [hids, hread]

/-- A call to `8.8.8.8:53` and a call whose address cannot be read. -/
theorem tryConnect_telemetry_dns :
    ∃ ev ev', tryConnect ⟨0#64, 0#64, 5#64, none, some 8#64, Vector.replicate 128 0#8,
          some ⟨2#16, 0x3500#16, 0x08080808#32⟩⟩ = .ok (.ok ev) ∧
      tryConnect ⟨0#64, 0#64, 5#64, none, some 8#64, Vector.replicate 128 0#8, none⟩ =
        .ok (.ok ev') ∧
      (rawEventToTelemetry ev).target = "8.8.8.8:53" ∧
      (rawEventToTelemetry ev).target ≠ (rawEventToTelemetry ev').target := by
  have hdns : (Context.mk 0#64 0#64 5#64 none (some 8#64) (Vector.replicate 128 0#8)
      (some ⟨2#16, 0x3500#16, 0x08080808#32⟩)).readAt = some 8#64 := rfl
  have hunreadable : (Context.mk 0#64 0#64 5#64 none (some 8#64) (Vector.replicate 128 0#8)
      none).readAt = some 8#64 := rfl
  obtain ⟨ev, ev', hev, hev', -, htelemetry, htarget, -⟩ := tryConnect_telemetry hdns hunreadable
  refine ⟨ev, ev', hev, hev', ?_, fun h => absurd (htarget.mp h) (by decide)⟩
  rw [htelemetry]
  rfl

end TimeFence.Epbf
