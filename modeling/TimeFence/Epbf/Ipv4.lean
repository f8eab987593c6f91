import TimeFence.Epbf.Event

/-!
# IPv4 destinations

Model of the decimal writers of the kernel side
(`timefence_epbf_ebpf/src/main.rs`, lines 83–172). The target is little-endian,
so the low byte of `sin_addr` is the first octet and `u16::from_be` exchanges the
two bytes of `sin_port`.

A writer collects the digits of a number from the last one on and copies them in
reverse to the position that it is given (`digitLoop_returns`,
`Written.copyLoop`). `writeIpv4Port_text`: userspace reads the address and the
port back as text, and different destinations have different texts.
-/

namespace TimeFence.Epbf

open TimeFence.Common TimeFence.Core

/-! ## Model -/

/-- `u16`. -/
abbrev U16 := BitVec 16

/-- `b'c'` for an ASCII character. -/
def ascii (c : Char) : U8 := BitVec.ofNat 8 c.toNat

/-- `dst[pos] = b`. -/
def store {n : ℕ} (dst : Vector U8 n) (pos : ℕ) (b : U8) : Exec (Vector U8 n) :=
  if h : pos < n then .ok (dst.set pos b h) else .error .indexOutOfBounds

/-- `while n > 0 && len < buf.len()`, which takes the digits from the last one on. -/
def digitLoop {w m : ℕ} (n : BitVec w) (buf : Vector U8 m) (len : ℕ) :
    Exec (Vector U8 m × ℕ) :=
  if 0#w < n ∧ len < m then do
    let digit ← checkedRem n 10#w
    let b ← checkedAdd (ascii '0') (digit.setWidth 8)
    let buf ← store buf len b
    digitLoop (n / 10#w) buf (len + 1)
  else pure (buf, len)
termination_by m - len

/-- `while len > 0 && pos < dst.len()`, which copies them in reverse. -/
def copyLoop {m : ℕ} (buf : Vector U8 m) :
    (len : ℕ) → (dst : Vector U8 128) → (pos : ℕ) → Exec (Vector U8 128 × ℕ)
  | 0, dst, pos => pure (dst, pos)
  | len + 1, dst, pos =>
    if pos < 128 then do
      let b ← index buf.toList len
      let dst ← store dst pos b
      copyLoop buf len dst (pos + 1)
    else pure (dst, pos)

/-- The writers, for numbers of `w` bits with a buffer of `m` digits. -/
def writeDecimal {w : ℕ} (m : ℕ) (dst : Vector U8 128) (pos : ℕ) (n : BitVec w) :
    Exec (Vector U8 128 × ℕ) :=
  if n = 0#w then
    if pos < 128 then do
      let dst ← store dst pos (ascii '0')
      pure (dst, pos + 1)
    else pure (dst, pos)
  else do
    let (buf, len) ← digitLoop n (Vector.replicate m 0#8) 0
    copyLoop buf len dst pos

/-- Model of `write_u16_decimal` (lines 83–108). -/
def writeU16Decimal (dst : Vector U8 128) (pos : ℕ) (n : U16) : Exec (Vector U8 128 × ℕ) :=
  writeDecimal 5 dst pos n

/-- Model of `write_u8_decimal` (lines 110–135). -/
def writeU8Decimal (dst : Vector U8 128) (pos : ℕ) (n : U8) : Exec (Vector U8 128 × ℕ) :=
  writeDecimal 3 dst pos n

/-- `if pos < dst.len() { dst[pos] = b; pos += 1; }`. -/
def writeByte (dst : Vector U8 128) (pos : ℕ) (b : U8) : Exec (Vector U8 128 × ℕ) :=
  if pos < 128 then do
    let dst ← store dst pos b
    pure (dst, pos + 1)
  else pure (dst, pos)

/-- `u16::from_be` on a little-endian target. -/
def fromBe (n : U16) : U16 := n <<< 8 ||| n >>> 8

/-- Model of `write_ipv4_port` (lines 137–172). -/
def writeIpv4Port (dst : Vector U8 128) (addrBe : U32) (portBe : U16) :
    Exec (Vector U8 128) := do
  let b1 := ((addrBe >>> 0) &&& 0xff#32).setWidth 8
  let b2 := ((addrBe >>> 8) &&& 0xff#32).setWidth 8
  let b3 := ((addrBe >>> 16) &&& 0xff#32).setWidth 8
  let b4 := ((addrBe >>> 24) &&& 0xff#32).setWidth 8
  let port := fromBe portBe
  let pos := 0
  let (dst, pos) ← writeU8Decimal dst pos b1
  let (dst, pos) ← writeByte dst pos (ascii '.')
  let (dst, pos) ← writeU8Decimal dst pos b2
  let (dst, pos) ← writeByte dst pos (ascii '.')
  let (dst, pos) ← writeU8Decimal dst pos b3
  let (dst, pos) ← writeByte dst pos (ascii '.')
  let (dst, pos) ← writeU8Decimal dst pos b4
  let (dst, pos) ← writeByte dst pos (ascii ':')
  let (dst, _) ← writeU16Decimal dst pos port
  pure dst

/-! ## Digits -/

/-- The digits that the digit loop has left: none of the number zero. -/
def pending (n : ℕ) : List Char := if n = 0 then [] else Nat.toDigits 10 n

theorem pending_of_pos {n : ℕ} (hn : 0 < n) :
    pending n = pending (n / 10) ++ [(n % 10).digitChar] := by
  have hne : n ≠ 0 := by omega
  rw [pending, if_neg hne, Nat.toDigits_eq_if (by norm_num)]
  split_ifs with h
  · have hdiv : n / 10 = 0 := by omega
    rw [pending, if_pos hdiv, Nat.mod_eq_of_lt h]
    rfl
  · have hdiv : n / 10 ≠ 0 := by omega
    rw [pending, if_neg hdiv]

theorem length_pending_le {n m : ℕ} (hm : 0 < m) (h : n < 10 ^ m) : (pending n).length ≤ m := by
  unfold pending
  split_ifs
  · exact Nat.zero_le m
  · exact (Nat.length_toDigits_le_iff (by norm_num) hm).mpr h

theorem toList_repr_eq_pending {n : ℕ} (hn : n ≠ 0) : n.repr.toList = pending n := by
  rw [Nat.toList_repr, pending, if_neg hn]

theorem toNat_digitByte {d : ℕ} (hd : d < 10) : (ascii d.digitChar).toNat = 48 + d := by
  interval_cases d <;> rfl

theorem store_returns {n : ℕ} (dst : Vector U8 n) {pos : ℕ} (h : pos < n) (b : U8) :
    store dst pos b = .ok (dst.set pos b h) := dif_pos h

/-- The digits come out in reverse, in front of what the buffer holds. -/
theorem digitLoop_returns {w m : ℕ} (hw : 4 ≤ w) (n : BitVec w) (buf : Vector U8 m) (len : ℕ)
    (hcap : len + (pending n.toNat).length ≤ m) :
    Returns (digitLoop n buf len) fun r => r.2 = len + (pending n.toNat).length ∧
      (r.1.toList.take r.2).reverse =
        (pending n.toNat).map ascii ++ (buf.toList.take len).reverse := by
  have hten : (10#w).toNat = 10 := by
    have hle : 2 ^ 4 ≤ 2 ^ w := Nat.pow_le_pow_right (by norm_num) hw
    rw [BitVec.toNat_ofNat, Nat.mod_eq_of_lt (by omega)]
  -- Induction on the number that is left.
  induction hv : n.toNat using Nat.strong_induction_on generalizing n buf len with
  | _ v ih =>
    subst hv
    by_cases hn : n.toNat = 0
    · have hzero : ¬ (0#w < n ∧ len < m) := by
        rw [BitVec.lt_def, BitVec.toNat_zero]
        omega
      rw [digitLoop, if_neg hzero, pending, if_pos hn]
      exact Returns.pure ⟨rfl, rfl⟩
    · have hpos : 0 < n.toNat := by omega
      have hpending := pending_of_pos hpos
      have hlen : (pending n.toNat).length = (pending (n.toNat / 10)).length + 1 := by
        rw [hpending, List.length_append, List.length_singleton]
      have hlt : len < m := by omega
      have hdiv : (n / 10#w).toNat = n.toNat / 10 := by rw [BitVec.toNat_udiv, hten]
      have hcond : 0#w < n ∧ len < m := ⟨zero_lt_of_toNat hpos, hlt⟩
      rw [digitLoop, if_pos hcond]
      refine (checkedRem_returns (by omega)).bind fun digit hdigit => ?_
      rw [hten] at hdigit
      have hdigit10 : digit.toNat < 10 := by omega
      have hcast : (digit.setWidth 8).toNat = n.toNat % 10 := by
        rw [BitVec.toNat_setWidth, ← hdigit, Nat.mod_eq_of_lt (by omega)]
      have hzero : (ascii '0').toNat = 48 := rfl
      refine (checkedAdd_returns (by rw [hzero, hcast]; omega)).bind fun b hb => ?_
      have hbyte : b = ascii (n.toNat % 10).digitChar := by
        apply BitVec.eq_of_toNat_eq
        rw [hb, hzero, hcast, toNat_digitByte (by omega)]
      rw [store_returns buf hlt, ok_bind]
      refine (ih (n.toNat / 10) (by omega) (n / 10#w) (buf.set len b hlt) (len + 1)
        (by rw [hdiv]; omega) hdiv).mono ?_
      rintro ⟨buf', len'⟩ ⟨hlen', hbuf'⟩
      refine ⟨by dsimp only at hlen' ⊢; omega, ?_⟩
      dsimp only at hbuf' ⊢
      have htake : (buf.set len b hlt).toList.take (len + 1) = buf.toList.take len ++ [b] := by
        rw [Vector.toList_set, List.take_succ_eq_append_getElem (by simpa using hlt),
          List.getElem_set_self, List.take_set_of_le le_rfl]
      rw [hbuf', htake, hbyte, hpending, List.map_append, List.reverse_append, List.append_assoc]
      rfl

/-! ## The target -/

/-- The characters `text` stand at the start of the target, and zeros behind
    them. -/
structure Written (dst : Vector U8 128) (pos : ℕ) (text : List Char) : Prop where
  bytes : dst.toList = text.map ascii ++ List.replicate (128 - text.length) 0#8
  pos_eq : pos = text.length

theorem written_nil : Written (Vector.replicate 128 0#8) 0 [] :=
  ⟨Vector.toList_replicate, rfl⟩

section

variable {dst : Vector U8 128} {pos : ℕ} {text : List Char}

/-- One more character. -/
theorem Written.store (h : Written dst pos text) (hpos : pos < 128) (c : Char) :
    Returns (Epbf.store dst pos (ascii c)) fun dst' => Written dst' (pos + 1) (text ++ [c]) := by
  obtain ⟨hbytes, rfl⟩ := h
  obtain ⟨k, hk⟩ : ∃ k, 128 - text.length = k + 1 := ⟨127 - text.length, by omega⟩
  have hk' : 128 - (text ++ [c]).length = k := by simp; omega
  refine ⟨_, store_returns dst hpos _, ?_, by simp⟩
  rw [Vector.toList_set, hbytes, hk, hk', List.replicate_succ, List.map_append,
    List.set_append_right _ _ (by simp)]
  simp

theorem Written.writeByte (h : Written dst pos text) (hpos : pos < 128) (c : Char) :
    Returns (Epbf.writeByte dst pos (ascii c)) fun r =>
      Written r.1 r.2 (text ++ [c]) ∧ r.2 = pos + 1 := by
  rw [Epbf.writeByte, if_pos hpos]
  exact (h.store hpos c).bind fun dst' h' => Returns.pure ⟨h', rfl⟩

/-- The copy loop writes the reversed digits. -/
theorem Written.copyLoop {m : ℕ} {buf : Vector U8 m} {len : ℕ} {digits : List Char}
    (h : Written dst pos text) (hdigits : (buf.toList.take len).reverse = digits.map ascii)
    (hlen : len ≤ m) (hpos : pos + len ≤ 128) :
    Returns (Epbf.copyLoop buf len dst pos) fun r => Written r.1 r.2 (text ++ digits) := by
  induction len generalizing dst pos text digits with
  | zero =>
    have hnil : digits = [] := by simpa using hdigits.symm
    subst hnil
    rw [List.append_nil]
    exact Returns.pure h
  | succ len ih =>
    have hlt : len < buf.toList.length := by simpa using hlen
    -- The last digit of the buffer is the first one to be written.
    rw [List.take_succ_eq_append_getElem hlt, List.reverse_append] at hdigits
    obtain ⟨c, rest, rfl⟩ : ∃ c rest, digits = c :: rest := by
      cases digits with
      | nil => simp at hdigits
      | cons c rest => exact ⟨c, rest, rfl⟩
    simp only [List.reverse_singleton, List.singleton_append, List.map_cons,
      List.cons.injEq] at hdigits
    rw [Epbf.copyLoop, if_pos (by omega), index_of_lt hlt, ok_bind, hdigits.1]
    refine (h.store (by omega) c).bind fun dst' h' => ?_
    have hrec := ih h' hdigits.2 (by omega) (by omega)
    rwa [List.append_assoc] at hrec

/-- A number of up to `m` digits is written in decimal. -/
theorem Written.writeDecimal {w m : ℕ} (hw : 4 ≤ w) (hm : 0 < m) (h : Written dst pos text)
    {n : BitVec w} (hn : n.toNat < 10 ^ m) (hpos : pos + m ≤ 128) :
    Returns (Epbf.writeDecimal m dst pos n) fun r =>
      Written r.1 r.2 (text ++ n.toNat.repr.toList) := by
  unfold Epbf.writeDecimal
  by_cases hzero : n = 0#w
  · rw [if_pos hzero, if_pos (by omega), hzero, BitVec.toNat_zero]
    exact (h.store (by omega) '0').bind fun dst' h' => Returns.pure h'
  · have hne : n.toNat ≠ 0 := by
      intro h0
      exact hzero (BitVec.eq_of_toNat_eq (by rw [h0, BitVec.toNat_zero]))
    have hle := length_pending_le hm hn
    rw [if_neg hzero, toList_repr_eq_pending hne]
    refine (digitLoop_returns hw n (Vector.replicate m 0#8) 0 (by omega)).bind ?_
    rintro ⟨buf, len⟩ ⟨hlen, hbuf⟩
    dsimp only at hlen hbuf ⊢
    exact h.copyLoop (by simpa using hbuf) (by omega) (by omega)

end

/-! ## Reading the target -/

theorem decodeFrom_ascii {text : List Char} (h : ∀ c ∈ text, c.toNat < 0x80) :
    decodeFrom 0 (text.map ascii) = text := by
  induction text with
  | nil => rfl
  | cons c text ih =>
    have hc := h c List.mem_cons_self
    have hbyte : (ascii c).toNat = c.toNat := by
      rw [ascii, BitVec.toNat_ofNat, Nat.mod_eq_of_lt (by omega)]
    have hfront : ∀ rest, decodeFront (ascii c).toNat rest = (c, 0) := by
      intro rest
      rw [hbyte, decodeFront, utf8CharWidth, if_pos hc]
      simp
    rw [List.map_cons, decodeFrom, hfront]
    show c :: decodeFrom 0 (text.map ascii) = c :: text
    rw [ih fun b hb => h b (List.mem_cons_of_mem c hb)]

/-- Userspace reads the text up to the first zero. -/
theorem Written.bytesToString_eq {dst : Vector U8 128} {pos : ℕ} {text : List Char}
    (h : Written dst pos text) (hlen : text.length < 128)
    (hascii : ∀ c ∈ text, 0 < c.toNat ∧ c.toNat < 0x80) :
    bytesToString dst.toList = String.ofList text := by
  have hne : ∀ b ∈ text.map ascii, ¬ b = 0#8 := by
    intro b hb hzero
    obtain ⟨c, hc, rfl⟩ := List.mem_map.mp hb
    have hval := congrArg BitVec.toNat hzero
    rw [ascii, BitVec.toNat_ofNat, Nat.mod_eq_of_lt (by have := (hascii c hc).2; omega)] at hval
    have := (hascii c hc).1
    simp at hval
    omega
  have hstop : (dst.toList.findIdx? (· = 0#8)).getD dst.toList.length = text.length := by
    have hnone : (text.map ascii).findIdx? (· = 0#8) = none := by
      simpa [List.findIdx?_eq_none_iff] using hne
    obtain ⟨k, hk⟩ : ∃ k, 128 - text.length = k + 1 := ⟨127 - text.length, by omega⟩
    rw [h.bytes, List.findIdx?_append, hnone, hk, List.replicate_succ]
    simp [List.findIdx?_cons]
  rw [bytesToString, hstop, h.bytes, List.take_left' (by simp), fromUtf8Lossy,
    decodeFrom_ascii fun c hc => (hascii c hc).2]

/-- The bytes behind the text are zero. -/
theorem Written.getElem_eq_zero {dst : Vector U8 128} {pos : ℕ} {text : List Char}
    (h : Written dst pos text) {i : ℕ} (hi : i < 128) (hle : text.length ≤ i) : dst[i] = 0#8 := by
  have hlist : i < dst.toList.length := by rwa [Vector.length_toList]
  have hget : dst[i] = dst.toList[i] := (Vector.getElem_toList hlist).symm
  rw [hget, List.getElem_of_eq h.bytes hlist, List.getElem_append_right (by simpa using hle),
    List.getElem_replicate]

/-! ## Byte order -/

/-- An octet, as shift and mask take it out of a word. -/
theorem octet_eq {x : U32} {k : ℕ} {o : U8} (h : x.toNat / 2 ^ k % 256 = o.toNat) :
    ((x >>> k) &&& 0xff#32).setWidth 8 = o := by
  apply BitVec.eq_of_toNat_eq
  have hff : (0xff#32).toNat = 2 ^ 8 - 1 := rfl
  rw [← h, BitVec.toNat_setWidth, BitVec.toNat_and, hff, Nat.and_two_pow_sub_one_eq_mod,
    BitVec.toNat_ushiftRight, Nat.shiftRight_eq_div_pow, Nat.mod_mod]

/-- The address in memory, first octet first. -/
theorem toNat_word_four (o1 o2 o3 o4 : U8) :
    (word [o1, o2, o3, o4] 0 4).toNat =
      o1.toNat + 256 * (o2.toNat + 256 * (o3.toNat + 256 * o4.toNat)) := by
  rw [toNat_word]
  simp [Nat.ofDigits]

theorem toNat_fromBe (n : U16) : (fromBe n).toNat = n.toNat % 256 * 256 + n.toNat / 256 := by
  have hlt := n.isLt
  have hshift : n.toNat * 2 ^ 8 % 2 ^ 16 = 2 ^ 8 * (n.toNat % 256) := by omega
  rw [fromBe, BitVec.toNat_or, BitVec.toNat_shiftLeft, BitVec.toNat_ushiftRight, Nat.shiftLeft_eq,
    Nat.shiftRight_eq_div_pow, hshift, ← Nat.two_pow_add_eq_or_of_lt (by omega)]
  omega

/-- The port in memory, high byte first. -/
theorem toNat_fromBe_word (hi lo : U8) :
    (fromBe (word [hi, lo] 0 2)).toNat = hi.toNat * 256 + lo.toNat := by
  have hhi := hi.isLt
  have hlo := lo.isLt
  have hword : (word [hi, lo] 0 2).toNat = hi.toNat + 256 * lo.toNat := by
    rw [toNat_word]
    simp [Nat.ofDigits]
  rw [toNat_fromBe, hword]
  omega

/-! ## Destinations -/

/-- `o1.o2.o3.o4:port` in decimal. -/
def ipv4PortText (o1 o2 o3 o4 : U8) (port : ℕ) : String :=
  o1.toNat.repr ++ "." ++ o2.toNat.repr ++ "." ++ o3.toNat.repr ++ "." ++ o4.toNat.repr ++ ":" ++
    port.repr

theorem length_repr_le {n m : ℕ} (hm : 0 < m) (h : n < 10 ^ m) : n.repr.toList.length ≤ m := by
  rw [Nat.toList_repr]
  exact (Nat.length_toDigits_le_iff (by norm_num) hm).mpr h

theorem ascii_of_mem_repr {c : Char} {n : ℕ} (h : c ∈ n.repr.toList) :
    0 < c.toNat ∧ c.toNat < 0x80 := by
  have hdigit := isDigit_of_mem_repr h
  rw [Char.isDigit, Bool.and_eq_true, decide_eq_true_eq, decide_eq_true_eq,
    UInt32.le_iff_toNat_le, ge_iff_le, UInt32.le_iff_toNat_le] at hdigit
  have h48 : '0'.val.toNat = 48 := rfl
  have h57 : '9'.val.toNat = 57 := rfl
  have hval : c.val.toNat = c.toNat := rfl
  omega

theorem toList_ipv4PortText (o1 o2 o3 o4 : U8) (port : ℕ) :
    (ipv4PortText o1 o2 o3 o4 port).toList =
      o1.toNat.repr.toList ++ '.' :: (o2.toNat.repr.toList ++ '.' :: (o3.toNat.repr.toList ++
        '.' :: (o4.toNat.repr.toList ++ ':' :: port.repr.toList))) := by
  simp [ipv4PortText, String.toList_append]

theorem length_ipv4PortText_le (o1 o2 o3 o4 : U8) {port : ℕ} (hport : port < 10 ^ 5) :
    (ipv4PortText o1 o2 o3 o4 port).toList.length ≤ 21 := by
  have hoctet : ∀ o : U8, o.toNat.repr.toList.length ≤ 3 := fun o =>
    length_repr_le (by norm_num) (by have := o.isLt; omega)
  have h1 := hoctet o1
  have h2 := hoctet o2
  have h3 := hoctet o3
  have h4 := hoctet o4
  have h5 := length_repr_le (by norm_num) hport
  simp only [toList_ipv4PortText, List.length_append, List.length_cons]
  omega

/-- The separators can be found in the text, and so the numbers between them. -/
theorem ipv4PortText_inj {o1 o2 o3 o4 o1' o2' o3' o4' : U8} {port port' : ℕ}
    (h : ipv4PortText o1 o2 o3 o4 port = ipv4PortText o1' o2' o3' o4' port') :
    o1 = o1' ∧ o2 = o2' ∧ o3 = o3' ∧ o4 = o4' ∧ port = port' := by
  have hdot := notMem_repr (c := '.') (by decide)
  have hcolon := notMem_repr (c := ':') (by decide)
  rw [← String.toList_inj, toList_ipv4PortText, toList_ipv4PortText,
    append_cons_inj_left (hdot _) (hdot _), append_cons_inj_left (hdot _) (hdot _),
    append_cons_inj_left (hdot _) (hdot _), append_cons_inj_left (hcolon _) (hcolon _)] at h
  simpa only [String.toList_inj, Nat.repr_inj, BitVec.toNat_inj] using h

theorem ascii_of_mem_ipv4PortText {o1 o2 o3 o4 : U8} {port : ℕ} {c : Char}
    (h : c ∈ (ipv4PortText o1 o2 o3 o4 port).toList) : 0 < c.toNat ∧ c.toNat < 0x80 := by
  have hdot : 0 < '.'.toNat ∧ '.'.toNat < 0x80 := by decide
  have hcolon : 0 < ':'.toNat ∧ ':'.toNat < 0x80 := by decide
  simp only [toList_ipv4PortText, List.mem_append, List.mem_cons] at h
  rcases h with h | rfl | h | rfl | h | rfl | h | rfl | h
  · exact ascii_of_mem_repr h
  · exact hdot
  · exact ascii_of_mem_repr h
  · exact hdot
  · exact ascii_of_mem_repr h
  · exact hdot
  · exact ascii_of_mem_repr h
  · exact hcolon
  · exact ascii_of_mem_repr h

section

variable {dst : Vector U8 128} {pos : ℕ} {text : List Char}

/-- An octet, while there is room for it. -/
theorem Written.writeU8Decimal (h : Written dst pos text) (o : U8) (hpos : pos ≤ 125) :
    Returns (Epbf.writeU8Decimal dst pos o) fun r =>
      Written r.1 r.2 (text ++ o.toNat.repr.toList) ∧ r.2 ≤ pos + 3 := by
  have hlt := o.isLt
  refine (h.writeDecimal (by norm_num) (by norm_num) (by omega) (by omega)).mono fun r hr => ?_
  have hlen := length_repr_le (n := o.toNat) (m := 3) (by norm_num) (by omega)
  have hr2 := hr.pos_eq
  rw [List.length_append, ← h.pos_eq] at hr2
  exact ⟨hr, by omega⟩

/-- An octet and the separator behind it, in front of the rest of the program. -/
theorem Written.writeOctet_bind {α : Type} {Q : α → Prop} (h : Written dst pos text) (o : U8)
    (c : Char) (hpos : pos ≤ 124) {rest : Vector U8 128 × ℕ → Exec α}
    (hrest : ∀ r, Written r.1 r.2 (text ++ o.toNat.repr.toList ++ [c]) → r.2 ≤ pos + 4 →
      Returns (rest r) Q) :
    Returns (do
      let r ← Epbf.writeU8Decimal dst pos o
      let r ← Epbf.writeByte r.1 r.2 (ascii c)
      rest r) Q := by
  refine (h.writeU8Decimal o (by omega)).bind fun r hr => ?_
  refine (hr.1.writeByte (by omega) c).bind fun r' hr' => ?_
  exact hrest r' hr'.1 (by omega)

theorem Written.writeU16Decimal (h : Written dst pos text) (n : U16) (hpos : pos ≤ 123) :
    Returns (Epbf.writeU16Decimal dst pos n) fun r =>
      Written r.1 r.2 (text ++ n.toNat.repr.toList) := by
  have hlt := n.isLt
  exact h.writeDecimal (by norm_num) (by norm_num) (by omega) (by omega)

end

/-- The four octets and the port are written one behind the other. -/
theorem writeIpv4Port_written (o1 o2 o3 o4 hi lo : U8) :
    Returns
      (writeIpv4Port (Vector.replicate 128 0#8) (word [o1, o2, o3, o4] 0 4) (word [hi, lo] 0 2))
      fun dst => ∃ pos, Written dst pos
        (ipv4PortText o1 o2 o3 o4 (hi.toNat * 256 + lo.toNat)).toList := by
  -- The octets that the shifts take out of the address.
  have hlt1 := o1.isLt
  have hlt2 := o2.isLt
  have hlt3 := o3.isLt
  have hlt4 := o4.isLt
  have haddr := toNat_word_four o1 o2 o3 o4
  have hb1 : ((word [o1, o2, o3, o4] 0 4 >>> 0) &&& 0xff#32).setWidth 8 = o1 :=
    octet_eq (by omega)
  have hb2 : ((word [o1, o2, o3, o4] 0 4 >>> 8) &&& 0xff#32).setWidth 8 = o2 :=
    octet_eq (by omega)
  have hb3 : ((word [o1, o2, o3, o4] 0 4 >>> 16) &&& 0xff#32).setWidth 8 = o3 :=
    octet_eq (by omega)
  have hb4 : ((word [o1, o2, o3, o4] 0 4 >>> 24) &&& 0xff#32).setWidth 8 = o4 :=
    octet_eq (by omega)
  have hport := toNat_fromBe_word hi lo
  unfold writeIpv4Port
  rw [hb1, hb2, hb3, hb4]
  dsimp only
  refine written_nil.writeOctet_bind o1 '.' (by omega) fun r1 h hpos1 => ?_
  refine h.writeOctet_bind o2 '.' (by omega) fun r2 h hpos2 => ?_
  refine h.writeOctet_bind o3 '.' (by omega) fun r3 h hpos3 => ?_
  refine h.writeOctet_bind o4 ':' (by omega) fun r4 h hpos4 => ?_
  refine (h.writeU16Decimal _ (by omega)).bind fun r5 h => ?_
  refine Returns.pure ⟨r5.2, ?_⟩
  rw [hport] at h
  simpa [toList_ipv4PortText] using h

/-- The way of an IPv4 destination to userspace. For every address and port in
    network order the writer stays inside the zeroed target, userspace reads the
    decimal text of the destination, all bytes behind the text are zero, and
    another destination gives another text. -/
theorem writeIpv4Port_text (o1 o2 o3 o4 hi lo : U8) :
    Returns
      (writeIpv4Port (Vector.replicate 128 0#8) (word [o1, o2, o3, o4] 0 4) (word [hi, lo] 0 2))
      fun dst =>
        bytesToString dst.toList = ipv4PortText o1 o2 o3 o4 (hi.toNat * 256 + lo.toNat) ∧
        (∀ (i : ℕ) (hi' : i < 128),
          (ipv4PortText o1 o2 o3 o4 (hi.toNat * 256 + lo.toNat)).length ≤ i → dst[i] = 0#8) ∧
        ∀ (o1' o2' o3' o4' hi' lo' : U8) (dst' : Vector U8 128),
          writeIpv4Port (Vector.replicate 128 0#8) (word [o1', o2', o3', o4'] 0 4)
              (word [hi', lo'] 0 2) = .ok dst' →
            bytesToString dst'.toList = bytesToString dst.toList →
              o1' = o1 ∧ o2' = o2 ∧ o3' = o3 ∧ o4' = o4 ∧ hi' = hi ∧ lo' = lo := by
  -- What userspace reads, for any destination.
  have hread : ∀ (o1 o2 o3 o4 hi lo : U8) (dst : Vector U8 128) (pos : ℕ),
      Written dst pos (ipv4PortText o1 o2 o3 o4 (hi.toNat * 256 + lo.toNat)).toList →
        bytesToString dst.toList = ipv4PortText o1 o2 o3 o4 (hi.toNat * 256 + lo.toNat) := by
    intro o1 o2 o3 o4 hi lo dst pos h
    have hhi := hi.isLt
    have hlo := lo.isLt
    have hlen := length_ipv4PortText_le o1 o2 o3 o4
      (show hi.toNat * 256 + lo.toNat < 10 ^ 5 by omega)
    rw [h.bytesToString_eq (by omega) fun c hc => ascii_of_mem_ipv4PortText hc,
      String.ofList_toList]
  refine (writeIpv4Port_written o1 o2 o3 o4 hi lo).mono fun dst ⟨pos, h⟩ => ⟨?_, ?_, ?_⟩
  · exact hread o1 o2 o3 o4 hi lo dst pos h
  · intro i hi' hle
    rw [← String.length_toList] at hle
    exact h.getElem_eq_zero hi' hle
  · intro o1' o2' o3' o4' hi' lo' dst' hdst' heq
    obtain ⟨pos', h'⟩ := (writeIpv4Port_written o1' o2' o3' o4' hi' lo').of_eq_ok hdst'
    rw [hread _ _ _ _ _ _ _ _ h', hread _ _ _ _ _ _ _ _ h] at heq
    obtain ⟨h1, h2, h3, h4, hport⟩ := ipv4PortText_inj heq
    have hlo := lo.isLt
    have hlo' := lo'.isLt
    exact ⟨h1, h2, h3, h4, BitVec.eq_of_toNat_eq (by omega), BitVec.eq_of_toNat_eq (by omega)⟩

end TimeFence.Epbf
