import TimeFence.Common.LittleEndian
import TimeFence.Epbf.Event

/-!
# The memory of a kernel event

`EVENTS.output(event, 0)` copies the memory of a `RawKernelEvent` into the ring
buffer, and `parse_raw_kernel_event` reads a `RawKernelEvent` from the memory of
an item. The struct is `repr(C)`: the four bytes in front of the timestamp are
padding, whose values the kernel side does not choose.

`parseRawKernelEvent_eq_some_iff`: an item parses to an event exactly when it
starts with the memory of this event.
-/

namespace TimeFence.Epbf

open TimeFence.Common

/-- The memory of an event, with the padding `pad`. -/
def RawKernelEvent.toBytes (ev : RawKernelEvent) (pad : Vector U8 4) : List U8 :=
  bytesOf 4 ev.eventType.toNat ++ (bytesOf 4 ev.pid.toNat ++ (bytesOf 4 ev.uid.toNat ++
    (pad.toList ++ (bytesOf 8 ev.timestampNs.toNat ++ (ev.comm.toList ++ ev.target.toList)))))

theorem RawKernelEvent.length_toBytes (ev : RawKernelEvent) (pad : Vector U8 4) :
    (ev.toBytes pad).length = sizeOfRawKernelEvent := by
  simp [RawKernelEvent.toBytes, sizeOfRawKernelEvent]

/-! ## Fields -/

section Fields

variable {data : List U8} {offset n : ℕ}

/-- A word is what the bytes at its place were written from. -/
theorem word_eq_of_bytes {x : BitVec (8 * n)} (h : (data.drop offset).take n = bytesOf n x.toNat) :
    word data offset n = x := by
  have hlt : x.toNat < 256 ^ n := by
    have := x.isLt
    rwa [pow_mul] at this
  apply BitVec.eq_of_toNat_eq
  rw [toNat_word, h, ofDigits_bytesOf, Nat.mod_eq_of_lt hlt]

/-- The bytes of the word are the bytes at its place. -/
theorem bytesOf_word (h : offset + n ≤ data.length) :
    bytesOf n (word data offset n).toNat = (data.drop offset).take n := by
  have hlen : ((data.drop offset).take n).length = n := by
    rw [List.length_take, List.length_drop]
    omega
  have hback := bytesOf_ofDigits ((data.drop offset).take n)
  rwa [hlen, ← toNat_word] at hback

theorem toList_byteArray (h : offset + n ≤ data.length) :
    (byteArray data offset n).toList = (data.drop offset).take n := by
  unfold byteArray
  rw [Vector.toList_ofFn]
  apply List.ext_getElem
  · rw [List.length_ofFn, List.length_take, List.length_drop]
    omega
  · intro i hi hi'
    rw [List.length_ofFn] at hi
    rw [List.getElem_ofFn, List.getElem_take, List.getElem_drop,
      List.getD_eq_getElem _ _ (by omega)]

theorem byteArray_eq_of_bytes {v : Vector U8 n} (hlen : offset + n ≤ data.length)
    (h : (data.drop offset).take n = v.toList) : byteArray data offset n = v := by
  rw [← Vector.toList_inj, toList_byteArray hlen, h]

/-- A field of a memory image. -/
theorem field_eq {pre field rest : List U8} (h : data = pre ++ (field ++ rest))
    (hpre : pre.length = offset) (hfield : field.length = n) :
    (data.drop offset).take n = field := by
  rw [h, List.drop_left' hpre, List.take_left' hfield]

/-- The bytes from a place on, cut behind a field. -/
theorem drop_eq_take_append {m : ℕ} (h : offset + n = m) :
    data.drop offset = (data.drop offset).take n ++ data.drop m := by
  rw [← h, ← List.drop_drop, List.take_append_drop]

end Fields

/-! ## Items -/

/-- The parser reads back the event that was written, whatever the padding and
    whatever is behind it. -/
theorem parseRawKernelEvent_toBytes (ev : RawKernelEvent) (pad : Vector U8 4) (rest : List U8) :
    parseRawKernelEvent (ev.toBytes pad ++ rest) = some ev := by
  obtain ⟨eventType, pid, uid, timestampNs, comm, target⟩ := ev
  -- The fields, each between what is in front of it and what is behind it.
  obtain ⟨data, hdata⟩ : ∃ data, data = bytesOf 4 eventType.toNat ++ (bytesOf 4 pid.toNat ++
    (bytesOf 4 uid.toNat ++ (pad.toList ++ (bytesOf 8 timestampNs.toNat ++ (comm.toList ++
      (target.toList ++ rest)))))) := ⟨_, rfl⟩
  have himage : (RawKernelEvent.mk eventType pid uid timestampNs comm target).toBytes pad ++ rest =
      data := by
    rw [hdata]
    simp only [RawKernelEvent.toBytes, List.append_assoc]
  have hlen : data.length = sizeOfRawKernelEvent + rest.length := by
    rw [← himage, List.length_append, RawKernelEvent.length_toBytes]
  unfold sizeOfRawKernelEvent at hlen
  have htype : word data 0 4 = eventType := by
    apply word_eq_of_bytes
    rw [← List.nil_append (bytesOf 4 eventType.toNat ++ _)] at hdata
    apply field_eq hdata
    all_goals simp
  have hpid : word data 4 4 = pid := by
    apply word_eq_of_bytes
    apply field_eq hdata
    all_goals simp
  have huid : word data 8 4 = uid := by
    apply word_eq_of_bytes
    rw [← List.append_assoc] at hdata
    apply field_eq hdata
    all_goals simp
  have htime : word data 16 8 = timestampNs := by
    apply word_eq_of_bytes
    simp only [← List.append_assoc] at hdata
    rw [List.append_assoc, List.append_assoc, List.append_assoc] at hdata
    apply field_eq hdata
    all_goals simp
  have hcomm : byteArray data 24 16 = comm := by
    apply byteArray_eq_of_bytes (by omega)
    simp only [← List.append_assoc] at hdata
    rw [List.append_assoc, List.append_assoc] at hdata
    apply field_eq hdata
    all_goals simp
  have htarget : byteArray data 40 128 = target := by
    apply byteArray_eq_of_bytes (by omega)
    simp only [← List.append_assoc] at hdata
    rw [List.append_assoc] at hdata
    apply field_eq hdata
    all_goals simp
  have hlong : ¬ data.length < sizeOfRawKernelEvent := by
    rw [sizeOfRawKernelEvent]
    omega
  rw [himage, parseRawKernelEvent, if_neg hlong, htype, hpid, huid, htime, hcomm, htarget]

/-- An item that is long enough is the memory of the event that the parser reads. -/
theorem toBytes_of_parseRawKernelEvent {data : List U8} {ev : RawKernelEvent}
    (h : parseRawKernelEvent data = some ev) :
    data = ev.toBytes (byteArray data 12 4) ++ data.drop sizeOfRawKernelEvent := by
  unfold parseRawKernelEvent at h
  split_ifs at h with hlen
  rw [sizeOfRawKernelEvent] at hlen
  have hev := (Option.some.inj h).symm
  subst hev
  unfold RawKernelEvent.toBytes sizeOfRawKernelEvent
  rw [bytesOf_word (by omega), bytesOf_word (by omega), bytesOf_word (by omega),
    toList_byteArray (by omega), bytesOf_word (by omega), toList_byteArray (by omega),
    toList_byteArray (by omega)]
  simp only [List.append_assoc]
  rw [← drop_eq_take_append (show 40 + 128 = 168 by norm_num),
    ← drop_eq_take_append (show 24 + 16 = 40 by norm_num),
    ← drop_eq_take_append (show 16 + 8 = 24 by norm_num),
    ← drop_eq_take_append (show 12 + 4 = 16 by norm_num),
    ← drop_eq_take_append (show 8 + 4 = 12 by norm_num),
    ← drop_eq_take_append (show 4 + 4 = 8 by norm_num),
    ← drop_eq_take_append (show 0 + 4 = 4 by norm_num), List.drop_zero]

/-- The parser accepts exactly the items that start with the memory of an event,
    with any padding, and reads this very event. -/
theorem parseRawKernelEvent_eq_some_iff (data : List U8) (ev : RawKernelEvent) :
    parseRawKernelEvent data = some ev ↔
      ∃ (pad : Vector U8 4) (rest : List U8), data = ev.toBytes pad ++ rest := by
  constructor
  · exact fun h => ⟨_, _, toBytes_of_parseRawKernelEvent h⟩
  · rintro ⟨pad, rest, rfl⟩
    exact parseRawKernelEvent_toBytes ev pad rest

end TimeFence.Epbf
