import TimeFence.Common.Chunks
import TimeFence.Common.LittleEndian
import TimeFence.Common.Merkle
import TimeFence.Core.KSentry
import TimeFence.Core.Rolling

/-!
# The baseline benchmarks

Model of `timefence-core/baseline.rs`: the methods that K-Sentry is measured against,
each as a function from a stream to its row. BLAKE3 and HMAC-SHA256 are arguments, and so
are the times that elapse and the `f64` arithmetic on them.

* `merkleRoot_binding`: among streams of one length the Merkle root determines the
  stream, unless the two computations hash different messages to one value.
* `merkleRoot_forged`: the length is not bound, since leaves and inner nodes are hashed
  alike: every stream of more than one chunk has the root of a stream of four events.
* `runRepeatedBaselineBench_rows`: what the rows of all runs contain.
-/

namespace TimeFence.Core

open TimeFence.Common TimeFence.Algebra

/-! ## Model -/

abbrev Bytes := List (BitVec 8)

/-- `blake3::Hash`. -/
@[ext]
structure Hash where
  bytes : Bytes
  length_eq : bytes.length = 32
  deriving DecidableEq

/-- `struct BaselineBenchRow` (lines 12–20). `F` is `f64`. -/
structure BaselineBenchRow (F : Type) where
  method : String
  run : ℕ
  events : ℕ
  durationMs : F
  eventsPerSec : F
  digest : String
  deriving DecidableEq, Repr

/-- The computations in `f64` from the time that has elapsed:
    `elapsed.as_secs_f64() * 1000.0` and `events as f64 / elapsed.as_secs_f64()`. -/
structure Timing (Duration F : Type) where
  durationMs : Duration → F
  eventsPerSec : ℕ → Duration → F

/-- Model of `synthetic_event` (lines 34–42). -/
def syntheticEvent (i : U64) : U128 :=
  let x := i.widen
  let x := x ^^^ 0x9e3779b97f4a7c15#128
  let x := x * 0xbf58476d1ce4e5b9#128
  let x := x ^^^ (x >>> 31)
  let x := x * 0x94d049bb133111eb#128
  x ^^^ (x >>> 27)

/-- Model of `u128_to_bytes` (lines 44–46). -/
def u128ToBytes (x : U128) : Bytes := bytesOf 16 x.toNat

/-- The two hexadecimal digits of a byte. -/
def hexByte (b : BitVec 8) : List Char := [Nat.digitChar (b.toNat / 16), Nat.digitChar (b.toNat % 16)]

/-- Model of `bytes_to_short_hex` (lines 56–61). -/
def bytesToShortHex (bytes : Bytes) : String := String.ofList ((bytes.take 8).flatMap hexByte)

/-- Model of `hash_to_short_hex` (lines 48–54). -/
def hashToShortHex (hash : Hash) : String := bytesToShortHex hash.bytes

section Rows

-- `elapsed` is what `start.elapsed()` returns at the end of the measured part.
variable {Duration F : Type} (timing : Timing Duration F)

/-- The statements with which the benchmarks end. -/
def benchRow (method : String) (events : List U128) (run : ℕ) (elapsed : Duration)
    (digest : String) : BaselineBenchRow F :=
  { method, run, events := events.length
    durationMs := timing.durationMs elapsed
    eventsPerSec := timing.eventsPerSec events.length elapsed
    digest }

/-- Model of `bench_ksentry` (lines 63–84). -/
def benchKsentry (events : List U128) (q p : U128) (run : ℕ) (elapsed : Duration) :
    Exec (BaselineBenchRow F) := do
  let ks ← KSentry.new q p
  let ks ← events.foldlM KSentry.update ks
  pure (benchRow timing "ksentry_triangular" events run elapsed (toString ks.digest.toNat))

/-- Model of `bench_rolling_hash` (lines 86–109), with the loop on `(acc, weight)`. -/
def benchRollingHash (events : List U128) (q p : U128) (run : ℕ) (elapsed : Duration) :
    Exec (BaselineBenchRow F) := do
  let (acc, _) ← events.foldlM (fun (acc, weight) x => do
    let x ← checkedRem x p
    let prod ← checkedMul x weight
    let term ← checkedRem prod p
    let sum ← checkedAdd acc term
    let acc ← checkedRem sum p
    let prod ← checkedMul weight q
    let weight ← checkedRem prod p
    pure (acc, weight)) (0#128, 1#128)
  pure (benchRow timing "rolling_hash_affine" events run elapsed (toString acc.toNat))

-- `blake3::hash`, where a hasher that was updated with several pieces hashes their
-- concatenation, and HMAC-SHA256 of a key and a message.
variable (blake3 : Bytes → Hash) (hmac : Bytes → Bytes → Bytes)

/-- Model of `bench_blake3_batch` (lines 111–134). -/
def benchBlake3Batch (events : List U128) (run : ℕ) (elapsed : Duration) : BaselineBenchRow F :=
  let hash := blake3 (events.flatMap u128ToBytes)
  benchRow timing "blake3_batch" events run elapsed (hashToShortHex hash)

/-- Model of `bench_hmac_sha256_batch` (lines 136–162). -/
def benchHmacSha256Batch (events : List U128) (run : ℕ) (elapsed : Duration) :
    BaselineBenchRow F :=
  let key := "timefence-demo-key".toList.map fun c => BitVec.ofNat 8 c.toNat
  let bytes := hmac key (events.flatMap u128ToBytes)
  benchRow timing "hmac_sha256_batch" events run elapsed (bytesToShortHex bytes)

/-- Model of `merkle_parent` (lines 164–169). -/
def merkleParent (left right : Hash) : Hash := blake3 (left.bytes ++ right.bytes)

/-- The leaves of `bench_merkle_chunks` (lines 174–188). `chunks(0)` panics. -/
def merkleLeaves (events : List U128) (chunkSize : ℕ) : Exec (List Hash) := do
  assertThat (chunkSize ≠ 0) "chunk size must be non-zero"
  let leaves := (chunks chunkSize events).map fun chunk => blake3 (chunk.flatMap u128ToBytes)
  pure (if leaves.isEmpty then [blake3 []] else leaves)

/-- The root of `bench_merkle_chunks` (lines 190–207). Every level is shorter than the
    one below it, so the number of leaves bounds the number of levels. -/
def merkleRoot (events : List U128) (chunkSize : ℕ) : Exec Hash := do
  let leaves ← merkleLeaves blake3 events chunkSize
  index (merkleLoop (merkleParent blake3) leaves.length leaves) 0

/-- Model of `bench_merkle_chunks` (lines 171–221). -/
def benchMerkleChunks (events : List U128) (chunkSize run : ℕ) (elapsed : Duration) :
    Exec (BaselineBenchRow F) := do
  let root ← merkleRoot blake3 events chunkSize
  pure (benchRow timing ("merkle_chunks_" ++ toString chunkSize) events run elapsed
    (hashToShortHex root))

/-- Model of `make_events` (lines 223–229). -/
def makeEvents (eventCount : ℕ) : List U128 :=
  (List.range eventCount).map fun i => syntheticEvent (BitVec.ofNat 64 i) % 1000000007#128

/-- Model of `run_baseline_bench_once` (lines 235–247). `elapsed i` is the time that the
    benchmark `i` measures. -/
def runBaselineBenchOnce (eventCount run : ℕ) (elapsed : Fin 5 → Duration) :
    Exec (List (BaselineBenchRow F)) := do
  let q := 7#128
  let p := 1000000007#128
  let events := makeEvents eventCount
  let ksentry ← benchKsentry timing events q p run (elapsed 0)
  let rolling ← benchRollingHash timing events q p run (elapsed 1)
  let merkle ← benchMerkleChunks timing blake3 events 1024 run (elapsed 4)
  pure [ksentry, rolling, benchBlake3Batch timing blake3 events run (elapsed 2),
    benchHmacSha256Batch timing hmac events run (elapsed 3), merkle]

/-- Model of `run_repeated_baseline_bench` (lines 249–257). `elapsed run i` is the time
    that the benchmark `i` of a run measures. -/
def runRepeatedBaselineBench (eventCount runs : ℕ) (elapsed : ℕ → Fin 5 → Duration) :
    Exec (List (BaselineBenchRow F)) :=
  (List.range' 1 runs).foldlM (fun rows run => do
    let once ← runBaselineBenchOnce timing blake3 hmac eventCount run (elapsed run)
    pure (rows ++ once)) []

end Rows

/-! ## Bytes of a stream -/

theorem length_flatMap_u128ToBytes (events : List U128) :
    (events.flatMap u128ToBytes).length = 16 * events.length := by
  induction events with
  | nil => rfl
  | cons x events ih =>
    rw [List.flatMap_cons, List.length_append, ih, u128ToBytes, length_bytesOf, List.length_cons]
    omega

theorem u128ToBytes_injective : Function.Injective u128ToBytes := by
  intro x y h
  have hx := ofDigits_bytesOf 16 x.toNat
  have hy := ofDigits_bytesOf 16 y.toNat
  have hlt : ∀ z : U128, z.toNat < 256 ^ 16 := fun z => z.isLt.trans_eq (by norm_num)
  rw [Nat.mod_eq_of_lt (hlt _)] at hx hy
  rw [u128ToBytes, u128ToBytes] at h
  rw [h, hy] at hx
  exact BitVec.eq_of_toNat_eq hx.symm

/-- The bytes determine the events: all of them have 16 bytes. -/
theorem flatMap_u128ToBytes_injective :
    Function.Injective fun events : List U128 => events.flatMap u128ToBytes := by
  intro xs
  induction xs with
  | nil =>
    intro ys h
    have hlen := congrArg List.length h
    dsimp only at hlen
    rw [length_flatMap_u128ToBytes, length_flatMap_u128ToBytes] at hlen
    exact (List.length_eq_zero_iff.mp (by simpa using hlen.symm)).symm
  | cons x xs ih =>
    intro ys h
    cases ys with
    | nil =>
      have hlen := congrArg List.length h
      dsimp only at hlen
      rw [length_flatMap_u128ToBytes, length_flatMap_u128ToBytes] at hlen
      simp at hlen
    | cons y ys =>
      dsimp only at h
      rw [List.flatMap_cons, List.flatMap_cons] at h
      obtain ⟨hx, hrest⟩ := List.append_inj h (by simp [u128ToBytes])
      rw [u128ToBytes_injective hx, ih hrest]

/-- Any `16 n` bytes are the bytes of `n` events. -/
theorem exists_events_of_bytes (n : ℕ) {bytes : Bytes} (h : bytes.length = 16 * n) :
    ∃ events : List U128, events.length = n ∧ events.flatMap u128ToBytes = bytes := by
  induction n generalizing bytes with
  | zero => exact ⟨[], rfl, (List.length_eq_zero_iff.mp (by omega)).symm⟩
  | succ n ih =>
    have hdrop : (bytes.drop 16).length = 16 * n := by
      rw [List.length_drop]
      omega
    obtain ⟨events, hlen, hevents⟩ := ih hdrop
    have htake : (bytes.take 16).length = 16 := List.length_take_of_le (by omega)
    have hlt : Nat.ofDigits 256 ((bytes.take 16).map BitVec.toNat) < 2 ^ 128 := by
      have hdigits := Nat.ofDigits_lt_base_pow_length (b := 256)
        (l := (bytes.take 16).map BitVec.toNat) (by norm_num) (by
          intro d hd
          obtain ⟨b, -, rfl⟩ := List.mem_map.mp hd
          exact b.isLt)
      rw [List.length_map, htake] at hdigits
      exact hdigits.trans_eq (by norm_num)
    refine ⟨BitVec.ofNat 128 (Nat.ofDigits 256 ((bytes.take 16).map BitVec.toNat)) :: events,
      by rw [List.length_cons, hlen], ?_⟩
    have hback := bytesOf_ofDigits (bytes.take 16)
    rw [htake] at hback
    rw [List.flatMap_cons, hevents, u128ToBytes, BitVec.toNat_ofNat, Nat.mod_eq_of_lt hlt, hback,
      List.take_append_drop]

/-! ## The Merkle root -/

/-- The messages of the leaves. An empty stream has one leaf, of the empty message. -/
def leafMessages (events : List U128) (chunkSize : ℕ) : List Bytes :=
  if events.isEmpty then [[]]
  else (chunks chunkSize events).map fun chunk => chunk.flatMap u128ToBytes

section

variable {blake3 : Bytes → Hash} {events xs ys : List U128} {chunkSize : ℕ}

/-- All messages that the computation of a root hashes. -/
def hashedMessages (blake3 : Bytes → Hash) (events : List U128) (chunkSize : ℕ) : List Bytes :=
  let messages := leafMessages events chunkSize
  messages ++ (loopPairs (merkleParent blake3) messages.length (messages.map blake3)).map fun u =>
    u.1.bytes ++ u.2.bytes

theorem leafMessages_ne_nil (hc : 0 < chunkSize) : leafMessages events chunkSize ≠ [] := by
  unfold leafMessages
  by_cases hempty : events.isEmpty
  · simp [hempty]
  · have hpos : 0 < (chunks chunkSize events).length := by
      rw [lt_length_chunks_iff hc, Nat.zero_mul, List.length_pos_iff]
      simpa using hempty
    rw [if_neg hempty, ← List.length_pos_iff, List.length_map]
    exact hpos

theorem merkleLeaves_eq (hc : 0 < chunkSize) :
    merkleLeaves blake3 events chunkSize = .ok ((leafMessages events chunkSize).map blake3) := by
  have hmessages : leafMessages events chunkSize ≠ [] := leafMessages_ne_nil hc
  rw [merkleLeaves, assertThat_of (by omega), ok_bind]
  unfold leafMessages at hmessages ⊢
  by_cases hempty : events.isEmpty
  · obtain rfl := List.isEmpty_iff.mp hempty
    rfl
  · rw [if_neg hempty] at hmessages
    dsimp only
    rw [if_neg hempty, if_neg (by simpa using hmessages), List.map_map]
    rfl

/-- The root is the node that the loop ends with. -/
theorem merkleRoot_returns (hc : 0 < chunkSize) :
    Returns (merkleRoot blake3 events chunkSize) fun root =>
      merkleLoop (merkleParent blake3) (leafMessages events chunkSize).length
        ((leafMessages events chunkSize).map blake3) = [root] := by
  have hleaves : (leafMessages events chunkSize).map blake3 ≠ [] := by
    simpa using leafMessages_ne_nil hc
  have hone : (merkleLoop (merkleParent blake3) (leafMessages events chunkSize).length
      ((leafMessages events chunkSize).map blake3)).length = 1 :=
    length_merkleLoop hleaves (by simp)
  obtain ⟨root, hroot⟩ := List.length_eq_one_iff.mp hone
  refine ⟨root, ?_, hroot⟩
  rw [merkleRoot, merkleLeaves_eq hc, ok_bind, List.length_map, hroot]
  rfl

/-- Different messages in two lists with one value. -/
def Collision (blake3 : Bytes → Hash) (ms ms' : List Bytes) : Prop :=
  ∃ m ∈ ms, ∃ m' ∈ ms', m ≠ m' ∧ blake3 m = blake3 m'

/-- Lists of messages with the same values. -/
theorem eq_or_collision {ms ms' : List Bytes} (h : ms.map blake3 = ms'.map blake3) :
    ms = ms' ∨ Collision blake3 ms ms' := by
  induction ms generalizing ms' with
  | nil =>
    rw [List.map_nil, eq_comm, List.map_eq_nil_iff] at h
    exact Or.inl h.symm
  | cons m ms ih =>
    cases ms' with
    | nil => cases h
    | cons m' ms' =>
      rw [List.map_cons, List.map_cons, List.cons.injEq] at h
      by_cases hm : m = m'
      · subst hm
        rcases ih h.2 with rfl | ⟨a, ha, b, hb, hab⟩
        · exact Or.inl rfl
        · exact Or.inr ⟨a, List.mem_cons_of_mem m ha, b, List.mem_cons_of_mem m hb, hab⟩
      · exact Or.inr ⟨m, List.mem_cons_self, m', List.mem_cons_self, hm, h.1⟩

/-- The leaf messages determine a stream of known length. -/
theorem leafMessages_inj (hc : 0 < chunkSize) (hlen : xs.length = ys.length)
    (h : leafMessages xs chunkSize = leafMessages ys chunkSize) : xs = ys := by
  unfold leafMessages at h
  by_cases hempty : xs = []
  · subst hempty
    exact (List.length_eq_zero_iff.mp hlen.symm).symm
  · have hempty' : ys ≠ [] := by
      rintro rfl
      exact hempty (List.length_eq_zero_iff.mp hlen)
    rw [if_neg (by simpa using hempty), if_neg (by simpa using hempty')] at h
    have hchunks := List.map_injective_iff.mpr flatMap_u128ToBytes_injective h
    rw [← flatten_chunks hc xs, hchunks, flatten_chunks hc]

theorem length_leafMessages_eq (hc : 0 < chunkSize) (hlen : xs.length = ys.length) :
    (leafMessages xs chunkSize).length = (leafMessages ys chunkSize).length := by
  have hempty : xs.isEmpty = ys.isEmpty := by
    rw [Bool.eq_iff_iff, List.isEmpty_iff_length_eq_zero, List.isEmpty_iff_length_eq_zero, hlen]
  unfold leafMessages
  rw [hempty]
  split
  · rfl
  · rw [List.length_map, List.length_map, length_chunks_eq hc hlen]

end

/-- Among streams of one length the root determines the stream, unless the two
    computations hash different messages to one value. -/
theorem merkleRoot_binding (blake3 : Bytes → Hash) {chunkSize : ℕ} (hc : 0 < chunkSize)
    {xs ys : List U128} (hlen : xs.length = ys.length) :
    ∃ rx ry, merkleRoot blake3 xs chunkSize = .ok rx ∧ merkleRoot blake3 ys chunkSize = .ok ry ∧
      (rx = ry → xs = ys ∨ Collision blake3 (hashedMessages blake3 xs chunkSize)
        (hashedMessages blake3 ys chunkSize)) := by
  obtain ⟨rx, hrx, hloopx⟩ : Returns (merkleRoot blake3 xs chunkSize) _ := merkleRoot_returns hc
  obtain ⟨ry, hry, hloopy⟩ : Returns (merkleRoot blake3 ys chunkSize) _ := merkleRoot_returns hc
  refine ⟨rx, ry, hrx, hry, ?_⟩
  rintro rfl
  have hcount := length_leafMessages_eq hc hlen
  rw [← hloopy, ← hcount] at hloopx
  rcases merkleLoop_binding (by simpa using hcount) hloopx with hleaves | hclash
  · rcases eq_or_collision hleaves with hmessages | ⟨m, hm, m', hm', hne⟩
    · exact Or.inl (leafMessages_inj hc hlen hmessages)
    · exact Or.inr ⟨m, List.mem_append_left _ hm, m', List.mem_append_left _ hm', hne⟩
  · -- Two inner nodes: hashes have one length, so the messages differ too.
    obtain ⟨u, hu, v, hv, hne, heq⟩ := hclash
    refine Or.inr ⟨u.1.bytes ++ u.2.bytes, List.mem_append_right _ (List.mem_map_of_mem hu),
      v.1.bytes ++ v.2.bytes, List.mem_append_right _ (List.mem_map_of_mem (hcount ▸ hv)), ?_, heq⟩
    intro happend
    obtain ⟨hleft, hright⟩ := List.append_inj happend (by rw [u.1.length_eq, v.1.length_eq])
    exact hne (Prod.ext (Hash.ext hleft) (Hash.ext hright))

instance {blake3 : Bytes → Hash} {ms ms' : List Bytes} : Decidable (Collision blake3 ms ms') :=
  inferInstanceAs (Decidable (∃ m ∈ ms, ∃ m' ∈ ms', m ≠ m' ∧ blake3 m = blake3 m'))

/-- The BLAKE3 values of six messages, and the value of the empty message elsewhere. -/
def blake3Values (message : Bytes) : Hash :=
  let ofNumber (n : ℕ) : Hash := ⟨bytesOf 32 n, length_bytesOf 32 n⟩
  let first := ofNumber 0xd24729b76f7624aeb15363e9e86de7b6cafb2b2433a39db02d6930a56c9eca90
  let second := ofNumber 0x299227e89966f6c589a033ee5300576e5756ca72695ce18fd5e60bbbcf54bdfa
  let third := ofNumber 0x46ea4ac2dbb040735e2a6021af3e5f98efd028dd3c6284cac307d818882bdc33
  if message = [1#128, 2#128, 3#128, 4#128].flatMap u128ToBytes then first
  else if message = [5#128].flatMap u128ToBytes then second
  else if message = [6#128].flatMap u128ToBytes then third
  else if message = first.bytes ++ second.bytes then
    ofNumber 0x52dca0ec56707a5b0ecbb0250e94c7d8f08aa04c09711b1d355f126942fd7a93
  else if message = first.bytes ++ third.bytes then
    ofNumber 0x865b088bf44a78608bbaa0f130cbee0f8e1534b613ae41055dc7c4b22154e886
  else if message = [552941203#128, 357631119#128, 691347162#128].flatMap u128ToBytes then
    ofNumber 0x1179ee904db30aea19f9846edba0c27d81a1426b3cd8dd09600f9e0be7b4adf3
  else ofNumber 0x62321fe4ca939accb712c1adc925cb9b49c9dc36ea4d40a0a6a1f9f5b94913af

/-- The streams `1, …, 4, 5` and `1, …, 4, 6` in chunks of four have different roots. -/
theorem merkleRoot_binding_last :
    ∃ rx ry, merkleRoot blake3Values [1#128, 2#128, 3#128, 4#128, 5#128] 4 = .ok rx ∧
      merkleRoot blake3Values [1#128, 2#128, 3#128, 4#128, 6#128] 4 = .ok ry ∧ rx ≠ ry := by
  obtain ⟨rx, ry, hrx, hry, hbinding⟩ := merkleRoot_binding blake3Values (show 0 < 4 by decide)
    (show [1#128, 2#128, 3#128, 4#128, 5#128].length =
      [1#128, 2#128, 3#128, 4#128, 6#128].length by decide)
  have hnone : ¬ Collision blake3Values
      (hashedMessages blake3Values [1#128, 2#128, 3#128, 4#128, 5#128] 4)
      (hashedMessages blake3Values [1#128, 2#128, 3#128, 4#128, 6#128] 4) := by decide +kernel
  refine ⟨rx, ry, hrx, hry, fun heq => ?_⟩
  rcases hbinding heq with hstreams | hcollision
  · exact absurd hstreams (by decide)
  · exact hnone hcollision

/-- The length is not bound. A stream of more than one chunk of four events or more has
    the root of a stream of four events, whose bytes are the two topmost hashes. -/
theorem merkleRoot_forged (blake3 : Bytes → Hash) {chunkSize : ℕ} (hc : 4 ≤ chunkSize)
    {events : List U128} (hn : chunkSize < events.length) :
    ∃ forged root, forged.length = 4 ∧ merkleRoot blake3 events chunkSize = .ok root ∧
      merkleRoot blake3 forged chunkSize = .ok root := by
  have hpos : 0 < chunkSize := by omega
  obtain ⟨root, hroot, hloop⟩ : Returns (merkleRoot blake3 events chunkSize) _ :=
    merkleRoot_returns hpos
  have hempty : ¬ events.isEmpty = true := by
    rw [List.isEmpty_iff_length_eq_zero]
    omega
  have hleaves : 1 < ((leafMessages events chunkSize).map blake3).length := by
    rw [List.length_map, leafMessages, if_neg hempty, List.length_map, lt_length_chunks_iff hpos,
      Nat.one_mul]
    exact hn
  obtain ⟨l, r, hparent⟩ : ∃ l r, merkleLoop (merkleParent blake3)
      (leafMessages events chunkSize).length ((leafMessages events chunkSize).map blake3) =
      [merkleParent blake3 l r] := merkleLoop_eq_parent hleaves (by simp)
  rw [hloop, List.cons.injEq] at hparent
  have htop : (l.bytes ++ r.bytes).length = 16 * 4 := by
    rw [List.length_append, l.length_eq, r.length_eq]
  obtain ⟨forged, hlen, hbytes⟩ := exists_events_of_bytes 4 htop
  refine ⟨forged, root, hlen, hroot, ?_⟩
  -- The forged stream is one leaf, and its message is the one of the topmost node.
  have hforged : forged ≠ [] := by
    rintro rfl
    cases hlen
  have hmessages : leafMessages forged chunkSize = [l.bytes ++ r.bytes] := by
    rw [leafMessages, if_neg (by simpa using hforged), chunks_of_length_le hforged (by omega),
      List.map_singleton, hbytes]
  obtain ⟨root', hroot', hloop'⟩ : Returns (merkleRoot blake3 forged chunkSize) _ :=
    merkleRoot_returns hpos
  rw [hmessages] at hloop'
  have hsame : root' = blake3 (l.bytes ++ r.bytes) := (List.singleton_inj.mp hloop').symm
  rw [hroot', hsame, hparent.1]
  rfl

/-- Four events with the root of `1, …, 5`. -/
theorem merkleRoot_forged_five :
    ∃ forged root, forged.length = 4 ∧
      merkleRoot blake3Values [1#128, 2#128, 3#128, 4#128, 5#128] 4 = .ok root ∧
      merkleRoot blake3Values forged 4 = .ok root :=
  merkleRoot_forged blake3Values (le_refl 4)
    (show 4 < [1#128, 2#128, 3#128, 4#128, 5#128].length by decide)

/-! ## The rows -/

section

variable {q p : U128} {events : List U128}

/-- The loop of the rolling hash, with plain operators, on bases up to `2^64`. -/
theorem benchRollingHash_returns {Duration F : Type} (timing : Timing Duration F)
    (hp : ModulusOk p) (hq : q.toNat ≤ 2 ^ 64) (run : ℕ) (elapsed : Duration) :
    Returns (benchRollingHash timing events q p run elapsed) fun row => ∃ acc : U128,
      Rep p.toNat acc (rollingDigestOf q p 0 events) ∧
      row = benchRow timing "rolling_hash_affine" events run elapsed (toString acc.toNat) := by
  have hle := hp.le
  refine Returns.bind (Q := fun st => Rep p.toNat st.1 (rollingDigestOf q p 0 events) ∧
    Rep p.toNat st.2 ((q.toNat : ZMod p.toNat) ^ events.length)) ?_
    fun st hst => Returns.pure ⟨st.1, hst.1, rfl⟩
  refine Returns.foldlM (fun pre (st : U128 × U128) =>
    Rep p.toNat st.1 (rollingDigestOf q p 0 pre) ∧
    Rep p.toNat st.2 ((q.toNat : ZMod p.toNat) ^ pre.length)) ?_ ?_
  · exact ⟨(rep_zero hp.pos).congr (rollingDigestOf_nil q p 0).symm,
      (rep_one (by norm_num) hp.one_lt).congr (pow_zero _).symm⟩
  · rintro pre x post ⟨acc, weight⟩ - ⟨hacc, hweight⟩
    dsimp only at hacc hweight
    have hwlt := hweight.lt
    have halt := hacc.lt
    refine (checkedRem_rep hp.pos).bind fun x' hx' => ?_
    have hxlt := hx'.lt
    have hterm : x'.toNat * weight.toNat < 2 ^ 128 :=
      calc x'.toNat * weight.toNat < 2 ^ 64 * 2 ^ 64 := Nat.mul_lt_mul'' (by omega) (by omega)
        _ = 2 ^ 128 := by norm_num
    refine (checkedMul_returns hterm).bind fun prod hprod => ?_
    refine (checkedRem_rep hp.pos).bind fun term hrterm => ?_
    have htlt := hrterm.lt
    refine (checkedAdd_returns (by omega)).bind fun sum hsum => ?_
    refine (checkedRem_rep hp.pos).bind fun acc' hacc' => ?_
    have hnext : weight.toNat * q.toNat < 2 ^ 128 :=
      calc weight.toNat * q.toNat < 2 ^ 64 * 2 ^ 64 :=
            Nat.mul_lt_mul_of_lt_of_le (by omega) hq (by norm_num)
        _ = 2 ^ 128 := by norm_num
    refine (checkedMul_returns hnext).bind fun prod' hprod' => ?_
    refine (checkedRem_rep hp.pos).bind fun weight' hweight' => ?_
    refine Returns.pure ⟨hacc'.congr ?_, hweight'.congr ?_⟩
    · rw [hsum, Nat.cast_add, hacc.cast, hrterm.cast, hprod, Nat.cast_mul, hx'.cast, hweight.cast,
        rollingDigestOf_concat, Nat.zero_add]
    · rw [hprod', Nat.cast_mul, hweight.cast, List.length_append, List.length_singleton, pow_succ]

/-- A stream of one chunk is hashed as a whole. -/
theorem merkleRoot_of_length_le (blake3 : Bytes → Hash) {chunkSize : ℕ} (hc : 0 < chunkSize)
    (hlen : events.length ≤ chunkSize) :
    merkleRoot blake3 events chunkSize = .ok (blake3 (events.flatMap u128ToBytes)) := by
  have hmessages : leafMessages events chunkSize = [events.flatMap u128ToBytes] := by
    by_cases hempty : events = []
    · subst hempty
      rfl
    · rw [leafMessages, if_neg (by simpa using hempty), chunks_of_length_le hempty hlen,
        List.map_singleton]
  obtain ⟨root, hroot, hloop⟩ : Returns (merkleRoot blake3 events chunkSize) _ :=
    merkleRoot_returns hc
  rw [hmessages] at hloop
  rw [hroot, ← List.singleton_inj.mp hloop]

end

theorem length_makeEvents (n : ℕ) : (makeEvents n).length = n := by simp [makeEvents]

section

variable {Duration F : Type} (timing : Timing Duration F) (blake3 : Bytes → Hash)
  (hmac : Bytes → Bytes → Bytes)

/-- The rows of one run. -/
def benchRows (n : ℕ) (ksentry rolling : U128) (merkle : Hash) (run : ℕ)
    (elapsed : Fin 5 → Duration) : List (BaselineBenchRow F) :=
  [benchRow timing "ksentry_triangular" (makeEvents n) run (elapsed 0) (toString ksentry.toNat),
    benchRow timing "rolling_hash_affine" (makeEvents n) run (elapsed 1) (toString rolling.toNat),
    benchBlake3Batch timing blake3 (makeEvents n) run (elapsed 2),
    benchHmacSha256Batch timing hmac (makeEvents n) run (elapsed 3),
    benchRow timing "merkle_chunks_1024" (makeEvents n) run (elapsed 4) (hashToShortHex merkle)]

theorem runBaselineBenchOnce_eq {n : ℕ} (hn : n < 2 ^ 64) :
    ∃ ks rh merkle, ksentryFast (makeEvents n) 7#128 1000000007#128 = .ok ks ∧
      rollingHash (makeEvents n) 7#128 1000000007#128 = .ok rh ∧
      merkleRoot blake3 (makeEvents n) 1024 = .ok merkle ∧
      ∀ run elapsed, runBaselineBenchOnce timing blake3 hmac n run elapsed =
        .ok (benchRows timing blake3 hmac n ks.digest rh.digest merkle run elapsed) := by
  have hp : ModulusOk 1000000007#128 := ⟨by decide, by decide⟩
  have hq : 0 < (7#128).toNat := by decide
  have hlen := length_makeEvents n
  obtain ⟨ks, hks, -⟩ := ksentryFast_digest hp hq (makeEvents n) (by omega)
  have hlt : (makeEvents n).length < 2 ^ 64 := by omega
  obtain ⟨rh, hrh, hrefines⟩ := rollingHash_refines hp hq hlt
  obtain ⟨merkle, hmerkle, -⟩ : Returns (merkleRoot blake3 (makeEvents n) 1024) _ :=
    merkleRoot_returns (by norm_num)
  refine ⟨ks, rh, merkle, hks, hrh, hmerkle, fun run elapsed => ?_⟩
  have hksentry : benchKsentry timing (makeEvents n) 7#128 1000000007#128 run (elapsed 0) =
      .ok (benchRow timing "ksentry_triangular" (makeEvents n) run (elapsed 0)
        (toString ks.digest.toNat)) := by
    obtain ⟨st, hst, hrun⟩ := bind_eq_ok_iff.mp hks
    rw [benchKsentry, hst, ok_bind, hrun, ok_bind]
    rfl
  obtain ⟨row, hrow, acc, hacc, rfl⟩ :
      Returns (benchRollingHash timing (makeEvents n) 7#128 1000000007#128 run (elapsed 1)) _ :=
    benchRollingHash_returns timing hp (by decide) run (elapsed 1)
  obtain rfl := hacc.unique hrefines.acc_rep
  simp only [runBaselineBenchOnce, hksentry, hrow, benchMerkleChunks, hmerkle, ok_bind]
  rfl

/-- The rows of the runs `is`, behind the rows of the runs before. -/
theorem foldlM_benchRows {n : ℕ} {ksentry rolling : U128} {merkle : Hash}
    {elapsed : ℕ → Fin 5 → Duration}
    (h : ∀ run, runBaselineBenchOnce timing blake3 hmac n run (elapsed run) =
      .ok (benchRows timing blake3 hmac n ksentry rolling merkle run (elapsed run)))
    (is : List ℕ) (rows : List (BaselineBenchRow F)) :
    is.foldlM (fun rows run => do
      let once ← runBaselineBenchOnce timing blake3 hmac n run (elapsed run)
      pure (rows ++ once)) rows =
    .ok (rows ++ is.flatMap fun run =>
      benchRows timing blake3 hmac n ksentry rolling merkle run (elapsed run)) := by
  induction is generalizing rows with
  | nil =>
    rw [List.flatMap_nil, List.append_nil]
    rfl
  | cons i is ih =>
    rw [List.foldlM_cons, h i, ok_bind, pure_bind, ih, List.flatMap_cons, List.append_assoc]

end

/-- The repeated benchmark, whatever times the runs take. Run `k` has five rows with the
    number `k` and the number of events: with the digests of the accumulator and of the
    rolling hash in decimal, and with the first eight bytes of the hash, of the
    authentication code and of the Merkle root of the stream in hexadecimal. None of the
    digests depends on the run; the two measured fields are computed from the time of
    their own row. For streams of up to 1024 events the Merkle root is the hash of the
    stream. -/
theorem runRepeatedBaselineBench_rows {Duration F : Type} (timing : Timing Duration F)
    (blake3 : Bytes → Hash) (hmac : Bytes → Bytes → Bytes) {n : ℕ} (hn : n < 2 ^ 64) (runs : ℕ)
    (elapsed : ℕ → Fin 5 → Duration) :
    ∃ (ks : KSentry) (rh : RollingHash) (merkle : Hash) (message key : Bytes) (hex : Bytes → String),
      ksentryFast (makeEvents n) 7#128 1000000007#128 = .ok ks ∧
      rollingHash (makeEvents n) 7#128 1000000007#128 = .ok rh ∧
      merkleRoot blake3 (makeEvents n) 1024 = .ok merkle ∧
      message = (makeEvents n).flatMap (fun x => bytesOf 16 x.toNat) ∧
      key = "timefence-demo-key".toList.map (fun c => BitVec.ofNat 8 c.toNat) ∧
      (∀ bytes, hex bytes = String.ofList ((bytes.take 8).flatMap fun b =>
        [Nat.digitChar (b.toNat / 16), Nat.digitChar (b.toNat % 16)])) ∧
      (n ≤ 1024 → merkle = blake3 message) ∧
      runRepeatedBaselineBench timing blake3 hmac n runs elapsed =
        .ok ((List.range' 1 runs).flatMap fun run =>
          [{ method := "ksentry_triangular", run, events := n
             durationMs := timing.durationMs (elapsed run 0)
             eventsPerSec := timing.eventsPerSec n (elapsed run 0)
             digest := toString ks.digest.toNat },
           { method := "rolling_hash_affine", run, events := n
             durationMs := timing.durationMs (elapsed run 1)
             eventsPerSec := timing.eventsPerSec n (elapsed run 1)
             digest := toString rh.digest.toNat },
           { method := "blake3_batch", run, events := n
             durationMs := timing.durationMs (elapsed run 2)
             eventsPerSec := timing.eventsPerSec n (elapsed run 2)
             digest := hex (blake3 message).bytes },
           { method := "hmac_sha256_batch", run, events := n
             durationMs := timing.durationMs (elapsed run 3)
             eventsPerSec := timing.eventsPerSec n (elapsed run 3)
             digest := hex (hmac key message) },
           { method := "merkle_chunks_1024", run, events := n
             durationMs := timing.durationMs (elapsed run 4)
             eventsPerSec := timing.eventsPerSec n (elapsed run 4)
             digest := hex merkle.bytes }]) := by
  obtain ⟨ks, rh, merkle, hks, hrh, hmerkle, hrows⟩ :=
    runBaselineBenchOnce_eq timing blake3 hmac hn
  refine ⟨ks, rh, merkle, _, _, bytesToShortHex, hks, hrh, hmerkle, rfl, rfl, fun _ => rfl,
    fun hsmall => ?_, ?_⟩
  · rw [merkleRoot_of_length_le blake3 (by norm_num) (by rw [length_makeEvents]; exact hsmall)]
      at hmerkle
    exact (Except.ok.inj hmerkle).symm
  · have hloop := foldlM_benchRows timing blake3 hmac (fun run => hrows run (elapsed run))
      (List.range' 1 runs) []
    simp only [benchRows, benchBlake3Batch, benchHmacSha256Batch, benchRow, length_makeEvents]
      at hloop
    exact hloop

/-- Times in nanoseconds, with exact arithmetic. -/
def nanoTiming : Timing ℕ ℚ :=
  { durationMs := fun ns => ns / 1000000
    eventsPerSec := fun events ns => events * 1000000000 / ns }

/-- The authentication code of three events, and the one of the empty message elsewhere. -/
def hmacValues (_key message : Bytes) : Bytes :=
  if message = [552941203#128, 357631119#128, 691347162#128].flatMap u128ToBytes then
    bytesOf 32 0x141d096f6a800277b7a6de75b2c6bf05403522c8f33712f8887dd1b29f6e12a8
  else bytesOf 32 0xe0dc9d958ceb1c0364c3c49605c71cae1ffd5e8eaa5a3dda27a9ced7ac5f894a

/-- Two runs over three events, in which the benchmarks of the run `k` take `k`
    milliseconds. -/
theorem runRepeatedBaselineBench_rows_three :
    ∃ rows, runRepeatedBaselineBench nanoTiming blake3Values hmacValues 3 2
        (fun run _ => 1000000 * run) = .ok rows ∧ rows.length = 10 ∧
      rows[0]? = some { method := "ksentry_triangular", run := 1, events := 3, durationMs := 1
                        eventsPerSec := 3000, digest := "188433922" } ∧
      rows[7]? = some { method := "blake3_batch", run := 2, events := 3, durationMs := 2
                        eventsPerSec := 1500, digest := "f3adb4e70b9e0f60" } ∧
      rows[8]? = some { method := "hmac_sha256_batch", run := 2, events := 3, durationMs := 2
                        eventsPerSec := 1500, digest := "a8126e9fb2d17d88" } := by
  obtain ⟨ks, rh, merkle, message, key, hex, hks, -, -, rfl, rfl, hhex, -, hrows⟩ :=
    runRepeatedBaselineBench_rows nanoTiming blake3Values hmacValues (show 3 < 2 ^ 64 by decide) 2
      fun run _ => 1000000 * run
  have hms : ∀ run : ℕ, nanoTiming.durationMs (1000000 * run) = run := by
    intro run
    simp [nanoTiming]
  have hps : nanoTiming.eventsPerSec 3 (1000000 * 1) = 3000 ∧
      nanoTiming.eventsPerSec 3 (1000000 * 2) = 1500 := by
    norm_num [nanoTiming]
  have hdigest : ks.digest = 188433922#128 := by
    have hvalue : (ksentryFast (makeEvents 3) 7#128 1000000007#128).map KSentry.digest =
        .ok 188433922#128 := by decide +kernel
    rw [hks] at hvalue
    exact Except.ok.inj hvalue
  have hblake3 : hex (blake3Values ((makeEvents 3).flatMap fun x => bytesOf 16 x.toNat)).bytes =
      "f3adb4e70b9e0f60" := by
    rw [hhex]
    decide +kernel
  have hhmac : hex (hmacValues ("timefence-demo-key".toList.map fun c => BitVec.ofNat 8 c.toNat)
      ((makeEvents 3).flatMap fun x => bytesOf 16 x.toNat)) = "a8126e9fb2d17d88" := by
    rw [hhex]
    decide +kernel
  refine ⟨_, hrows, rfl, ?_, ?_, ?_⟩
  · show some (BaselineBenchRow.mk _ _ _ (nanoTiming.durationMs (1000000 * 1))
      (nanoTiming.eventsPerSec 3 (1000000 * 1)) (toString ks.digest.toNat)) = _
    rw [hms, hps.1, hdigest, Nat.cast_one]
    rfl
  · show some (BaselineBenchRow.mk _ _ _ (nanoTiming.durationMs (1000000 * 2))
      (nanoTiming.eventsPerSec 3 (1000000 * 2)) (hex _)) = _
    rw [hms, hps.2, hblake3, Nat.cast_ofNat]
  · show some (BaselineBenchRow.mk _ _ _ (nanoTiming.durationMs (1000000 * 2))
      (nanoTiming.eventsPerSec 3 (1000000 * 2)) (hex _)) = _
    rw [hms, hps.2, hhmac, Nat.cast_ofNat]

end TimeFence.Core
