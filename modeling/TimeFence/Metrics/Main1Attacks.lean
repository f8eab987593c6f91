import TimeFence.Metrics.Attacks
import TimeFence.Metrics.Main1

/-!
# Attacks on a log

Model of the edit and the reorder attack of `ksentry-metrics/src/bin/main1.rs`
(lines 199–217) and of what the program reports about them: the prefix states, the
mismatches and the first diverging prefix (lines 76–148). The two logs may have
different lengths there.

* `mismatchInfo_exact`: what the mismatches say about logs of any lengths.
* `firstPrefixDivergence_first`: the first diverging prefix ends at the first
  common position whose residues differ.
* `runEditAttack_localized`: an edited bit is always detected, and the reports name
  its position.
* `runReorderAttack_localized`: the reports name both ends of a reordered log, also
  when its digest is the old one.
-/

namespace TimeFence.Metrics.Main1

open TimeFence.Common TimeFence.Algebra
open TimeFence.Metrics.Main (Mismatch scan_eq_ok collect_eq_ok differsAt_take_iff
  eq_iff_forall_not_mismatch detectChange swapEnds length_swapEnds swapEnds_exchanged)

/-! ## Model -/

/-- Model of `prefix_states` (lines 76–90). -/
def prefixStates (self : KSentry) (logs : List U64) : Exec (List U64) :=
  self.prefixStates triangularExponent logs

/-- Model of `term_at` (lines 107–111). -/
def termAt (self : KSentry) (value : U64) (idx : ℕ) : Exec U64 := do
  let li ← checkedRem value self.p
  let w ← weightForIndex self idx
  mulModU64 li w self.p

/-- `struct MismatchInfo` (lines 118–125). -/
structure MismatchInfo where
  mismatchExists : Bool
  firstIndex : Option ℕ
  lastIndex : Option ℕ
  mismatchCount : ℕ
  mismatchIndices : List ℕ
  deriving DecidableEq, Repr

/-- Model of `mismatch_info` (lines 127–144). -/
def mismatchInfo (logs1 logs2 : List U64) : Exec MismatchInfo := do
  let n := min logs1.length logs2.length
  let indices ← (List.range n).foldlM (fun indices i => do
    let a ← index logs1 i
    let b ← index logs2 i
    pure (if a ≠ b then indices ++ [i] else indices)) []
  pure { mismatchExists := !indices.isEmpty || logs1.length != logs2.length
         firstIndex := indices.head?
         lastIndex := indices.getLast?
         mismatchCount := indices.length + max logs1.length logs2.length - n
         mismatchIndices := indices }

/-- Model of `first_prefix_divergence` (lines 146–149). -/
def firstPrefixDivergence (prefix1 prefix2 : List U64) : Exec (Option ℕ) :=
  (List.range (min prefix1.length prefix2.length)).findSomeM? fun i => do
    let a ← index prefix1 i
    let b ← index prefix2 i
    pure (if a ≠ b then some i else none)

/-- Model of `run_edit_attack` (lines 199–206). -/
def runEditAttack (logs : List U64) (idx : ℕ) : List U64 :=
  if logs.isEmpty then logs
  else
    let i := min idx (logs.length - 1)
    logs.set i (logs.getD i 0 ^^^ 1#64)

/-- Model of `run_reorder_attack` (lines 208–217). -/
def runReorderAttack (logs : List U64) : List U64 × (ℕ × ℕ) :=
  if 2 ≤ logs.length then (swapEnds logs, (0, logs.length - 1)) else (logs, (0, 0))

/-! ## Prefix states -/

/-- The weights of the program. -/
def weightOf (ks : KSentry) (i : ℕ) : ZMod ks.p.toNat := (ks.q.toNat : ZMod ks.p.toNat) ^ tri i

section

variable {ks : KSentry} {logs l1 l2 : List U64}

theorem weightForIndex_rep (hp : 1 < ks.p.toNat) {i : ℕ} (hi : i < 2 ^ 32) :
    Returns (weightForIndex ks i) fun w => Rep ks.p.toNat w (weightOf ks i) :=
  KSentry.weightForIndex_rep hp (triangularExponent_index hi)

theorem termAt_rep (hp : 1 < ks.p.toNat) (value : U64) {idx : ℕ} (hidx : idx < 2 ^ 32) :
    Returns (termAt ks value idx) fun t =>
      Rep ks.p.toNat t ((value.toNat : ZMod ks.p.toNat) * weightOf ks idx) := by
  have hpos : 0 < ks.p.toNat := by omega
  refine (checkedRem_rep hpos).bind fun li hli => ?_
  refine (weightForIndex_rep hp hidx).bind fun w hw => ?_
  refine (mulModU64_rep hpos li w).mono fun t ht => ht.congr ?_
  rw [hli.cast, hw.cast]

theorem stateForLogs_sumAt (hp : 1 < ks.p.toNat) (hn : logs.length < 2 ^ 32) :
    Returns (stateForLogs ks logs) fun d => Rep ks.p.toNat d (sumAt (weightOf ks) 0 logs) := by
  refine (stateForLogs_rep ks hp logs hn).mono fun d hd => hd.congr ?_
  simp only [sumAt, weightOf, Nat.zero_add]

/-- The entry `k` is the state after `k + 1` entries of the log. -/
theorem prefixStates_rep (hp : 1 < ks.p.toNat) (hn : logs.length < 2 ^ 32) :
    Returns (prefixStates ks logs) fun states => states.length = logs.length ∧
      ∀ k s, states[k]? = some s →
        Rep ks.p.toNat s (sumAt (weightOf ks) 0 (logs.take (k + 1))) := by
  have h := KSentry.prefixStates_rep hp logs tri
    fun i hi => triangularExponent_index (show i < 2 ^ 32 by omega)
  refine h.mono fun states hstates => ⟨hstates.1, fun k s hs => (hstates.2 k s hs).congr ?_⟩
  simp only [KSentry.sumOf, sumAt, weightOf, Nat.zero_add]

/-! ## Scans over two logs -/

theorem firstPrefixDivergence_eq (l1 l2 : List U64) :
    firstPrefixDivergence l1 l2 = .ok ((List.range (min l1.length l2.length)).find? fun i =>
      decide (Mismatch l1 l2 i)) := by
  have his : ∀ i ∈ List.range (min l1.length l2.length), i < min l1.length l2.length :=
    fun i hi => List.mem_range.mp hi
  have hscan := scan_eq_ok his fun i _ _ => i
  rw [Option.map_id'] at hscan
  exact hscan

/-- Prefixes that agree before their last position differ exactly when that position
    does. -/
theorem sumAt_take_succ_eq_iff (hprime : ks.p.toNat.Prime) (hq : ks.q.toNat % ks.p.toNat ≠ 0)
    {k : ℕ} (hk : k < min l1.length l2.length)
    (h : ∀ j < k, ¬ DiffersAt ks.p.toNat l1 l2 j) :
    sumAt (weightOf ks) 0 (l1.take (k + 1)) = sumAt (weightOf ks) 0 (l2.take (k + 1)) ↔
      ¬ DiffersAt ks.p.toNat l1 l2 k := by
  have : Fact ks.p.toNat.Prime := ⟨hprime⟩
  have hlen1 : (l1.take (k + 1)).length = k + 1 := List.length_take_of_le (by omega)
  have hlen2 : (l2.take (k + 1)).length = k + 1 := List.length_take_of_le (by omega)
  have honly : ∀ j, DiffersAt ks.p.toNat (l1.take (k + 1)) (l2.take (k + 1)) j → j = k := by
    intro j hj
    obtain ⟨hle, hd⟩ := differsAt_take_iff.mp hj
    by_contra hne
    exact h j (by omega) hd
  rw [sumAt_eq_iff_of_single (weightOf ks) hprime (hlen1.trans hlen2.symm) (by omega)
    (pow_ne_zero _ (natCast_ne_zero_iff_mod.mpr hq)) honly, differsAt_take_iff,
    and_iff_right (Nat.lt_succ_self k)]

/-- What the scan over the prefix states finds. -/
theorem find?_prefixStates (hprime : ks.p.toNat.Prime) (hq : ks.q.toNat % ks.p.toNat ≠ 0)
    {p1 p2 : List U64} (hlen1 : p1.length = l1.length) (hlen2 : p2.length = l2.length)
    (h1 : ∀ k s, p1[k]? = some s → Rep ks.p.toNat s (sumAt (weightOf ks) 0 (l1.take (k + 1))))
    (h2 : ∀ k s, p2[k]? = some s → Rep ks.p.toNat s (sumAt (weightOf ks) 0 (l2.take (k + 1))))
    (i : ℕ) :
    (List.range (min p1.length p2.length)).find? (fun i => decide (Mismatch p1 p2 i)) = some i ↔
      IsFirst (DiffersAt ks.p.toNat l1 l2) (min l1.length l2.length) i := by
  have hmismatch : ∀ k < min l1.length l2.length, (∀ j < k, ¬ DiffersAt ks.p.toNat l1 l2 j) →
      (Mismatch p1 p2 k ↔ DiffersAt ks.p.toNat l1 l2 k) := by
    intro k hk hbefore
    have hk1 : k < p1.length := by omega
    have hk2 : k < p2.length := by omega
    have hr1 := h1 k _ (List.getElem?_eq_getElem hk1)
    have hr2 := h2 k _ (List.getElem?_eq_getElem hk2)
    rw [Mismatch, List.getD_eq_getElem _ _ hk1, List.getD_eq_getElem _ _ hk2, Ne, hr1.eq_iff hr2,
      sumAt_take_succ_eq_iff hprime hq hk hbefore, not_not]
  rw [hlen1, hlen2, ← isFirst_iff_of_before hmismatch]
  exact find?_range_eq_some_iff

/-- The two scans of prefix states, one after the other. -/
theorem firstPrefixDivergence_returns (hprime : ks.p.toNat.Prime)
    (hq : ks.q.toNat % ks.p.toNat ≠ 0) (h1 : l1.length < 2 ^ 32) (h2 : l2.length < 2 ^ 32) :
    ∃ p1 p2 d, prefixStates ks l1 = .ok p1 ∧ prefixStates ks l2 = .ok p2 ∧
      firstPrefixDivergence p1 p2 = .ok d ∧
      ∀ i, d = some i ↔ IsFirst (DiffersAt ks.p.toNat l1 l2) (min l1.length l2.length) i := by
  obtain ⟨p1, hp1, hlen1, hrep1⟩ := prefixStates_rep hprime.one_lt h1
  obtain ⟨p2, hp2, hlen2, hrep2⟩ := prefixStates_rep hprime.one_lt h2
  exact ⟨p1, p2, _, hp1, hp2, firstPrefixDivergence_eq p1 p2,
    find?_prefixStates hprime hq hlen1 hlen2 hrep1 hrep2⟩

/-- What the scan over the logs collects. -/
theorem collect_mismatches (l1 l2 : List U64) :
    ((List.range (min l1.length l2.length)).foldlM (fun indices i => do
      let a ← index l1 i
      let b ← index l2 i
      pure (if a ≠ b then indices ++ [i] else indices)) [] : Exec (List ℕ)) =
      .ok ((List.range (min l1.length l2.length)).filter fun i => decide (Mismatch l1 l2 i)) :=
  collect_eq_ok fun _ hi => List.mem_range.mp hi

/-- Positions up to the end of the longer log. Past the end of the shorter one all
    differ. -/
theorem countP_getElem?_ne (l1 l2 : List U64) :
    (List.range (max l1.length l2.length)).countP (fun i => decide (l1[i]? ≠ l2[i]?)) =
      ((List.range (min l1.length l2.length)).filter fun i =>
        decide (Mismatch l1 l2 i)).length + (max l1.length l2.length - min l1.length l2.length) := by
  have hsplit : List.range (max l1.length l2.length) = List.range (min l1.length l2.length) ++
      List.range' (min l1.length l2.length) (max l1.length l2.length - min l1.length l2.length) := by
    have happend := List.range'_append_1 (s := 0) (m := min l1.length l2.length)
      (n := max l1.length l2.length - min l1.length l2.length)
    rw [Nat.zero_add, Nat.add_sub_cancel' (by omega)] at happend
    rw [List.range_eq_range', List.range_eq_range', happend]
  rw [hsplit, List.countP_append, List.countP_eq_length_filter, List.countP_eq_length.mpr,
    List.length_range']
  · congr 2
    refine List.filter_congr fun i hi => ?_
    rw [List.mem_range] at hi
    have h1 : i < l1.length := by omega
    have h2 : i < l2.length := by omega
    simp [Mismatch, h1, h2]
  · intro i hi
    rw [List.mem_range'_1] at hi
    rcases Nat.le_total l1.length l2.length with hle | hle
    · have h1 : l1.length ≤ i := by omega
      have h2 : i < l2.length := by omega
      simp [h1, h2]
    · have h1 : i < l1.length := by omega
      have h2 : l2.length ≤ i := by omega
      simp [h1, h2]

/-- The collected mismatches and the length difference tell whether the logs are
    equal. -/
theorem eq_iff_no_mismatches (l1 l2 : List U64) :
    l1 = l2 ↔ ((List.range (min l1.length l2.length)).filter fun i =>
      decide (Mismatch l1 l2 i)) = [] ∧ l1.length = l2.length := by
  rw [List.filter_eq_nil_iff]
  constructor
  · rintro rfl
    refine ⟨fun i _ => ?_, rfl⟩
    simp [Mismatch]
  · rintro ⟨h, hlen⟩
    refine (eq_iff_forall_not_mismatch hlen).mpr fun i hi => ?_
    simpa using h i (List.mem_range.mpr (by omega))

end

/-- The mismatches of two logs of any lengths: the flag is off exactly for equal logs,
    the ends are the first and the last common position that differs, and the count is
    the number of positions at which one log has an entry that the other has not. -/
theorem mismatchInfo_exact (l1 l2 : List U64) :
    Returns (mismatchInfo l1 l2) fun info =>
      (info.mismatchExists = false ↔ l1 = l2) ∧
      (∀ i, info.firstIndex = some i ↔ IsFirst (Mismatch l1 l2) (min l1.length l2.length) i) ∧
      (∀ i, info.lastIndex = some i ↔ IsLast (Mismatch l1 l2) (min l1.length l2.length) i) ∧
      info.mismatchCount = (List.range (max l1.length l2.length)).countP fun i =>
        decide (l1[i]? ≠ l2[i]?) := by
  rw [mismatchInfo, collect_mismatches, ok_bind]
  refine Returns.pure ⟨?_, fun i => head?_filter_eq_some_iff, fun i => getLast?_filter_eq_some_iff, ?_⟩
  · rw [eq_iff_no_mismatches, Bool.or_eq_false_iff, bne_eq_false_iff_eq, Bool.not_eq_false',
      List.isEmpty_iff]
  · rw [countP_getElem?_ne, Nat.add_sub_assoc (by omega)]

/-- Over a prime modulus that does not divide the base, the first diverging prefix of
    two logs of any lengths ends at the first common position whose residues differ. In
    particular a truncated log diverges nowhere. -/
theorem firstPrefixDivergence_first {q p : U64} (hprime : p.toNat.Prime)
    (hq : q.toNat % p.toNat ≠ 0) {l1 l2 : List U64} (h1 : l1.length < 2 ^ 32)
    (h2 : l2.length < 2 ^ 32) :
    ∃ ks p1 p2 d, KSentry.new q p = .ok ks ∧ prefixStates ks l1 = .ok p1 ∧
      prefixStates ks l2 = .ok p2 ∧ firstPrefixDivergence p1 p2 = .ok d ∧
      (∀ i, d = some i ↔ IsFirst (DiffersAt p.toNat l1 l2) (min l1.length l2.length) i) ∧
      (l2 = l1.take l2.length → d = none) := by
  obtain ⟨ks, hks, rfl, rfl⟩ := KSentry.exists_new hprime.one_lt (pos_of_mod_ne_zero hq)
  obtain ⟨p1, p2, d, hp1, hp2, hd, hfind⟩ := firstPrefixDivergence_returns hprime hq h1 h2
  refine ⟨ks, p1, p2, d, hks, hp1, hp2, hd, hfind, fun htake => ?_⟩
  by_contra hne
  obtain ⟨i, hi⟩ := Option.ne_none_iff_exists'.mp hne
  have hfirst := (hfind i).mp hi
  have hlt := hfirst.lt
  refine hfirst.holds ?_
  rw [htake, List.getD_eq_getElem?_getD, List.getD_eq_getElem?_getD, List.getElem?_take_of_lt (by omega)]

/-- A truncation of `[102, 2, 7]` after its second entry was changed. -/
theorem firstPrefixDivergence_first_cut :
    ∃ ks p1 p2, KSentry.new 3#64 101#64 = .ok ks ∧ prefixStates ks [102#64, 2#64, 7#64] = .ok p1 ∧
      prefixStates ks [1#64, 3#64] = .ok p2 ∧ firstPrefixDivergence p1 p2 = .ok (some 1) := by
  have hprime : (101#64).toNat.Prime := by norm_num
  obtain ⟨ks, p1, p2, d, hks, hp1, hp2, hd, hfirst, -⟩ :=
    firstPrefixDivergence_first (q := 3#64) hprime (by decide)
      (show [102#64, 2#64, 7#64].length < 2 ^ 32 by decide)
      (show [1#64, 3#64].length < 2 ^ 32 by decide)
  obtain rfl := (hfirst 1).mpr ⟨by decide, by decide, fun j hj => by
    obtain rfl : j = 0 := by omega
    decide⟩
  exact ⟨ks, p1, p2, hks, hp1, hp2, hd⟩

/-! ## The attacks -/

section

variable {ks : KSentry} {logs l1 l2 : List U64}

/-- Flipping the lowest bit changes the residue, whatever the modulus. -/
theorem mod_xor_one_ne {p : ℕ} (hp : 1 < p) (x : U64) :
    (x ^^^ 1#64).toNat % p ≠ x.toNat % p := by
  have hstep : ∀ n : ℕ, (n + 1) % p ≠ n % p := by
    intro n h
    have h1 := Nat.sub_mod_eq_zero_of_mod_eq h
    rw [Nat.add_sub_cancel_left, Nat.mod_eq_of_lt hp] at h1
    exact one_ne_zero h1
  rw [BitVec.toNat_xor]
  show (x.toNat ^^^ 1) % p ≠ _
  rcases Nat.even_or_odd x.toNat with heven | hodd
  · rw [Nat.xor_one_of_even heven]
    exact hstep x.toNat
  · obtain ⟨m, hm⟩ := hodd
    rw [Nat.xor_one_of_odd ⟨m, hm⟩, hm, Nat.add_sub_cancel]
    exact (hstep (2 * m)).symm

/-- A set position is the only one that can differ. -/
theorem getD_set_of_ne {i k : ℕ} (hne : k ≠ i) (logs : List U64) (x : U64) :
    (logs.set i x).getD k 0 = logs.getD k 0 := by
  rw [List.getD_eq_getElem?_getD, List.getD_eq_getElem?_getD, List.getElem?_set_ne hne.symm]

theorem getD_set_self {i : ℕ} (hi : i < logs.length) (x : U64) : (logs.set i x).getD i 0 = x := by
  rw [List.getD_eq_getElem?_getD, List.getElem?_set_self hi, Option.getD_some]

theorem runEditAttack_eq (hlogs : logs ≠ []) (idx : ℕ) :
    runEditAttack logs idx = logs.set (min idx (logs.length - 1))
      (logs.getD (min idx (logs.length - 1)) 0 ^^^ 1#64) := by
  rw [runEditAttack, if_neg (by simpa using hlogs)]

/-- The edited position is the only one at which the residues differ. -/
theorem runEditAttack_differsAt {p : ℕ} (hp : 1 < p) (hlogs : logs ≠ []) (idx : ℕ) :
    logs.length = (runEditAttack logs idx).length ∧
      DiffersAt p logs (runEditAttack logs idx) (min idx (logs.length - 1)) ∧
      ∀ k, DiffersAt p logs (runEditAttack logs idx) k → k = min idx (logs.length - 1) := by
  have hpos : 0 < logs.length := List.length_pos_iff.mpr hlogs
  rw [runEditAttack_eq hlogs]
  refine ⟨List.length_set.symm, ?_, fun k hk => ?_⟩
  · rw [DiffersAt, getD_set_self (by omega)]
    exact (mod_xor_one_ne hp _).symm
  · by_contra hne
    exact hk (by rw [getD_set_of_ne hne])

theorem mismatch_runEditAttack_iff {p : ℕ} (hp : 1 < p) (hlogs : logs ≠ []) (idx k : ℕ) :
    Mismatch logs (runEditAttack logs idx) k ↔ k = min idx (logs.length - 1) := by
  obtain ⟨-, hdiff, -⟩ := runEditAttack_differsAt hp hlogs idx
  constructor
  · intro hk
    by_contra hne
    exact hk (by rw [runEditAttack_eq hlogs, getD_set_of_ne hne])
  · rintro rfl heq
    exact hdiff (by rw [heq])

theorem mismatch_swapEnds_iff (h2 : 2 ≤ logs.length)
    (hends : logs.getD 0 0 ≠ logs.getD (logs.length - 1) 0) (k : ℕ) :
    Mismatch logs (swapEnds logs) k ↔ k = 0 ∨ k = logs.length - 1 := by
  have hex := swapEnds_exchanged h2
  constructor
  · intro hk
    by_contra hne
    rw [not_or] at hne
    exact hk (hex.other k hne.1 hne.2).symm
  · rintro (rfl | rfl)
    · rw [Mismatch, hex.left]
      exact hends
    · rw [Mismatch, hex.right]
      exact hends.symm

/-- The digests are compared as residues. -/
theorem detectChange_iff {p : ℕ} {a b : U64} {z z' : ZMod p} (ha : Rep p a z) (hb : Rep p b z') :
    detectChange a b = true ↔ z ≠ z' := by
  rw [detectChange, bne_iff_ne, Ne, ha.eq_iff hb]

/-- A single position that differs is detected by every digest that weights it. -/
theorem detectChange_of_single {p : ℕ} {weight : ℕ → ZMod p} {a b : U64} {i : ℕ}
    (hprime : p.Prime) (ha : Rep p a (sumAt weight 0 l1)) (hb : Rep p b (sumAt weight 0 l2))
    (hlen : l1.length = l2.length) (hi : i < l1.length) (hweight : weight i ≠ 0)
    (hdiff : DiffersAt p l1 l2 i) (honly : ∀ k, DiffersAt p l1 l2 k → k = i) :
    detectChange a b = true := by
  rw [detectChange_iff ha hb, Ne, sumAt_eq_iff_of_single weight hprime hlen hi hweight honly,
    not_not]
  exact hdiff

/-- Exchanged ends are detected unless they are congruent or have one weight. -/
theorem detectChange_swapEnds_iff {p : ℕ} {weight : ℕ → ZMod p} {a b : U64} (hprime : p.Prime)
    (h2 : 2 ≤ logs.length) (ha : Rep p a (sumAt weight 0 logs))
    (hb : Rep p b (sumAt weight 0 (swapEnds logs))) :
    detectChange a b = true ↔
      (logs.getD 0 0).toNat % p ≠ (logs.getD (logs.length - 1) 0).toNat % p ∧
        weight 0 ≠ weight (logs.length - 1) := by
  rw [detectChange_iff ha hb, Ne, sumAt_exchanged_eq_iff weight hprime (swapEnds_exchanged h2)
    (by omega) (by omega) (by omega), not_or]

/-- The first position and the position `i` have one weight. -/
theorem weightOf_zero_eq_iff (hp : 1 < ks.p.toNat) (i : ℕ) :
    weightOf ks 0 = weightOf ks i ↔ ks.q.toNat ^ tri i % ks.p.toNat = 1 := by
  rw [← natCast_pow_eq_one_iff_mod hp, weightOf, weightOf, tri_zero, pow_zero]
  exact eq_comm

/-- The report on two logs of one length with the mismatches `is`. -/
theorem mismatchInfo_eq {is : List ℕ} (hlen : l1.length = l2.length) (hne : is ≠ [])
    (his : ((List.range l1.length).filter fun k => decide (Mismatch l1 l2 k)) = is) :
    mismatchInfo l1 l2 = .ok
      { mismatchExists := true, firstIndex := is.head?, lastIndex := is.getLast?
        mismatchCount := is.length, mismatchIndices := is } := by
  have hexists : (!is.isEmpty) = true := by simpa using hne
  rw [mismatchInfo, collect_mismatches, ok_bind, ← hlen, Nat.min_self, Nat.max_self, his,
    hexists, Bool.true_or, Nat.add_sub_cancel]
  rfl

theorem filter_range_single {P : ℕ → Prop} [DecidablePred P] {n i : ℕ} (hi : i < n)
    (h : ∀ k, P k ↔ k = i) : ((List.range n).filter fun k => decide (P k)) = [i] := by
  have hcount : (List.range n).count i = 1 := by rw [List.count_range, if_pos hi]
  simp only [h]
  rw [List.filter_eq, hcount, List.replicate_one]

theorem filter_range_ends {P : ℕ → Prop} [DecidablePred P] {n : ℕ} (hn : 2 ≤ n)
    (h : ∀ k, P k ↔ k = 0 ∨ k = n - 1) :
    ((List.range n).filter fun k => decide (P k)) = [0, n - 1] := by
  obtain ⟨m, rfl⟩ := Nat.exists_eq_add_of_le' hn
  have hmiddle : ((List.range m).map Nat.succ).filter
      (fun k => decide (k = 0 ∨ k = m + 2 - 1)) = [] := by
    rw [List.filter_eq_nil_iff]
    intro k hk
    rw [List.mem_map] at hk
    obtain ⟨j, hj, rfl⟩ := hk
    rw [List.mem_range] at hj
    simp
    omega
  simp only [h]
  rw [List.range_succ, List.filter_append, List.range_succ_eq_map, List.filter_cons, hmiddle]
  simp

end

/-- An edited bit is always detected: the digests differ, the mismatches are the edited
    position alone, the prefixes diverge there, and so do the terms. -/
theorem runEditAttack_localized {q p : U64} (hprime : p.toNat.Prime)
    (hq : q.toNat % p.toNat ≠ 0) {logs : List U64} (hlogs : logs ≠ []) (hn : logs.length < 2 ^ 32)
    (idx : ℕ) :
    ∃ ks original tampered p1 p2 t1 t2, KSentry.new q p = .ok ks ∧
      stateForLogs ks logs = .ok original ∧
      stateForLogs ks (runEditAttack logs idx) = .ok tampered ∧
      detectChange original tampered = true ∧
      mismatchInfo logs (runEditAttack logs idx) = .ok
        { mismatchExists := true, firstIndex := some (min idx (logs.length - 1))
          lastIndex := some (min idx (logs.length - 1)), mismatchCount := 1
          mismatchIndices := [min idx (logs.length - 1)] } ∧
      prefixStates ks logs = .ok p1 ∧ prefixStates ks (runEditAttack logs idx) = .ok p2 ∧
      firstPrefixDivergence p1 p2 = .ok (some (min idx (logs.length - 1))) ∧
      termAt ks (logs.getD (min idx (logs.length - 1)) 0) (min idx (logs.length - 1)) = .ok t1 ∧
      termAt ks ((runEditAttack logs idx).getD (min idx (logs.length - 1)) 0)
        (min idx (logs.length - 1)) = .ok t2 ∧ t1 ≠ t2 := by
  obtain ⟨ks, hks, rfl, rfl⟩ := KSentry.exists_new hprime.one_lt (pos_of_mod_ne_zero hq)
  have : Fact ks.p.toNat.Prime := ⟨hprime⟩
  have hpos : 0 < logs.length := List.length_pos_iff.mpr hlogs
  obtain ⟨hlen, hdiff, honly⟩ := runEditAttack_differsAt hprime.one_lt hlogs idx
  have hmismatch := mismatch_runEditAttack_iff hprime.one_lt hlogs idx
  generalize runEditAttack logs idx = edited at *
  obtain ⟨i, hi⟩ : ∃ i, i = min idx (logs.length - 1) := ⟨_, rfl⟩
  have hlt : i < logs.length := by omega
  rw [← hi] at hdiff honly hmismatch ⊢
  have hweight : weightOf ks i ≠ 0 := pow_ne_zero _ (natCast_ne_zero_iff_mod.mpr hq)
  obtain ⟨original, horiginal, hrep1⟩ : Returns (stateForLogs ks logs) _ :=
    stateForLogs_sumAt hprime.one_lt hn
  obtain ⟨tampered, htampered, hrep2⟩ : Returns (stateForLogs ks edited) _ :=
    stateForLogs_sumAt hprime.one_lt (by omega)
  have hn' : edited.length < 2 ^ 32 := by omega
  obtain ⟨p1, p2, d, hp1, hp2, hd, hfirst⟩ := firstPrefixDivergence_returns hprime hq hn hn'
  obtain ⟨t1, ht1, hrept1⟩ := termAt_rep hprime.one_lt (logs.getD i 0) (show i < 2 ^ 32 by omega)
  obtain ⟨t2, ht2, hrept2⟩ := termAt_rep hprime.one_lt (edited.getD i 0) (show i < 2 ^ 32 by omega)
  have hdetected := detectChange_of_single hprime hrep1 hrep2 hlen hlt hweight hdiff honly
  obtain rfl : d = some i := (hfirst i).mpr
    ⟨by omega, hdiff, fun j hj hdj => hj.ne (honly j hdj)⟩
  have hterms : t1 ≠ t2 := by
    rw [Ne, hrept1.eq_iff hrept2, mul_left_inj' hweight, ZMod.natCast_eq_natCast_iff']
    exact hdiff
  exact ⟨ks, original, tampered, p1, p2, t1, t2, hks, horiginal, htampered, hdetected,
    mismatchInfo_eq hlen (by simp) (filter_range_single hlt hmismatch), hp1, hp2, hd, ht1, ht2,
    hterms⟩

/-- `[5, 6, 7]` with its second entry edited. -/
theorem runEditAttack_localized_three :
    ∃ ks original tampered, KSentry.new 3#64 101#64 = .ok ks ∧
      stateForLogs ks [5#64, 6#64, 7#64] = .ok original ∧
      stateForLogs ks [5#64, 7#64, 7#64] = .ok tampered ∧
      detectChange original tampered = true := by
  have hprime : (101#64).toNat.Prime := by norm_num
  obtain ⟨ks, original, tampered, -, -, -, -, hks, horiginal, htampered, hdetected, -⟩ :=
    runEditAttack_localized (q := 3#64) hprime (by decide)
      (show [5#64, 6#64, 7#64] ≠ [] by decide) (by decide) 1
  exact ⟨ks, original, tampered, hks, horiginal, htampered, hdetected⟩

/-- The reordered log when its two ends differ modulo `p`: the mismatches are the two
    ends and the prefixes diverge at once, but the digests differ only when
    `q^(n(n-1)/2)` is not `1`. -/
theorem runReorderAttack_localized {q p : U64} (hprime : p.toNat.Prime)
    (hq : q.toNat % p.toNat ≠ 0) {logs : List U64} (h2 : 2 ≤ logs.length)
    (hn : logs.length < 2 ^ 32)
    (hends : (logs.getD 0 0).toNat % p.toNat ≠ (logs.getD (logs.length - 1) 0).toNat % p.toNat) :
    ∃ ks reordered original changed p1 p2, KSentry.new q p = .ok ks ∧
      runReorderAttack logs = (reordered, (0, logs.length - 1)) ∧
      stateForLogs ks logs = .ok original ∧ stateForLogs ks reordered = .ok changed ∧
      (detectChange original changed = true ↔ q.toNat ^ tri (logs.length - 1) % p.toNat ≠ 1) ∧
      mismatchInfo logs reordered = .ok
        { mismatchExists := true, firstIndex := some 0, lastIndex := some (logs.length - 1)
          mismatchCount := 2, mismatchIndices := [0, logs.length - 1] } ∧
      prefixStates ks logs = .ok p1 ∧ prefixStates ks reordered = .ok p2 ∧
      firstPrefixDivergence p1 p2 = .ok (some 0) := by
  obtain ⟨ks, hks, rfl, rfl⟩ := KSentry.exists_new hprime.one_lt (pos_of_mod_ne_zero hq)
  have hex := swapEnds_exchanged h2
  have hlen := hex.length_eq
  have hmismatch := mismatch_swapEnds_iff h2 fun h => hends (by rw [h])
  obtain ⟨original, horiginal, hrep1⟩ : Returns (stateForLogs ks logs) _ :=
    stateForLogs_sumAt hprime.one_lt hn
  obtain ⟨changed, hchanged, hrep2⟩ : Returns (stateForLogs ks (swapEnds logs)) _ :=
    stateForLogs_sumAt hprime.one_lt (by omega)
  have hn' : (swapEnds logs).length < 2 ^ 32 := by omega
  obtain ⟨p1, p2, d, hp1, hp2, hd, hfirst⟩ := firstPrefixDivergence_returns hprime hq hn hn'
  have hdetected : detectChange original changed = true ↔
      ks.q.toNat ^ tri (logs.length - 1) % ks.p.toNat ≠ 1 := by
    rw [detectChange_swapEnds_iff hprime h2 hrep1 hrep2, (weightOf_zero_eq_iff hprime.one_lt _).ne,
      and_iff_right hends]
  have hzero : DiffersAt ks.p.toNat logs (swapEnds logs) 0 := by
    rw [DiffersAt, hex.left]
    exact hends
  obtain rfl : d = some 0 := (hfirst 0).mpr ⟨by omega, hzero, fun j hj => by omega⟩
  exact ⟨ks, swapEnds logs, original, changed, p1, p2, hks, if_pos h2, horiginal, hchanged,
    hdetected, mismatchInfo_eq hlen (by simp) (filter_range_ends h2 hmismatch), hp1, hp2, hd⟩

/-- `100` has order two modulo `101`, and `tri 3` is even: the exchange of the ends of
    `[5, 6, 7, 8]` goes unseen by the digest. -/
theorem runReorderAttack_localized_order_two :
    ∃ ks p1 p2, KSentry.new 100#64 101#64 = .ok ks ∧
      stateForLogs ks [5#64, 6#64, 7#64, 8#64] = stateForLogs ks [8#64, 6#64, 7#64, 5#64] ∧
      prefixStates ks [5#64, 6#64, 7#64, 8#64] = .ok p1 ∧
      prefixStates ks [8#64, 6#64, 7#64, 5#64] = .ok p2 ∧
      firstPrefixDivergence p1 p2 = .ok (some 0) := by
  have hprime : (101#64).toNat.Prime := by norm_num
  obtain ⟨ks, reordered, original, changed, p1, p2, hks, hreordered, horiginal, hchanged,
      hdetected, -, hp1, hp2, hd⟩ :=
    runReorderAttack_localized (q := 100#64) hprime (by decide)
      (show 2 ≤ [5#64, 6#64, 7#64, 8#64].length by decide) (by decide) (by decide)
  obtain rfl : [8#64, 6#64, 7#64, 5#64] = reordered := congrArg Prod.fst hreordered
  have hunseen : original = changed := by
    have hnot := (not_congr hdetected).mpr (by decide)
    simpa [detectChange] using hnot
  refine ⟨ks, p1, p2, hks, ?_, hp1, hp2, hd⟩
  rw [horiginal, hchanged, hunseen]

end TimeFence.Metrics.Main1
