import TimeFence.Core.Rolling
import TimeFence.Metrics.Main1Attacks

/-!
# The rolling hash of the metrics program

Model of `rolling_hash` (`ksentry-metrics/src/bin/main1.rs`, lines 315–321) and of the
comparison that the program makes with it (lines 640–668). The loop computes
`h · base + x`, so the first entry has the highest power of the base.

* `rollingHash_exact`: the value for a log of any length; nothing overflows.
* `rollingHash_eq_core`: it is the rolling hash of `timefence-core` on the reversed log.
* `baselineComparison`: both methods always detect the edit; a reordering of two
  entries escapes each of them under its own condition on the base.
-/

namespace TimeFence.Metrics.Main1

open TimeFence.Common TimeFence.Algebra
open TimeFence.Metrics.Main (detectChange swapEnds swapEnds_exchanged)

/-! ## Model -/

/-- Model of `rolling_hash` (lines 315–321). -/
def rollingHash (logs : List U64) (base p : U64) : Exec U64 :=
  logs.foldlM (fun h x => do
    let prod ← checkedMul h.widen base.widen
    let sum ← checkedAdd prod x.widen
    let rem ← checkedRem sum p.widen
    pure (U128.truncate rem)) 0#64

/-! ## The value -/

section

variable {logs : List U64} {base p : U64}

/-- The weights for a log of `n` entries. -/
def hornerWeight (base p : U64) (n i : ℕ) : ZMod p.toNat := (base.toNat : ZMod p.toNat) ^ (n - 1 - i)

/-- One iteration, as Horner's rule has it. -/
theorem sumAt_hornerWeight_concat (base p : U64) (logs : List U64) (x : U64) :
    sumAt (hornerWeight base p (logs ++ [x]).length) 0 (logs ++ [x]) =
      sumAt (hornerWeight base p logs.length) 0 logs * base.toNat + x.toNat := by
  have hshift : sumAt (hornerWeight base p (logs ++ [x]).length) 0 logs =
      (base.toNat : ZMod p.toNat) * sumAt (hornerWeight base p logs.length) 0 logs := by
    rw [sumAt, sumAt, ← wsum_mul_left]
    apply wsum_congr
    intro i hi
    rw [length_residues] at hi
    rw [hornerWeight, hornerWeight, List.length_append, List.length_singleton, Nat.zero_add,
      ← pow_succ']
    congr 1
    omega
  rw [sumAt_append, hshift, sumAt_cons, sumAt_nil, hornerWeight, List.length_append,
    List.length_singleton, Nat.zero_add, Nat.add_sub_cancel, Nat.sub_self, pow_zero]
  ring

/-- The loop: a residue times a `u64`, plus a `u64`, fits in a `u128`. -/
theorem rollingHash_rep (hp : 0 < p.toNat) (logs : List U64) (base : U64) :
    Returns (rollingHash logs base p) fun h =>
      Rep p.toNat h (sumAt (hornerWeight base p logs.length) 0 logs) := by
  refine Returns.foldlM (fun pre h =>
    Rep p.toNat h (sumAt (hornerWeight base p pre.length) 0 pre)) ?_ ?_
  · exact (rep_zero hp).congr (sumAt_nil _ _).symm
  · intro pre x post h _ hrep
    have hh := hrep.lt
    have hple := p.isLt
    have hx := x.isLt
    have hprod : h.toNat * base.toNat ≤ (2 ^ 64 - 2) * (2 ^ 64 - 1) :=
      Nat.mul_le_mul (by omega) (by have := base.isLt; omega)
    refine (checkedMul_returns (by rw [U64.toNat_widen, U64.toNat_widen]; omega)).bind
      fun prod hprod' => ?_
    rw [U64.toNat_widen, U64.toNat_widen] at hprod'
    refine (checkedAdd_returns (by rw [hprod', U64.toNat_widen]; omega)).bind fun sum hsum => ?_
    rw [hprod', U64.toNat_widen] at hsum
    refine (checkedRem_returns (by rwa [U64.toNat_widen])).bind fun rem hrem => Returns.pure ?_
    rw [hsum, U64.toNat_widen] at hrem
    have hlt : rem.toNat < 2 ^ 64 := by
      rw [hrem]
      exact (Nat.mod_lt _ hp).trans hple
    have hvalue := rep_of_toNat_eq_mod (x := U128.truncate rem) hp
      (by rw [U128.toNat_truncate hlt, hrem])
    refine hvalue.congr ?_
    rw [sumAt_hornerWeight_concat, ← hrep.cast]
    push_cast
    rfl

end

/-- The rolling hash of every log: the sum of its entries times descending powers of the
    base. A zero modulus panics at the first entry. -/
theorem rollingHash_exact (logs : List U64) (base p : U64) :
    (0 < p.toNat → Returns (rollingHash logs base p) fun h =>
      h.toNat = (∑ i : Fin logs.length,
        (logs.get i).toNat * base.toNat ^ (logs.length - 1 - i)) % p.toNat) ∧
      (p = 0#64 → logs ≠ [] → rollingHash logs base p = .error .remainderByZero) := by
  constructor
  · intro hp
    refine (rollingHash_rep hp logs base).mono fun h hh => ?_
    have hsum := wsum_residues p.toNat (fun i => base.toNat ^ (logs.length - 1 - i)) logs
    refine Rep.toNat_eq_mod (hh.congr (Eq.trans ?_ hsum))
    rw [sumAt]
    apply wsum_congr
    intro i _
    rw [hornerWeight, Nat.zero_add]
    push_cast
    rfl
  · rintro rfl hlogs
    obtain ⟨x, rest, rfl⟩ := List.exists_cons_of_ne_nil hlogs
    have hzero : (U64.widen 0#64).toNat = 0 := rfl
    obtain ⟨prod, hprod, hvalue⟩ := checkedMul_returns (a := U64.widen 0#64) (b := base.widen)
      (by rw [hzero, Nat.zero_mul]; norm_num)
    obtain ⟨sum, hsum, -⟩ := checkedAdd_returns (a := prod) (b := x.widen)
      (by rw [hvalue, hzero, Nat.zero_mul, Nat.zero_add]; exact x.widen.isLt)
    have hrem : checkedRem sum (U64.widen 0#64) = .error .remainderByZero := if_pos rfl
    rw [rollingHash, List.foldlM_cons, hprod, ok_bind, hsum, ok_bind, hrem, error_bind, error_bind]

/-- `[5, 6, 7]` in base `3` modulo `101`. -/
theorem rollingHash_exact_three :
    ∃ h, rollingHash [5#64, 6#64, 7#64] 3#64 101#64 = .ok h ∧ h.toNat = (5 * 9 + 6 * 3 + 7) % 101 := by
  obtain ⟨h, hh, hvalue⟩ :=
    (rollingHash_exact [5#64, 6#64, 7#64] 3#64 101#64).1 (show 0 < (101#64).toNat by decide)
  refine ⟨h, hh, ?_⟩
  rw [hvalue]
  decide

/-- The rolling hash of `timefence-core` on the log from its end. -/
theorem rollingHash_eq_core {base p : U64} (hp : 1 < p.toNat) (hbase : 0 < base.toNat)
    {logs : List U64} (hn : logs.length < 2 ^ 64) :
    ∃ h st, rollingHash logs base p = .ok h ∧
      Core.rollingHash (logs.reverse.map U64.widen) base.widen p.widen = .ok st ∧
      st.digest = h.widen := by
  have hple := p.isLt
  have hmodulus : Core.ModulusOk p.widen :=
    ⟨by rwa [U64.toNat_widen], by rw [U64.toNat_widen]; omega⟩
  obtain ⟨h, hh, hrep⟩ := rollingHash_rep (show 0 < p.toNat by omega) logs base
  have hbase' : 0 < base.widen.toNat := by rwa [U64.toNat_widen]
  have hn' : (logs.reverse.map U64.widen).length < 2 ^ 64 := by
    rwa [List.length_map, List.length_reverse]
  obtain ⟨st, hst, hrefines⟩ := Core.rollingHash_refines hmodulus hbase' hn'
  refine ⟨h, st, hh, hst, ?_⟩
  have hacc := hrefines.acc_rep
  have hresidues : residues p.toNat (logs.reverse.map U64.widen) = (residues p.toNat logs).reverse := by
    rw [residues, residues, List.map_map, List.map_reverse]
    exact congrArg List.reverse (List.map_congr_left fun x _ => by
      rw [Function.comp, U64.toNat_widen])
  unfold Core.rollingDigestOf at hacc
  rw [U64.toNat_widen, U64.toNat_widen] at hacc
  apply BitVec.eq_of_toNat_eq
  show st.acc.toNat = h.widen.toNat
  rw [U64.toNat_widen, hacc.toNat_eq_iff hrep, hresidues, wsum_reverse, sumAt, length_residues]
  simp only [hornerWeight, Nat.zero_add]

/-- `[5, 6, 7]` against `[7, 6, 5]` in the other crate. -/
theorem rollingHash_eq_core_three :
    ∃ h st, rollingHash [5#64, 6#64, 7#64] 3#64 101#64 = .ok h ∧
      Core.rollingHash [7#128, 6#128, 5#128] 3#128 101#128 = .ok st ∧ st.digest = h.widen :=
  rollingHash_eq_core (show 1 < (101#64).toNat by decide) (show 0 < (3#64).toNat by decide)
    (show [5#64, 6#64, 7#64].length < 2 ^ 64 by decide)

/-! ## The comparison -/

/-- The ends of a log have one weight. -/
theorem hornerWeight_ends_eq_iff {base p : U64} (hp : 1 < p.toNat) (n : ℕ) :
    hornerWeight base p n 0 = hornerWeight base p n (n - 1) ↔
      base.toNat ^ (n - 1) % p.toNat = 1 := by
  rw [hornerWeight, hornerWeight, Nat.sub_zero, Nat.sub_self, pow_zero,
    natCast_pow_eq_one_iff_mod hp]

/-- Both methods detect every edited bit. They detect an exchange of the two ends of the
    log when these differ modulo `p`, unless `q^(n(n-1)/2)` is `1` for K-Sentry and
    `q^(n-1)` for the rolling hash. -/
theorem baselineComparison {q p : U64} (hprime : p.toNat.Prime) (hq : q.toNat % p.toNat ≠ 0)
    {logs : List U64} (h2 : 2 ≤ logs.length) (hn : logs.length < 2 ^ 32) (idx : ℕ) :
    ∃ ks state rh edited editedHash reordered reorderedHash, KSentry.new q p = .ok ks ∧
      stateForLogs ks logs = .ok state ∧ rollingHash logs q p = .ok rh ∧
      stateForLogs ks (runEditAttack logs idx) = .ok edited ∧
      rollingHash (runEditAttack logs idx) q p = .ok editedHash ∧
      stateForLogs ks (runReorderAttack logs).1 = .ok reordered ∧
      rollingHash (runReorderAttack logs).1 q p = .ok reorderedHash ∧
      detectChange state edited = true ∧ detectChange rh editedHash = true ∧
      (detectChange state reordered = true ↔
        (logs.getD 0 0).toNat % p.toNat ≠ (logs.getD (logs.length - 1) 0).toNat % p.toNat ∧
        q.toNat ^ tri (logs.length - 1) % p.toNat ≠ 1) ∧
      (detectChange rh reorderedHash = true ↔
        (logs.getD 0 0).toNat % p.toNat ≠ (logs.getD (logs.length - 1) 0).toNat % p.toNat ∧
        q.toNat ^ (logs.length - 1) % p.toNat ≠ 1) := by
  obtain ⟨ks, hks, rfl, rfl⟩ := KSentry.exists_new hprime.one_lt (pos_of_mod_ne_zero hq)
  have : Fact ks.p.toNat.Prime := ⟨hprime⟩
  have hpos : 0 < ks.p.toNat := hprime.pos
  have hbase : (ks.q.toNat : ZMod ks.p.toNat) ≠ 0 := natCast_ne_zero_iff_mod.mpr hq
  have hlogs : logs ≠ [] := by
    rintro rfl
    simp at h2
  obtain ⟨hlen, hdiff, honly⟩ := runEditAttack_differsAt hprime.one_lt hlogs idx
  have hex := swapEnds_exchanged h2
  have hreordered : (runReorderAttack logs).1 = swapEnds logs := by rw [runReorderAttack, if_pos h2]
  obtain ⟨state, hstate, hrep⟩ : Returns (stateForLogs ks logs) _ :=
    stateForLogs_sumAt hprime.one_lt hn
  obtain ⟨edited, hedited, hrepe⟩ : Returns (stateForLogs ks (runEditAttack logs idx)) _ :=
    stateForLogs_sumAt hprime.one_lt (by omega)
  obtain ⟨reordered, hreord, hrepr⟩ : Returns (stateForLogs ks (swapEnds logs)) _ :=
    stateForLogs_sumAt hprime.one_lt (by have := hex.length_eq; omega)
  obtain ⟨rh, hrh, hhash⟩ := rollingHash_rep hpos logs ks.q
  obtain ⟨editedHash, hehash, hhashe⟩ := rollingHash_rep hpos (runEditAttack logs idx) ks.q
  obtain ⟨reorderedHash, hrhash, hhashr⟩ := rollingHash_rep hpos (swapEnds logs) ks.q
  rw [← hlen] at hhashe
  rw [← hex.length_eq] at hhashr
  rw [hreordered]
  refine ⟨ks, state, rh, edited, editedHash, reordered, reorderedHash, hks, hstate, hrh, hedited,
    hehash, hreord, hrhash, ?_, ?_, ?_, ?_⟩
  · exact detectChange_of_single hprime hrep hrepe hlen (by omega) (pow_ne_zero _ hbase) hdiff honly
  · exact detectChange_of_single hprime hhash hhashe hlen (by omega) (pow_ne_zero _ hbase) hdiff
      honly
  · rw [detectChange_swapEnds_iff hprime h2 hrep hrepr, (weightOf_zero_eq_iff hprime.one_lt _).ne]
  · rw [detectChange_swapEnds_iff hprime h2 hhash hhashr, (hornerWeight_ends_eq_iff hprime.one_lt _).ne]

/-- `100` has order two modulo `101`: the rolling hash misses the reordering of
    `[5, 6, 7]`, and K-Sentry detects it. -/
theorem baselineComparison_order_two :
    ∃ ks state rh reordered reorderedHash, KSentry.new 100#64 101#64 = .ok ks ∧
      stateForLogs ks [5#64, 6#64, 7#64] = .ok state ∧
      rollingHash [5#64, 6#64, 7#64] 100#64 101#64 = .ok rh ∧
      stateForLogs ks [7#64, 6#64, 5#64] = .ok reordered ∧
      rollingHash [7#64, 6#64, 5#64] 100#64 101#64 = .ok reorderedHash ∧
      detectChange state reordered = true ∧ detectChange rh reorderedHash = false := by
  have hprime : (101#64).toNat.Prime := by norm_num
  obtain ⟨ks, state, rh, edited, editedHash, reordered, reorderedHash, hks, hstate, hrh, -, -,
      hreordered, hhash, -, -, hdetected, hunseen⟩ :=
    baselineComparison (q := 100#64) hprime (by decide)
      (show 2 ≤ [5#64, 6#64, 7#64].length by decide) (by decide) 0
  refine ⟨ks, state, rh, reordered, reorderedHash, hks, hstate, hrh, hreordered, hhash,
    hdetected.mpr (by decide), ?_⟩
  rw [← Bool.not_eq_true, hunseen]
  decide

end TimeFence.Metrics.Main1
