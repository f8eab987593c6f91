import TimeFence.Algebra.CompositeRoots
import TimeFence.Algebra.SparseRoots
import TimeFence.Common.Difference
import TimeFence.Verus.Spec

/-!
# The root-count axiom of the verified artifact

Model of section 14 of `proofs/finaltest_timefence_core_verified.rs` (lines
1314–1731): the number of bases `q < p` under which two traces collide, the same
number as a root count of the difference polynomial, and the bound `n(n-1)/2`
that `lemma_nonzero_poly_has_few_roots` states for both without a proof.

The comment on that lemma speaks of roots over a field, but its precondition
asks neither for a prime modulus nor for traces that differ modulo `p`.

* `badQCount_eq_diffPolyRootCount`: the two counts agree.
* `not_nonzeroPolyHasFewRoots`: as written the statement is false at every
  modulus.
* `badQCount_bound`: when the bound does hold.
* `badQCount_linear`, `badQCount_single`: the count itself, over any modulus, for
  traces that differ in the first two entries only or in one entry only.
-/

namespace TimeFence.Verus

open TimeFence.Common TimeFence.Algebra

/-! ## Model -/

/-- Model of `square_degree_bound` (lines 1318–1320). -/
def squareDegreeBound (n : ℤ) : ℤ := if n ≤ 0 then 0 else (n - 1) * n / 2

/-- Model of `diff_coeff_at` (lines 1322–1333). -/
def diffCoeffAt (w w2 : List U64) (i : ℤ) : ℤ :=
  if 0 ≤ i ∧ i < w.length ∧ i < w2.length then
    (w.getD i.toNat 0).toNat - (w2.getD i.toNat 0).toNat
  else 0

/-- Model of `exists_nonzero_diff_coeff` (lines 1335–1344). -/
def ExistsNonzeroDiffCoeff (w w2 : List U64) : Prop :=
  ∃ i : ℤ, (0 ≤ i ∧ i < w.length) ∧ i < w2.length ∧ diffCoeffAt w w2 i ≠ 0

/-- Model of `diff_poly_eval_mod` (lines 1348–1360). -/
def diffPolyEvalMod (w w2 : List U64) (q p : ℤ) : ℤ :=
  if w.length ≠ w2.length ∨ p ≤ 1 then 0 else (ramanujanSpec w q p - ramanujanSpec w2 q p) % p

/-- Model of `bad_q_for_traces` (lines 1362–1371). -/
def BadQForTraces (w w2 : List U64) (q p : ℤ) : Prop :=
  (0 ≤ q ∧ q < p) ∧ ramanujanSpec w q p = ramanujanSpec w2 q p

instance (w w2 : List U64) (q p : ℤ) : Decidable (BadQForTraces w w2 q p) :=
  inferInstanceAs (Decidable (_ ∧ _))

/-- Model of `root_q_for_diff_poly` (lines 1373–1382). -/
def RootQForDiffPoly (w w2 : List U64) (q p : ℤ) : Prop :=
  (0 ≤ q ∧ q < p) ∧ diffPolyEvalMod w w2 q p = 0

instance (w w2 : List U64) (q p : ℤ) : Decidable (RootQForDiffPoly w w2 q p) :=
  inferInstanceAs (Decidable (_ ∧ _))

/-- The recursion shared by `count_bad_q_up_to` and `count_root_q_up_to`. -/
def countUpTo (pred : ℤ → Prop) [DecidablePred pred] (p k : ℤ) : ℤ :=
  if k ≤ 0 ∨ p ≤ 0 then 0
  else countUpTo pred p (k - 1) + if pred (k - 1) then 1 else 0
termination_by k.toNat

/-- Model of `count_bad_q_up_to` (lines 1384–1398). -/
def countBadQUpTo (w w2 : List U64) (p k : ℤ) : ℤ := countUpTo (BadQForTraces w w2 · p) p k

/-- Model of `bad_q_count` (lines 1400–1411). -/
def badQCount (w w2 : List U64) (p : ℤ) : ℤ := if p ≤ 0 then 0 else countBadQUpTo w w2 p p

/-- Model of `count_root_q_up_to` (lines 1413–1427). -/
def countRootQUpTo (w w2 : List U64) (p k : ℤ) : ℤ := countUpTo (RootQForDiffPoly w w2 · p) p k

/-- Model of `diff_poly_root_count` (lines 1429–1440). -/
def diffPolyRootCount (w w2 : List U64) (p : ℤ) : ℤ := if p ≤ 0 then 0 else countRootQUpTo w w2 p p

/-- The statement of `lemma_nonzero_poly_has_few_roots` (lines 1695–1708) at the
    modulus `p`. -/
def NonzeroPolyHasFewRoots (p : U64) : Prop :=
  ∀ w w2 : List U64, 1 < p.toNat → w.length = w2.length → ExistsNonzeroDiffCoeff w w2 →
    diffPolyRootCount w w2 p.toNat ≤ squareDegreeBound w.length

/-! ## The counts -/

theorem squareDegreeBound_natCast (n : ℕ) : squareDegreeBound n = tri (n - 1) := by
  unfold squareDegreeBound
  rcases n with _ | n
  · simp
  · rw [if_neg (by omega), Nat.add_sub_cancel, tri]
    push_cast
    rw [add_sub_cancel_right]

theorem countUpTo_natCast (pred : ℤ → Prop) [DecidablePred pred] {p : ℤ} (hp : 0 < p) (k : ℕ) :
    countUpTo pred p k = ({q ∈ Finset.range k | pred q} : Finset ℕ).card := by
  induction k with
  | zero => rw [countUpTo, if_pos (by simp)]; simp
  | succ k ih =>
    have hk : ((k + 1 : ℕ) : ℤ) - 1 = k := by push_cast; ring
    rw [countUpTo, if_neg (by omega), hk, ih, Finset.range_add_one, Finset.filter_insert]
    split_ifs <;> simp

section

variable {p : ℕ} {w w2 : List U64}

/-- The bases that collide, counted as a set. -/
theorem badQCount_natCast (hp : 0 < p) (w w2 : List U64) :
    badQCount w w2 p = ({q ∈ Finset.range p |
      ramanujanSpec w (q : ℕ) p = ramanujanSpec w2 (q : ℕ) p} : Finset ℕ).card := by
  rw [badQCount, if_neg (by omega), countBadQUpTo, countUpTo_natCast _ (by omega)]
  congr 2
  apply Finset.filter_congr
  intro q hq
  have hlt := Finset.mem_range.mp hq
  simp [BadQForTraces, hlt]

/-- `lemma_collision_iff_diff_poly_zero_mod`: a collision is a root. -/
theorem badQForTraces_iff_root (hp : 1 < p) (hlen : w.length = w2.length) (q : ℤ) :
    BadQForTraces w w2 q p ↔ RootQForDiffPoly w w2 q p := by
  obtain ⟨h0, hlt⟩ := ramanujanSpec_range w q (p := p) (by omega)
  obtain ⟨h0', hlt'⟩ := ramanujanSpec_range w2 q (p := p) (by omega)
  rw [BadQForTraces, RootQForDiffPoly, diffPolyEvalMod, if_neg (by omega),
    ← Int.emod_eq_emod_iff_emod_sub_eq_zero, Int.emod_eq_of_lt h0 hlt, Int.emod_eq_of_lt h0' hlt']

/-- `lemma_bad_q_count_equals_root_count`: the two counts agree. -/
theorem badQCount_eq_diffPolyRootCount (hp : 1 < p) (hlen : w.length = w2.length) :
    badQCount w w2 p = diffPolyRootCount w w2 p := by
  rw [badQCount, diffPolyRootCount, countBadQUpTo, countRootQUpTo]
  simp only [badQForTraces_iff_root hp hlen]

/-! ## Collisions -/

/-- A collision in terms of the integer differences of the traces. -/
theorem ramanujanSpec_eq_iff_dvd (hp : 0 < p) (hlen : w.length = w2.length) (q : ℕ) :
    ramanujanSpec w q p = ramanujanSpec w2 q p ↔
      (p : ℤ) ∣ ∑ i ∈ Finset.range w.length, diffAt w w2 i * (q : ℤ) ^ tri i := by
  obtain ⟨h0, hlt⟩ := ramanujanSpec_range w q (p := p) (by omega)
  obtain ⟨h0', hlt'⟩ := ramanujanSpec_range w2 q (p := p) (by omega)
  have hcast := ZMod.intCast_eq_intCast_iff' (ramanujanSpec w q p) (ramanujanSpec w2 q p) p
  rw [Int.emod_eq_of_lt h0 hlt, Int.emod_eq_of_lt h0' hlt', ramanujanSpec_cast,
    ramanujanSpec_cast] at hcast
  rw [← hcast, ← wsum_residues_eq_iff_dvd p _ hlen]
  push_cast
  rfl

/-- A collision in terms of any set of positions that has all the differing ones. -/
theorem ramanujanSpec_eq_iff_dvd_sum (hp : 0 < p) (hlen : w.length = w2.length) {S : Finset ℕ}
    (hS : ∀ i, DiffersAt p w w2 i → i ∈ S) (q : ℕ) :
    ramanujanSpec w q p = ramanujanSpec w2 q p ↔
      (p : ℤ) ∣ ∑ i ∈ S, diffAt w w2 i * (q : ℤ) ^ tri i := by
  have hsum : ((∑ i ∈ Finset.range w.length, diffAt w w2 i * (q : ℤ) ^ tri i : ℤ) : ZMod p) =
      ((∑ i ∈ S, diffAt w w2 i * (q : ℤ) ^ tri i : ℤ) : ZMod p) := by
    push_cast
    apply Finset.sum_congr_of_eq_on_inter
    · intro i _ hi
      rw [(diffAt_cast_eq_zero_iff p w w2 i).mpr fun hd => hi (hS i hd), zero_mul]
    · intro i _ hi
      have hout : ¬ DiffersAt p w w2 i := fun hd => hi (Finset.mem_range.mpr (hd.lt_length hlen))
      rw [(diffAt_cast_eq_zero_iff p w w2 i).mpr hout, zero_mul]
    · intro i _ _
      rfl
  rw [ramanujanSpec_eq_iff_dvd hp hlen, ← ZMod.intCast_zmod_eq_zero_iff_dvd, hsum,
    ZMod.intCast_zmod_eq_zero_iff_dvd]

theorem badQCount_le_modulus (hp : 0 < p) : badQCount w w2 p ≤ p := by
  rw [badQCount_natCast hp]
  exact_mod_cast (Finset.card_filter_le _ _).trans (Finset.card_range p).le

/-- Traces with equal residues collide under every base. -/
theorem badQCount_of_forall_not_differsAt (hp : 0 < p) (hlen : w.length = w2.length)
    (h : ∀ i, ¬ DiffersAt p w w2 i) : badQCount w w2 p = p := by
  have hall : ∀ q ∈ Finset.range p, ramanujanSpec w (q : ℕ) p = ramanujanSpec w2 (q : ℕ) p := by
    intro q _
    rw [ramanujanSpec_eq_iff_dvd hp hlen]
    apply Finset.dvd_sum
    intro i _
    apply Dvd.dvd.mul_right
    rw [← ZMod.intCast_zmod_eq_zero_iff_dvd]
    exact (diffAt_cast_eq_zero_iff p w w2 i).mpr (h i)
  rw [badQCount_natCast hp, Finset.filter_true_of_mem hall, Finset.card_range]

/-- The axiom as it is written is false at every modulus: `[0]` and `[p]` differ
    in a coefficient, but not modulo `p`. -/
theorem not_nonzeroPolyHasFewRoots (p : U64) (hp : 1 < p.toNat) : ¬ NonzeroPolyHasFewRoots p := by
  intro h
  have hnone : ∀ i, ¬ DiffersAt p.toNat [0#64] [p] i := by
    intro i
    rcases i with _ | i <;> simp [DiffersAt]
  have hcoeff : ExistsNonzeroDiffCoeff [0#64] [p] := by
    refine ⟨0, by simp, by simp, ?_⟩
    simp [diffCoeffAt]
    omega
  have hle := h [0#64] [p] hp rfl hcoeff
  have hcount : badQCount [0#64] [p] p.toNat = diffPolyRootCount [0#64] [p] p.toNat :=
    badQCount_eq_diffPolyRootCount hp rfl
  have hfull : badQCount [0#64] [p] p.toNat = p.toNat :=
    badQCount_of_forall_not_differsAt (by omega) rfl hnone
  rw [← hcount, hfull, squareDegreeBound_natCast] at hle
  simp at hle
  omega

/-! ## The bound -/

/-- Over a prime modulus, a difference in some residue makes the difference
    polynomial nonzero. -/
theorem badQCount_le_of_prime (hp : p.Prime) (hlen : w.length = w2.length) {s : ℕ}
    (hs : DiffersAt p w w2 s) : badQCount w w2 p ≤ squareDegreeBound w.length := by
  have : Fact p.Prime := ⟨hp⟩
  have hlt := hs.lt_length hlen
  have hroots := card_roots_le (F := ZMod p) (d := fun i => (diffAt w w2 i : ZMod p))
    tri_strictMono hlt (fun h => (diffAt_cast_eq_zero_iff p w w2 s).mp h hs) (t := w.length - 1)
    (fun i hi hin => by omega) Finset.univ
  rw [badQCount_natCast hp.pos, squareDegreeBound_natCast, Nat.cast_le]
  refine (card_le_card_of_cast_mem ?_ ?_).trans hroots
  · intro q hq
    exact Finset.mem_range.mp (Finset.mem_filter.mp hq).1
  · intro q hq
    have hdvd := (ramanujanSpec_eq_iff_dvd hp.pos hlen q).mp (Finset.mem_filter.mp hq).2
    rw [← ZMod.intCast_zmod_eq_zero_iff_dvd] at hdvd
    push_cast at hdvd
    exact Finset.mem_filter.mpr ⟨Finset.mem_univ _, hdvd⟩

/-- A single log entry that differs modulo `p` never collides. -/
theorem badQCount_le_of_length_le_one (hp : 0 < p) (hlen : w.length = w2.length)
    (h1 : w.length ≤ 1) {s : ℕ} (hs : DiffersAt p w w2 s) :
    badQCount w w2 p ≤ squareDegreeBound w.length := by
  have hlt := hs.lt_length hlen
  have hone : w.length = 1 := by omega
  have hs0 : s = 0 := by omega
  subst hs0
  have hnone : ∀ q ∈ Finset.range p, ¬ ramanujanSpec w (q : ℕ) p = ramanujanSpec w2 (q : ℕ) p := by
    intro q _ hq
    rw [ramanujanSpec_eq_iff_dvd hp hlen, hone, Finset.sum_range_one, tri_zero, pow_zero, mul_one,
      ← ZMod.intCast_zmod_eq_zero_iff_dvd, diffAt_cast_eq_zero_iff] at hq
    exact hq hs
  rw [badQCount_natCast hp, Finset.filter_false_of_mem hnone, squareDegreeBound_natCast, hone]
  simp

/-- The count for traces that differ in the first two entries only. -/
theorem badQCount_linear (hp : 0 < p) (hlen : w.length = w2.length)
    (h : ∀ i, 2 ≤ i → ¬ DiffersAt p w w2 i) :
    badQCount w w2 p = (if (Int.gcd (diffAt w w2 1) p : ℤ) ∣ diffAt w w2 0
      then Int.gcd (diffAt w w2 1) p else 0 : ℕ) := by
  have hS : ∀ i, DiffersAt p w w2 i → i ∈ Finset.range 2 := by
    intro i hi
    by_contra hout
    rw [Finset.mem_range, not_lt] at hout
    exact h i hout hi
  have hiff : ∀ q : ℕ, ramanujanSpec w q p = ramanujanSpec w2 q p ↔
      (p : ℤ) ∣ diffAt w w2 0 + diffAt w w2 1 * q := by
    intro q
    rw [ramanujanSpec_eq_iff_dvd_sum hp hlen hS, Finset.sum_range_succ, Finset.sum_range_one,
      tri_zero, pow_zero, mul_one, show tri 1 = 1 from rfl, pow_one]
  rw [badQCount_natCast hp]
  simp only [hiff]
  rw [card_linear_roots hp]

/-- The count for traces that differ in one entry behind the first only. -/
theorem badQCount_single (hp : 0 < p) (hlen : w.length = w2.length) {j : ℕ} (hj : 1 ≤ j)
    (h : ∀ i, DiffersAt p w w2 i → i = j) :
    badQCount w w2 p = (p / Nat.ceilRoot (tri j) (p / Int.gcd (diffAt w w2 j) p) : ℕ) := by
  have hS : ∀ i, DiffersAt p w w2 i → i ∈ ({j} : Finset ℕ) := by
    intro i hi
    exact Finset.mem_singleton.mpr (h i hi)
  have htri : tri j ≠ 0 := by
    have hpos : tri 0 < tri j := tri_strictMono hj
    omega
  rw [badQCount_natCast hp]
  simp only [ramanujanSpec_eq_iff_dvd_sum hp hlen hS, Finset.sum_singleton]
  rw [card_monomial_roots hp htri]

/-- The trace with the entries `f 0, …, f (n - 1)`. -/
def traceOf (n : ℕ) (f : ℕ → ℕ) : List U64 := (List.range n).map fun i => BitVec.ofNat 64 (f i)

@[simp] theorem length_traceOf (n : ℕ) (f : ℕ → ℕ) : (traceOf n f).length = n := by
  simp [traceOf]

theorem traceOf_getD {n i : ℕ} {f : ℕ → ℕ} (hi : i < n) (hf : f i < 2 ^ 64) :
    ((traceOf n f).getD i 0).toNat = f i := by
  rw [traceOf, List.getD_eq_getElem?_getD, List.getElem?_map, List.getElem?_range hi]
  exact toNat_ofNat_index hf

theorem diffAt_traceOf_zero {n i : ℕ} {f : ℕ → ℕ} (hi : i < n) (hf : f i < 2 ^ 64) :
    diffAt (traceOf n f) (traceOf n fun _ => 0) i = f i := by
  rw [diffAt, traceOf_getD hi hf, traceOf_getD hi (by norm_num)]
  simp

/-- A trace has the digest of the trace of zeros exactly at the bases where its
    weighted sum vanishes modulo `p`. -/
theorem ramanujanSpec_traceOf_eq_zero_iff (hp : 0 < p) {n : ℕ} {f : ℕ → ℕ}
    (hf : ∀ i, f i < 2 ^ 64) (q : ℕ) :
    ramanujanSpec (traceOf n f) q p = ramanujanSpec (traceOf n fun _ => 0) q p ↔
      p ∣ ∑ i ∈ Finset.range n, f i * q ^ tri i := by
  have hsum : ∑ i ∈ Finset.range n,
      diffAt (traceOf n f) (traceOf n fun _ => 0) i * (q : ℤ) ^ tri i =
        ((∑ i ∈ Finset.range n, f i * q ^ tri i : ℕ) : ℤ) := by
    push_cast
    apply Finset.sum_congr rfl
    intro i hi
    rw [diffAt_traceOf_zero (Finset.mem_range.mp hi) (hf i)]
  rw [ramanujanSpec_eq_iff_dvd hp (by simp), length_traceOf, hsum, Int.natCast_dvd_natCast]

/-- The cofactor of the least prime factor of a composite number is no smaller. -/
theorem minFac_le_of_eq_mul {m : ℕ} (hp : 1 < p) (hcomp : ¬ p.Prime) (hm : p = p.minFac * m) :
    p.minFac ≤ m := by
  have hsq := Nat.minFac_sq_le_self (by omega) hcomp
  rw [pow_two] at hsq
  conv_rhs at hsq => rw [hm]
  exact Nat.le_of_mul_le_mul_left hsq (Nat.minFac_pos p)

/-- The bound is smaller than the number of roots that `exists_many_roots` gives
    for a modulus `r · m`. -/
theorem tri_pred_lt_mul {n r m : ℕ} (hn : 2 ≤ n) (hr : 2 ≤ r) (hrm : r ≤ m)
    (h : tri (n - 1) < r * m) : tri (n - 1) < min (n - 1) r * m := by
  rcases le_or_gt (n - 1) r with hle | hlt
  · rw [min_eq_left hle]
    have htri := two_mul_tri (n - 1)
    have hlt : (n - 1) * (n - 1 + 1) < (n - 1) * (2 * m) :=
      Nat.mul_lt_mul_of_pos_left (by omega) (by omega)
    have hcomm : (n - 1) * (2 * m) = 2 * ((n - 1) * m) := by ring
    omega
  · rwa [min_eq_right hlt.le]

/-- A composite modulus admits traces of any length from `2` on that differ in
    some residue and collide more often than the bound allows, unless the bound
    exceeds the modulus itself. -/
theorem exists_badQCount_gt (hp : 1 < p) (hp64 : p ≤ 2 ^ 64) (hcomp : ¬ p.Prime) {n : ℕ}
    (hn : 2 ≤ n) (hbound : squareDegreeBound n < p) :
    ∃ w w2 : List U64, w.length = n ∧ w2.length = n ∧ (∃ i, DiffersAt p w w2 i) ∧
      squareDegreeBound n < badQCount w w2 p := by
  -- `p = r · m` for its least prime factor `r`, so that `r ≤ m`.
  have hr : p.minFac.Prime := Nat.minFac_prime (by omega)
  obtain ⟨m, hm⟩ := Nat.minFac_dvd p
  have hrm := minFac_le_of_eq_mul hp hcomp hm
  rw [squareDegreeBound_natCast, Nat.cast_lt] at hbound
  obtain ⟨c, hc, ⟨k, hk, hck⟩, hcount⟩ := exists_many_roots (m := m) (n := n)
    (t := min (n - 1) p.minFac) hr (by omega) (min_le_right _ _) tri
  rw [← hm] at hcount
  -- The entries `m · c i` are below the modulus.
  have hlt : ∀ i, m * c i < p := by
    intro i
    rw [hm, mul_comm p.minFac]
    exact Nat.mul_lt_mul_of_pos_left (hc i) (by have := hr.two_le; omega)
  have h64 : ∀ i, m * c i < 2 ^ 64 := fun i => (hlt i).trans_le hp64
  refine ⟨traceOf n fun i => m * c i, traceOf n fun _ => 0, by simp, by simp, ⟨k, ?_⟩, ?_⟩
  · rw [DiffersAt, traceOf_getD hk (h64 k), traceOf_getD hk (by norm_num),
      Nat.mod_eq_of_lt (hlt k), Nat.zero_mod]
    have := hr.two_le
    exact Nat.mul_ne_zero (by omega) hck
  · have hroots : ∀ q ∈ Finset.range p, p ∣ ∑ i ∈ Finset.range n, m * c i * q ^ tri i →
        ramanujanSpec (traceOf n fun i => m * c i) (q : ℕ) p =
          ramanujanSpec (traceOf n fun _ => 0) (q : ℕ) p := by
      intro q _ hdvd
      exact (ramanujanSpec_traceOf_eq_zero_iff (by omega) h64 q).mpr hdvd
    rw [badQCount_natCast (by omega), squareDegreeBound_natCast, Nat.cast_lt]
    have htri := tri_pred_lt_mul hn hr.two_le hrm (by rwa [← hm])
    exact (htri.trans_le hcount).trans_le
      (Finset.card_le_card (Finset.monotone_filter_right _ hroots))

end

/-! ## When the bound holds -/

/-- The moduli and lengths for which a difference in some residue is enough. -/
def BoundGuaranteed (p n : ℕ) : Prop := p.Prime ∨ n ≤ 1 ∨ (p : ℤ) ≤ squareDegreeBound n

/-- When the root-count bound holds. For a prime modulus, for traces of length
    one, and where the bound is at least the modulus, it holds exactly for the
    traces that differ in some residue, or whose bound is at least the modulus.
    For any other modulus and length a difference in some residue is not
    enough. Over any modulus the condition is explicit for traces that differ in
    the first two entries only, and for traces that differ in one entry only. -/
theorem badQCount_bound (p : U64) (hp : 1 < p.toNat) (n : ℕ) :
    (∀ w w2 : List U64, w.length = n → w2.length = n →
      badQCount w w2 p.toNat = diffPolyRootCount w w2 p.toNat) ∧
    (BoundGuaranteed p.toNat n → ∀ w w2 : List U64, w.length = n → w2.length = n →
      (badQCount w w2 p.toNat ≤ squareDegreeBound n ↔
        (∃ i, DiffersAt p.toNat w w2 i) ∨ (p.toNat : ℤ) ≤ squareDegreeBound n)) ∧
    (¬ BoundGuaranteed p.toNat n → ∃ w w2 : List U64, w.length = n ∧ w2.length = n ∧
      (∃ i, DiffersAt p.toNat w w2 i) ∧ squareDegreeBound n < badQCount w w2 p.toNat) ∧
    (∀ w w2 : List U64, w.length = n → w2.length = n →
      (∀ i, 2 ≤ i → ¬ DiffersAt p.toNat w w2 i) →
      (badQCount w w2 p.toNat ≤ squareDegreeBound n ↔
        ¬ (Int.gcd (diffAt w w2 1) p.toNat : ℤ) ∣ diffAt w w2 0 ∨
          (Int.gcd (diffAt w w2 1) p.toNat : ℤ) ≤ squareDegreeBound n)) ∧
    (∀ w w2 : List U64, w.length = n → w2.length = n → ∀ j, 1 ≤ j →
      (∀ i, DiffersAt p.toNat w w2 i → i = j) →
      (badQCount w w2 p.toNat ≤ squareDegreeBound n ↔
        ((p.toNat / Nat.ceilRoot (tri j) (p.toNat / Int.gcd (diffAt w w2 j) p.toNat) : ℕ) : ℤ) ≤
          squareDegreeBound n)) := by
  have hpos : 0 < p.toNat := by omega
  refine ⟨fun w w2 hw hw2 => badQCount_eq_diffPolyRootCount hp (hw.trans hw2.symm), ?_, ?_, ?_, ?_⟩
  · intro hguar w w2 hw hw2
    have hlen : w.length = w2.length := hw.trans hw2.symm
    subst hw
    constructor
    · intro hle
      by_contra hcon
      rw [not_or, not_exists] at hcon
      rw [badQCount_of_forall_not_differsAt hpos hlen hcon.1] at hle
      exact hcon.2 hle
    · rintro (⟨i, hi⟩ | hle)
      · rcases hguar with hprime | h1 | hle
        · exact badQCount_le_of_prime hprime hlen hi
        · exact badQCount_le_of_length_le_one hpos hlen h1 hi
        · exact (badQCount_le_modulus hpos).trans hle
      · exact (badQCount_le_modulus hpos).trans hle
  · intro hguar
    rw [BoundGuaranteed, not_or, not_or, not_le, not_le] at hguar
    exact exists_badQCount_gt hp p.isLt.le hguar.1 hguar.2.1 hguar.2.2
  · intro w w2 hw hw2 hfar
    have hbound : 0 ≤ squareDegreeBound n := by
      rw [squareDegreeBound_natCast]
      exact Nat.cast_nonneg _
    rw [badQCount_linear hpos (hw.trans hw2.symm) hfar]
    split_ifs with hdvd
    · exact ⟨.inr, fun h => h.resolve_left (not_not.mpr hdvd)⟩
    · exact ⟨fun _ => .inl hdvd, fun _ => hbound⟩
  · intro w w2 hw hw2 j hj hsingle
    rw [badQCount_single hpos (hw.trans hw2.symm) hj hsingle]

/-- Over `p = 101` the traces `[1, 2]` and `[1, 5]` collide under at most one
    base. Over `p = 4` the traces `[0, 2]` and `[0, 0]` collide under two. -/
theorem badQCount_bound_two_entries :
    badQCount [1#64, 2#64] [1#64, 5#64] 101 ≤ 1 ∧ ¬ badQCount [0#64, 2#64] [0#64, 0#64] 4 ≤ 1 := by
  have hprime := (badQCount_bound 101#64 (by decide) 2).2.1 (.inl (by norm_num))
    [1#64, 2#64] [1#64, 5#64] rfl rfl
  have hlen : [0#64, 2#64].length = [0#64, 0#64].length := rfl
  have hnear : ∀ i, 2 ≤ i → ¬ DiffersAt (4#64).toNat [0#64, 2#64] [0#64, 0#64] i := by
    intro i hi hd
    exact absurd (hd.lt_length hlen) (not_lt.mpr hi)
  have hlinear := (badQCount_bound 4#64 (by decide) 2).2.2.2.1 [0#64, 2#64] [0#64, 0#64] rfl hlen
    hnear
  refine ⟨hprime.mpr (.inl ⟨1, by decide⟩), fun hle => ?_⟩
  exact absurd (hlinear.mp hle) (by decide)

/-- Modulo `2` the traces `[0]` and `[2]` collide under both bases, against a
    bound of zero. -/
theorem few_roots_fails_modulo_two :
    [0#64] ≠ [2#64] ∧ [0#64].length = [2#64].length ∧
      ¬ badQCount [0#64] [2#64] 2 ≤ squareDegreeBound [0#64].length := by
  have hcount : badQCount [0#64] [2#64] (2 : ℕ) = (2 : ℕ) :=
    badQCount_of_forall_not_differsAt (by norm_num) rfl fun i => by
      rcases i with _ | i <;> simp [DiffersAt]
  refine ⟨by decide, rfl, ?_⟩
  rw [show (2 : ℤ) = (2 : ℕ) from rfl, hcount]
  simp [squareDegreeBound]

end TimeFence.Verus
