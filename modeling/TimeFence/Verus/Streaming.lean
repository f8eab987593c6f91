import TimeFence.Core.KSentry
import TimeFence.Verus.Spec

/-!
# The streaming state of the artifact

Model of sections 17, 20 and 21 of `proofs/finaltest_timefence_core_verified.rs` (lines
3119–3352 and 3665–3940): the prefix digest, the O(1) transition functions with their
invariant, and the checkpoint of a state. The weight and the step are exact integers
there, not residues.

* `o1StateInv_iff_run`: the invariant holds of the states that a run reaches and of no
  others.
* `ksentryFast_simulates_o1`: `timefence-core` runs the same machine on residues, so its
  checkpoints are correct in the sense of the artifact.
* `ksPrefixSpec_eq_ramanujanSpec`: the two digests that the artifact specifies agree.
-/

namespace TimeFence.Verus

open TimeFence.Common TimeFence.Algebra TimeFence.Core

/-! ## Model -/

/-- Model of `ks_prefix_spec` (lines 3119–3133). -/
def ksPrefixSpec (xs : List ℤ) (q p : ℤ) : ℕ → ℤ
  | 0 => 0
  | n + 1 => (ksPrefixSpec xs q p n + xs.getD n 0 * specPow q (triExp n) % p) % p

/-- The values that `o1_state_inv` and the transition functions pass around. -/
structure O1State where
  acc : ℤ
  weight : ℤ
  step : ℤ
  deriving DecidableEq, Repr

/-- Model of `o1_state_inv` (lines 3135–3153). -/
structure O1StateInv (xs : List ℤ) (q p : ℤ) (n : ℕ) (st : O1State) : Prop where
  pos : 0 < p
  le_length : n ≤ xs.length
  acc_eq : st.acc = ksPrefixSpec xs q p n
  weight_eq : st.weight = specPow q (triExp n)
  step_eq : st.step = specPow q (n + 1)

/-- Model of `o1_next_acc` (lines 3155–3165). -/
def o1NextAcc (acc x weight p : ℤ) : ℤ := (acc + x * weight % p) % p

/-- Model of `o1_next_weight` (lines 3167–3176). -/
def o1NextWeight (weight step _p : ℤ) : ℤ := weight * step

/-- Model of `o1_next_step` (lines 3178–3187). -/
def o1NextStep (step q _p : ℤ) : ℤ := step * q

/-- The transition of `lemma_o1_update_preserves_inv` (lines 3304–3311). -/
def O1State.next (q p : ℤ) (st : O1State) (x : ℤ) : O1State :=
  { acc := o1NextAcc st.acc x st.weight p
    weight := o1NextWeight st.weight st.step p
    step := o1NextStep st.step q p }

/-- The state before the first element. -/
def O1State.init (q : ℤ) : O1State := { acc := 0, weight := 1, step := q }

/-- A whole stream. -/
def O1State.run (q p : ℤ) (xs : List ℤ) : O1State := xs.foldl (O1State.next q p) (.init q)

/-- Model of `ckpt_valid` (lines 3669–3671). -/
def CkptValid (start len e : ℕ) : Prop := e = start + len

/-- Model of `checkpoint_digest_from_state` (lines 3827–3829). -/
def checkpointDigestFromState (acc : ℤ) : ℤ := acc

/-- Model of `checkpoint_position_from_state` (lines 3831–3833). -/
def checkpointPositionFromState (n : ℕ) : ℕ := n

/-- Model of `prefix_checkpoint_correct` (lines 3835–3847). -/
def PrefixCheckpointCorrect (xs : List ℤ) (q p : ℤ) (n : ℕ) (acc : ℤ) : Prop :=
  checkpointDigestFromState acc = ksPrefixSpec xs q p n

/-! ## The invariant -/

section

variable {xs : List ℤ} {q p : ℤ} {n : ℕ}

@[simp] theorem O1State.run_nil : O1State.run q p [] = .init q := rfl

theorem O1State.run_concat (xs : List ℤ) (x : ℤ) :
    O1State.run q p (xs ++ [x]) = (O1State.run q p xs).next q p x := by
  rw [O1State.run, List.foldl_append]
  rfl

theorem specPow_triExp (q : ℤ) (n : ℕ) : specPow q (triExp n) = q ^ tri n := by
  rw [triExp_natCast, specPow_natCast]

theorem specPow_succ (q : ℤ) (n : ℕ) : specPow q (n + 1) = q ^ (n + 1) := by
  rw [← Nat.cast_succ, specPow_natCast]

/-- The state before the first element has the invariant. -/
theorem O1StateInv.init (hp : 0 < p) : O1StateInv xs q p 0 (.init q) where
  pos := hp
  le_length := Nat.zero_le _
  acc_eq := rfl
  weight_eq := by
    rw [specPow_triExp, tri_zero, pow_zero]
    rfl
  step_eq := by
    rw [specPow_succ, zero_add, pow_one]
    rfl

/-- The step lemma: a transition keeps the invariant. -/
theorem O1StateInv.next {st : O1State} (h : O1StateInv xs q p n st) (hn : n < xs.length) :
    O1StateInv xs q p (n + 1) (st.next q p xs[n]) where
  pos := h.pos
  le_length := hn
  acc_eq := by
    show o1NextAcc st.acc xs[n] st.weight p = ksPrefixSpec xs q p (n + 1)
    rw [o1NextAcc, ksPrefixSpec, h.acc_eq, h.weight_eq, List.getD_eq_getElem _ _ hn]
  weight_eq := by
    show o1NextWeight st.weight st.step p = _
    rw [o1NextWeight, h.weight_eq, h.step_eq, specPow_triExp, specPow_triExp, specPow_succ,
      tri_succ, ← pow_add]
  step_eq := by
    show o1NextStep st.step q p = _
    rw [o1NextStep, h.step_eq, specPow_succ, specPow_succ, ← pow_succ]

/-- The run lemma: the invariant holds after every prefix. -/
theorem O1StateInv.run (hp : 0 < p) (hn : n ≤ xs.length) :
    O1StateInv xs q p n (O1State.run q p (xs.take n)) := by
  induction n with
  | zero => exact O1StateInv.init hp
  | succ n ih =>
    rw [List.take_succ_eq_append_getElem (by omega), O1State.run_concat]
    exact (ih (by omega)).next (by omega)

/-- Two states with the invariant are equal. -/
theorem O1StateInv.unique {st st' : O1State} (h : O1StateInv xs q p n st)
    (h' : O1StateInv xs q p n st') : st = st' := by
  obtain ⟨acc, weight, step⟩ := st
  obtain ⟨acc', weight', step'⟩ := st'
  obtain ⟨-, -, rfl, rfl, rfl⟩ := h
  obtain ⟨-, -, rfl, rfl, rfl⟩ := h'
  rfl

end

/-- The invariant that the artifact states of its O(1) state is exact: after `n` elements
    it holds of the state that the transitions reach and of no other. -/
theorem o1StateInv_iff_run (xs : List ℤ) (q : ℤ) {p : ℤ} (hp : 0 < p) {n : ℕ}
    (hn : n ≤ xs.length) (st : O1State) :
    O1StateInv xs q p n st ↔ st = O1State.run q p (xs.take n) := by
  constructor
  · intro h
    exact h.unique (O1StateInv.run hp hn)
  · rintro rfl
    exact O1StateInv.run hp hn

/-- Two of the three elements `4, 5, 6` in base `3` modulo `7`. -/
theorem o1StateInv_iff_run_two : O1StateInv [4, 5, 6] 3 7 2 { acc := 5, weight := 27, step := 27 } :=
  (o1StateInv_iff_run [4, 5, 6] 3 (by norm_num) (by decide) _).mpr (by decide)

/-! ## The two specifications -/

/-- The prefix digest reads the prefix only. -/
theorem ksPrefixSpec_append (xs ys : List ℤ) (q p : ℤ) {n : ℕ} (hn : n ≤ xs.length) :
    ksPrefixSpec (xs ++ ys) q p n = ksPrefixSpec xs q p n := by
  induction n with
  | zero => rfl
  | succ n ih => rw [ksPrefixSpec, ksPrefixSpec, ih (by omega), List.getD_append _ _ _ _ hn]

/-- The prefix digest of a whole log is `ramanujan_spec`. -/
theorem ksPrefixSpec_eq_ramanujanSpec (logs : List U64) (q : ℤ) (p : ℤ) :
    ksPrefixSpec (logs.map fun x => (x.toNat : ℤ)) q p logs.length = ramanujanSpec logs q p := by
  induction logs using List.reverseRecOn with
  | nil => rw [ramanujanSpec_nil, List.length_nil, ksPrefixSpec]
  | append_singleton logs x ih =>
    have hprefix := ksPrefixSpec_append (logs.map fun x => (x.toNat : ℤ)) [(x.toNat : ℤ)] q p
      (n := logs.length) (by simp)
    rw [List.length_append, List.length_singleton, ksPrefixSpec, List.map_append,
      List.map_singleton, hprefix, ih, ramanujanSpec_concat, specPow_triExp]
    have hget : (logs.map (fun x => (x.toNat : ℤ)) ++ [(x.toNat : ℤ)]).getD logs.length 0 =
        x.toNat := by
      rw [List.getD_append_right _ _ _ _ (by simp)]
      simp
    rw [hget]
    -- One of them reduces the product, the other the weight.
    exact ((Int.mod_modEq _ p).add_left _).trans
      (((Int.mod_modEq _ p).symm.mul_left _).add_left _)

/-! ## The shipped updater -/

/-- The registers that a state of the artifact stands for modulo `p`. -/
def O1State.registers (p : ℕ) (st : O1State) : Registers (ZMod p) :=
  { acc := st.acc, weight := st.weight, step := st.step }

theorem O1State.registers_init (p : ℕ) (q : ℤ) :
    (O1State.init q).registers p = .init (q : ZMod p) := by
  simp [O1State.registers, O1State.init, Registers.init]

/-- One transition on residues. -/
theorem O1State.registers_next (p : ℕ) (q : ℤ) (st : O1State) (x : ℤ) :
    (st.next q p x).registers p = (st.registers p).update (q : ZMod p) (x : ZMod p) := by
  simp only [O1State.registers, O1State.next, o1NextAcc, o1NextWeight, o1NextStep,
    Registers.update, ZMod.intCast_mod, Int.cast_add, Int.cast_mul]

/-- A stream of machine integers as integers. -/
def ints {w : ℕ} (xs : List (BitVec w)) : List ℤ := xs.map fun x => (x.toNat : ℤ)

theorem O1State.registers_run {w : ℕ} (p : ℕ) (q : ℤ) (xs : List (BitVec w)) :
    (O1State.run q p (ints xs)).registers p = Registers.run (q : ZMod p) (residues p xs) := by
  induction xs using List.reverseRecOn with
  | nil => exact O1State.registers_init p q
  | append_singleton xs x ih =>
    rw [ints, List.map_append, List.map_singleton, O1State.run_concat, O1State.registers_next,
      residues_concat, Registers.run_concat]
    rw [ints] at ih
    rw [ih, Int.cast_natCast]

/-- The value of a representative of an integer. -/
theorem toNat_eq_emod_of_rep {w p : ℕ} {x : BitVec w} {z : ℤ} (h : Rep p x (z : ZMod p)) :
    (x.toNat : ℤ) = z % p := by
  have hcast : ((x.toNat : ℤ) : ZMod p) = (z : ZMod p) := by rw [Int.cast_natCast, h.cast]
  have hmod := (ZMod.intCast_eq_intCast_iff' _ _ _).mp hcast
  rwa [Int.emod_eq_of_lt (by positivity) (by exact_mod_cast h.lt)] at hmod

/-- The refinement of the artifact by `timefence-core`: after every prefix of every
    stream the updater holds the residues of the state that the transitions of the artifact
    reach, and its checkpoint is a correct prefix checkpoint of the valid range. -/
theorem ksentryFast_simulates_o1 {q p : U128} (hp : ModulusOk p) (hq : 0 < q.toNat)
    {xs : List U128} (hlen : xs.length < 2 ^ 64) {n : ℕ} (hn : n ≤ xs.length) (streamId : String)
    (epoch : U64) :
    ∃ st, ksentryFast (xs.take n) q p = .ok st ∧
      O1StateInv (ints xs) q.toNat p.toNat n (O1State.run q.toNat p.toNat (ints (xs.take n))) ∧
      (st.acc.toNat : ℤ) = (O1State.run q.toNat p.toNat (ints (xs.take n))).acc ∧
      (st.weight.toNat : ℤ) =
        (O1State.run q.toNat p.toNat (ints (xs.take n))).weight % p.toNat ∧
      (st.step.toNat : ℤ) = (O1State.run q.toNat p.toNat (ints (xs.take n))).step % p.toNat ∧
      PrefixCheckpointCorrect (ints xs) q.toNat p.toNat n
        (st.checkpoint streamId epoch).digest.toNat ∧
      (st.checkpoint streamId epoch).endSeq.toNat = checkpointPositionFromState n ∧
      CkptValid 0 n (st.checkpoint streamId epoch).endSeq.toNat := by
  have hpos : (0 : ℤ) < p.toNat := by exact_mod_cast hp.pos
  have hinv : O1StateInv (ints xs) q.toNat p.toNat n
      (O1State.run q.toNat p.toNat (ints (xs.take n))) := by
    have hints : ints (xs.take n) = (ints xs).take n := List.map_take
    rw [hints]
    exact O1StateInv.run hpos (by rwa [ints, List.length_map])
  have htake : (xs.take n).length = n := List.length_take_of_le hn
  have hlen' : (xs.take n).length < 2 ^ 64 := by omega
  obtain ⟨st, hst, href⟩ := ksentryFast_refines hp hq hlen'
  have hregisters := O1State.registers_run p.toNat q.toNat (xs.take n)
  rw [Int.cast_natCast] at hregisters
  rw [← hregisters, htake] at href
  have hacc : (st.acc.toNat : ℤ) = (O1State.run q.toNat p.toNat (ints (xs.take n))).acc := by
    rw [toNat_eq_emod_of_rep href.acc_rep, hinv.acc_eq]
    -- The digest is reduced already.
    cases n with
    | zero => rfl
    | succ n => rw [ksPrefixSpec, Int.emod_emod_of_dvd _ dvd_rfl]
  refine ⟨st, hst, hinv, hacc, toNat_eq_emod_of_rep href.weight_rep,
    toNat_eq_emod_of_rep href.step_rep, ?_, href.n_eq, href.n_eq.trans (Nat.zero_add n).symm⟩
  show (st.acc.toNat : ℤ) = _
  rw [hacc, hinv.acc_eq]

/-- The stream `[3, 9]` with the parameters of the repository's tests. -/
theorem ksentryFast_simulates_o1_demo :
    ∃ st, ksentryFast [3#128, 9#128] 7#128 1000000007#128 = .ok st ∧
      (st.acc.toNat : ℤ) = 66 ∧ (st.weight.toNat : ℤ) = 343 ∧
      (st.checkpoint "demo" 0#64).endSeq.toNat = 2 := by
  have hlen : [3#128, 9#128].length < 2 ^ 64 := by decide
  obtain ⟨st, hst, -, hacc, hweight, -, -, hposition, -⟩ :=
    ksentryFast_simulates_o1 (q := 7#128) modulusOk_demo (by decide) hlen (n := 2) le_rfl "demo"
      0#64
  refine ⟨st, hst, ?_, ?_, hposition⟩
  · rw [hacc]
    decide
  · rw [hweight]
    decide

end TimeFence.Verus
