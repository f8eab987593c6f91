import TimeFence.Common.Residue

/-!
# Specification functions of the verified artifact

Model of the `spec fn`s of `proofs/finaltest_timefence_core_verified.rs` (lines
10–29). They compute with mathematical integers and with the Euclidean `/` and
`%`, like Lean's `Int`; `Seq<u64>` is a list of any length.

`ramanujanSpec_cast` is their closed form: `ramanujan_spec` is the residue of the
weighted sum of the log with triangular exponents.
-/

namespace TimeFence.Verus

open TimeFence.Common TimeFence.Algebra

/-! ## Model -/

/-- Model of `spec_pow` (lines 10–14). -/
def specPow (base exp : ℤ) : ℤ :=
  if exp ≤ 0 then 1 else base * specPow base (exp - 1)
termination_by exp.toNat

/-- Model of `tri_exp` (lines 16–18). -/
def triExp (i : ℤ) : ℤ := i * (i + 1) / 2

/-- Model of `ramanujan_spec` (lines 20–29). -/
def ramanujanSpec (logs : List U64) (q p : ℤ) : ℤ :=
  if h : logs = [] then 0
  else
    let i : ℤ := logs.length - 1
    let weight := specPow q (triExp i) % p
    (ramanujanSpec logs.dropLast q p + (logs.getLast h).toNat * weight) % p
termination_by logs.length
decreasing_by
  have := List.length_pos_iff.mpr h
  rw [List.length_dropLast]
  omega

/-! ## Closed forms -/

theorem specPow_natCast (base : ℤ) (n : ℕ) : specPow base n = base ^ n := by
  induction n with
  | zero => rw [specPow, if_pos (by simp), pow_zero]
  | succ n ih =>
    have hn : ((n + 1 : ℕ) : ℤ) - 1 = n := by push_cast; ring
    rw [specPow, if_neg (by omega), hn, ih, pow_succ']

theorem triExp_natCast (n : ℕ) : triExp n = tri n := by
  rw [triExp, tri]
  push_cast
  rfl

@[simp] theorem ramanujanSpec_nil (q p : ℤ) : ramanujanSpec [] q p = 0 := by
  rw [ramanujanSpec, dif_pos rfl]

/-- One more log entry. -/
theorem ramanujanSpec_concat (logs : List U64) (x : U64) (q p : ℤ) :
    ramanujanSpec (logs ++ [x]) q p =
      (ramanujanSpec logs q p + x.toNat * (q ^ tri logs.length % p)) % p := by
  have hlen : ((logs ++ [x]).length : ℤ) - 1 = logs.length := by simp
  rw [ramanujanSpec, dif_neg (by simp)]
  simp only [hlen, triExp_natCast, specPow_natCast, List.dropLast_concat, List.getLast_concat]

theorem ramanujanSpec_range (logs : List U64) (q : ℤ) {p : ℤ} (hp : 0 < p) :
    0 ≤ ramanujanSpec logs q p ∧ ramanujanSpec logs q p < p := by
  induction logs using List.reverseRecOn with
  | nil => simp [hp]
  | append_singleton logs x _ =>
    rw [ramanujanSpec_concat]
    exact ⟨Int.emod_nonneg _ hp.ne', Int.emod_lt_of_pos _ hp⟩

/-- The specification as the residue of an integer. -/
theorem ramanujanSpec_eq_wsum_emod (logs : List U64) (q : ℤ) {p : ℤ} (hp : 0 < p) :
    ramanujanSpec logs q p =
      wsum (fun i => q ^ tri i) (logs.map fun x => (x.toNat : ℤ)) % p := by
  induction logs using List.reverseRecOn with
  | nil => simp [Int.emod_eq_of_lt le_rfl hp]
  | append_singleton logs x ih =>
    rw [ramanujanSpec_concat, ih, List.map_append, List.map_singleton, wsum_concat,
      List.length_map]
    exact (Int.mod_modEq _ p).add ((Int.mod_modEq _ p).mul_left _)

/-- The weighted sum of the log in `ZMod p`. -/
theorem ramanujanSpec_cast (logs : List U64) (q : ℤ) (p : ℕ) :
    ((ramanujanSpec logs q p : ℤ) : ZMod p) =
      wsum (fun i => (q : ZMod p) ^ tri i) (residues p logs) := by
  induction logs using List.reverseRecOn with
  | nil => simp
  | append_singleton logs x ih =>
    rw [ramanujanSpec_concat, ZMod.intCast_mod, Int.cast_add, ih, residues_concat, wsum_concat,
      length_residues, Int.cast_mul, ZMod.intCast_mod]
    push_cast
    rfl

/-- A machine integer that represents the weighted sum holds the value of the
    specification. -/
theorem toNat_eq_ramanujanSpec {p : ℕ} (hp : 0 < p) {logs : List U64} {q : ℤ} {x : U64}
    (hx : Rep p x (wsum (fun i => (q : ZMod p) ^ tri i) (residues p logs))) :
    (x.toNat : ℤ) = ramanujanSpec logs q p := by
  obtain ⟨hnonneg, hlt⟩ := ramanujanSpec_range logs q (p := p) (by exact_mod_cast hp)
  have hcast : ((x.toNat : ℤ) : ZMod p) = ((ramanujanSpec logs q p : ℤ) : ZMod p) := by
    rw [ramanujanSpec_cast, Int.cast_natCast, hx.cast]
  have hmod := (ZMod.intCast_eq_intCast_iff' _ _ _).mp hcast
  rwa [Int.emod_eq_of_lt (by positivity) (by exact_mod_cast hx.lt),
    Int.emod_eq_of_lt hnonneg hlt] at hmod

end TimeFence.Verus
