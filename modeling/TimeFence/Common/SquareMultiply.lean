import TimeFence.Common.Residue

/-!
# Square and multiply

The loop that raises a residue to a power by halving the exponent, over any
modular multiplication. Its invariant is `result · base^exp`
(`squareMultiply_rep`).
-/

namespace TimeFence.Common

section

variable {w v : ℕ}

theorem shiftRight_one_lt {e : BitVec v} (h : 0#v < e) : (e >>> 1).toNat < e.toNat := by
  rw [BitVec.lt_def, BitVec.toNat_zero] at h
  rw [BitVec.toNat_ushiftRight, Nat.shiftRight_eq_div_pow]
  omega

/-- `while exp > 0 { if exp & 1 == 1 { result = mul(result, base) }
    base = mul(base, base); exp >>= 1 }`. -/
def squareMultiply (mul : BitVec w → BitVec w → Exec (BitVec w)) (result base : BitVec w)
    (exp : BitVec v) : Exec (BitVec w) :=
  if 0#v < exp then do
    let product := if exp &&& 1#v = 1#v then mul result base else .ok result
    let result ← product
    let base ← mul base base
    squareMultiply mul result base (exp >>> 1)
  else
    pure result
termination_by exp.toNat
decreasing_by exact shiftRight_one_lt ‹_›

/-- The bit tested by square-and-multiply. -/
theorem and_one_eq_one_iff (hv : 0 < v) (e : BitVec v) :
    e &&& 1#v = 1#v ↔ e.toNat % 2 = 1 := by
  have h1 : (1#v).toNat = 1 := BitVec.toNat_one hv
  rw [← BitVec.toNat_inj, BitVec.toNat_and, h1, Nat.and_one_is_mod]

/-- The invariant of the loop: `result · base^exp` is the power to compute. -/
theorem squareMultiply_rep {p : ℕ} {mul : BitVec w → BitVec w → Exec (BitVec w)}
    (hmul : ∀ a b, Returns (mul a b) fun r => Rep p r ((a.toNat : ZMod p) * b.toNat))
    (hv : 0 < v) (exp : BitVec v) :
    ∀ {result base : BitVec w} {z b : ZMod p}, Rep p result z → Rep p base b →
      Returns (squareMultiply mul result base exp) fun r => Rep p r (z * b ^ exp.toNat) := by
  -- Induction on the value of the exponent, which the shift halves.
  induction hn : exp.toNat using Nat.strong_induction_on generalizing exp with
  | _ n ih =>
    subst hn
    intro result base z b hz hb
    rw [squareMultiply]
    by_cases h : 0#v < exp
    · rw [if_pos h]
      have hshift : (exp >>> 1).toNat = exp.toNat / 2 := by
        rw [BitVec.toNat_ushiftRight, Nat.shiftRight_eq_div_pow, pow_one]
      have hsplit : exp.toNat = 2 * (exp.toNat / 2) + exp.toNat % 2 :=
        (Nat.div_add_mod exp.toNat 2).symm
      have hresult : Returns (if exp &&& 1#v = 1#v then mul result base else .ok result)
          fun r => Rep p r (z * b ^ (exp.toNat % 2)) := by
        by_cases hbit : exp &&& 1#v = 1#v
        · rw [if_pos hbit]
          refine (hmul result base).mono fun r hr => hr.congr ?_
          rw [(and_one_eq_one_iff hv exp).mp hbit, pow_one, hz.cast, hb.cast]
        · rw [if_neg hbit]
          have hbit' : exp.toNat % 2 = 0 := by
            rw [and_one_eq_one_iff hv] at hbit
            omega
          refine Returns.ok (hz.congr ?_)
          rw [hbit', pow_zero, mul_one]
      refine hresult.bind fun result' hz' => ?_
      refine (hmul base base).bind fun base' hb' => ?_
      refine (ih _ (shiftRight_one_lt h) (exp >>> 1) rfl hz' hb').mono fun r hr => hr.congr ?_
      rw [hshift, hb.cast]
      calc z * b ^ (exp.toNat % 2) * (b * b) ^ (exp.toNat / 2)
          = z * b ^ (2 * (exp.toNat / 2) + exp.toNat % 2) := by ring
        _ = z * b ^ exp.toNat := by rw [← hsplit]
    · rw [if_neg h]
      have h0 : exp.toNat = 0 := by
        rw [BitVec.lt_def, BitVec.toNat_zero] at h
        omega
      refine Returns.pure (hz.congr ?_)
      rw [h0, pow_zero, mul_one]

end

end TimeFence.Common
