import TimeFence.Algebra.WeightedSum

/-!
# The triangular register machine

What a K-Sentry style accumulator is for, over an arbitrary commutative
semiring: it turns a stream `x₀, x₁, …` into `Σ xᵢ · q^(Tᵢ)` with `Tᵢ = tri i`,
in constant space. Instead of an exponent it carries two registers, the weight
`q^(Tₙ)` of the next element and the factor `q^(n+1)` that leads to the weight
after it, each advanced by one multiplication.

`Registers.run_eq` is the invariant of every run: the three registers in closed
form.
-/

namespace TimeFence.Algebra

variable {R : Type*} [CommSemiring R]

/-- The accumulator and the two weight registers. -/
@[ext]
structure Registers (R : Type*) where
  acc : R
  weight : R
  step : R

/-- The registers before the first element. -/
def Registers.init (q : R) : Registers R := { acc := 0, weight := 1, step := q }

/-- One element `x`. -/
def Registers.update (q : R) (r : Registers R) (x : R) : Registers R :=
  { acc := r.acc + x * r.weight, weight := r.weight * r.step, step := r.step * q }

/-- A whole stream. -/
def Registers.run (q : R) (xs : List R) : Registers R := xs.foldl (Registers.update q) (.init q)

@[simp] theorem Registers.run_nil (q : R) : Registers.run q [] = .init q := rfl

theorem Registers.run_concat (q : R) (xs : List R) (x : R) :
    Registers.run q (xs ++ [x]) = (Registers.run q xs).update q x := by
  rw [Registers.run, List.foldl_append]
  rfl

/-- The triangular weights `q^(Tᵢ)`. -/
def triWeight (q : R) (i : ℕ) : R := q ^ tri i

/-- The invariant of the machine, in closed form. -/
theorem Registers.run_eq (q : R) (xs : List R) :
    Registers.run q xs =
      { acc := wsum (triWeight q) xs, weight := q ^ tri xs.length,
        step := q ^ (xs.length + 1) } := by
  induction xs using List.reverseRecOn with
  | nil => simp [Registers.init]
  | append_singleton xs x ih =>
    rw [Registers.run_concat, ih, Registers.update, wsum_concat, List.length_append,
      List.length_singleton]
    ext
    · rfl
    · show q ^ tri xs.length * q ^ (xs.length + 1) = q ^ tri (xs.length + 1)
      rw [tri_succ, ← pow_add]
    · show q ^ (xs.length + 1) * q = q ^ (xs.length + 1 + 1)
      rw [← pow_succ]

/-- The accumulator of a stream. -/
theorem Registers.run_acc (q : R) (xs : List R) :
    (Registers.run q xs).acc = wsum (triWeight q) xs := by
  rw [Registers.run_eq]

/-- Moving a stream by `s` positions multiplies the weight of its element `i`
    by `q^(T_s)` and by `q^(s·i)`; only the first factor is the same for all. -/
theorem triWeight_add (q : R) (s i : ℕ) :
    triWeight q (s + i) = triWeight q s * triWeight q i * (q ^ s) ^ i := by
  rw [triWeight, tri_add, pow_add, pow_add, pow_mul]
  rfl

@[simp] theorem triWeight_zero (q : R) : triWeight q 0 = 1 := by simp [triWeight]

@[simp] theorem triWeight_one (q : R) : triWeight q 1 = q := by simp [triWeight]

end TimeFence.Algebra
