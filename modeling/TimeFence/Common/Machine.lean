import TimeFence.Common.Exec

/-!
# Unsigned machine integers

The unsigned integers are bit vectors. The arithmetic of a debug build is
checked: an operation whose exact result does not fit panics (`checkedAdd`,
`checkedSub`, `checkedMul`), and so does a remainder by zero. A run that returns
has therefore computed the same values in a release build, where the operations
wrap.
-/

namespace TimeFence.Common

/-- `u8`. -/
abbrev U8 := BitVec 8

/-- `u32`. -/
abbrev U32 := BitVec 32

/-- `u64`. A `usize` is one too, on the 64-bit targets of the repository. -/
abbrev U64 := BitVec 64

/-- `u128`. -/
abbrev U128 := BitVec 128

/-- `x as u128` for `x : u64`. -/
def U64.widen (x : U64) : U128 := x.setWidth 128

/-- `x as u64` for `x : u128`, which keeps the low 64 bits. -/
def U128.truncate (x : U128) : U64 := x.setWidth 64

@[simp] theorem U64.toNat_widen (x : U64) : x.widen.toNat = x.toNat := by
  rw [U64.widen, BitVec.toNat_setWidth_of_le (by norm_num)]

theorem U128.toNat_truncate {x : U128} (h : x.toNat < 2 ^ 64) : x.truncate.toNat = x.toNat := by
  rw [U128.truncate, BitVec.toNat_setWidth, Nat.mod_eq_of_lt h]

/-- The index `i` of a slice as a `u64`. -/
theorem toNat_ofNat_index {i : ℕ} (h : i < 2 ^ 64) : (BitVec.ofNat 64 i).toNat = i := by
  rw [BitVec.toNat_ofNat, Nat.mod_eq_of_lt h]

theorem zero_lt_of_toNat {w : ℕ} {x : BitVec w} (h : 0 < x.toNat) : 0#w < x := by
  rwa [BitVec.lt_def, BitVec.toNat_zero]

theorem one_lt_of_toNat {w : ℕ} (hw : 0 < w) {x : BitVec w} (h : 1 < x.toNat) : 1#w < x := by
  rwa [BitVec.lt_def, BitVec.toNat_one hw]

/-! ## Checked operations -/

section Checked

variable {w : ℕ}

/-- `a + b`. -/
def checkedAdd (a b : BitVec w) : Exec (BitVec w) :=
  if a.uaddOverflow b then .error .arithmeticOverflow else .ok (a + b)

/-- `a - b`. -/
def checkedSub (a b : BitVec w) : Exec (BitVec w) :=
  if a < b then .error .arithmeticOverflow else .ok (a - b)

/-- `a * b`. -/
def checkedMul (a b : BitVec w) : Exec (BitVec w) :=
  if a.umulOverflow b then .error .arithmeticOverflow else .ok (a * b)

/-- `a % b`. -/
def checkedRem (a b : BitVec w) : Exec (BitVec w) :=
  if b = 0#w then .error .remainderByZero else .ok (a % b)

/-- `a.checked_mul(b)`. -/
def optionMul (a b : BitVec w) : Option (BitVec w) :=
  if a.umulOverflow b then none else some (a * b)

theorem checkedAdd_returns {a b : BitVec w} (h : a.toNat + b.toNat < 2 ^ w) :
    Returns (checkedAdd a b) fun r => r.toNat = a.toNat + b.toNat := by
  have hov : a.uaddOverflow b = false := by simp [BitVec.uaddOverflow, h]
  refine ⟨a + b, by simp [checkedAdd, hov], ?_⟩
  show (a + b).toNat = a.toNat + b.toNat
  rw [BitVec.toNat_add, Nat.mod_eq_of_lt h]

theorem checkedSub_returns {a b : BitVec w} (h : b.toNat ≤ a.toNat) :
    Returns (checkedSub a b) fun r => r.toNat = a.toNat - b.toNat := by
  have hlt : ¬ a < b := by rw [BitVec.lt_def]; omega
  refine ⟨a - b, by rw [checkedSub, if_neg hlt], ?_⟩
  exact BitVec.toNat_sub_of_le (BitVec.le_def.mpr h)

theorem checkedMul_returns {a b : BitVec w} (h : a.toNat * b.toNat < 2 ^ w) :
    Returns (checkedMul a b) fun r => r.toNat = a.toNat * b.toNat := by
  have hov : a.umulOverflow b = false := by simp [BitVec.umulOverflow, h]
  refine ⟨a * b, by simp [checkedMul, hov], ?_⟩
  show (a * b).toNat = a.toNat * b.toNat
  rw [BitVec.toNat_mul, Nat.mod_eq_of_lt h]

theorem checkedRem_returns {a b : BitVec w} (h : 0 < b.toNat) :
    Returns (checkedRem a b) fun r => r.toNat = a.toNat % b.toNat := by
  have hb : b ≠ 0#w := by rintro rfl; simp at h
  exact ⟨a % b, by rw [checkedRem, if_neg hb], BitVec.toNat_umod⟩

/-- A checked operation returns only when the exact result fits. -/
theorem lt_of_checkedAdd {a b r : BitVec w} (h : checkedAdd a b = .ok r) :
    a.toNat + b.toNat < 2 ^ w := by
  by_contra hge
  have hov : a.uaddOverflow b = true := by simpa [BitVec.uaddOverflow] using hge
  simp [checkedAdd, hov] at h

theorem lt_of_checkedMul {a b r : BitVec w} (h : checkedMul a b = .ok r) :
    a.toNat * b.toNat < 2 ^ w := by
  by_contra hge
  have hov : a.umulOverflow b = true := by simpa [BitVec.umulOverflow] using hge
  simp [checkedMul, hov] at h

theorem optionMul_eq_some {a b : BitVec w} (h : a.toNat * b.toNat < 2 ^ w) :
    ∃ r, optionMul a b = some r ∧ r.toNat = a.toNat * b.toNat := by
  have hov : a.umulOverflow b = false := by simp [BitVec.umulOverflow, h]
  refine ⟨a * b, by simp [optionMul, hov], ?_⟩
  rw [BitVec.toNat_mul, Nat.mod_eq_of_lt h]

theorem optionMul_eq_none {a b : BitVec w} (h : 2 ^ w ≤ a.toNat * b.toNat) :
    optionMul a b = none := by
  have hov : a.umulOverflow b = true := by simpa [BitVec.umulOverflow] using h
  simp [optionMul, hov]

end Checked

/-! ## Indices -/

/-- `a.checked_add(b)` on `usize`. -/
def optionAddIndex (a b : ℕ) : Option ℕ := if a + b < 2 ^ 64 then some (a + b) else none

theorem optionAddIndex_of_lt {a b : ℕ} (h : a + b < 2 ^ 64) :
    optionAddIndex a b = some (a + b) := if_pos h

end TimeFence.Common
