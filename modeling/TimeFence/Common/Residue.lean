import TimeFence.Common.Machine
import TimeFence.Algebra.WeightedSum

/-!
# Residues in machine integers

`Rep p x z` says that `x` holds the canonical representative of `z : ZMod p`.
Every modular program is specified through it: an operation on machine integers
returns the representative of the ring operation on what its arguments
represent.

`residues p xs` is a stream of machine integers seen in `ZMod p`;
`wsum_residues` turns a weighted sum of it back into one of natural numbers.
`Returns.foldlM_wsum` is the rule for the loops that accumulate such a sum.
-/

namespace TimeFence.Common

open TimeFence.Algebra

/-! ## Canonical representatives -/

section Rep

variable {w p : ℕ}

/-- `x` is the canonical representative of `z`. -/
def Rep (p : ℕ) (x : BitVec w) (z : ZMod p) : Prop := x.toNat < p ∧ (x.toNat : ZMod p) = z

theorem Rep.lt {x : BitVec w} {z : ZMod p} (h : Rep p x z) : x.toNat < p := h.1

theorem Rep.cast {x : BitVec w} {z : ZMod p} (h : Rep p x z) : (x.toNat : ZMod p) = z := h.2

theorem Rep.congr {x : BitVec w} {z z' : ZMod p} (h : Rep p x z) (hz : z = z') : Rep p x z' :=
  hz ▸ h

theorem rep_of_toNat_eq_mod {x : BitVec w} {n : ℕ} (hp : 0 < p) (h : x.toNat = n % p) :
    Rep p x (n : ZMod p) := by
  refine ⟨h ▸ Nat.mod_lt n hp, ?_⟩
  rw [h, ZMod.natCast_mod]

/-- The value of a representative of a natural number. -/
theorem Rep.toNat_eq_mod {x : BitVec w} {n : ℕ} (h : Rep p x (n : ZMod p)) : x.toNat = n % p := by
  have hmod := (ZMod.natCast_eq_natCast_iff' _ _ _).mp h.cast
  rwa [Nat.mod_eq_of_lt h.lt] at hmod

/-- Representatives, of whatever widths, are equal exactly when they represent
    the same residue. -/
theorem Rep.toNat_eq_iff {v : ℕ} {x : BitVec w} {y : BitVec v} {z z' : ZMod p} (hx : Rep p x z)
    (hy : Rep p y z') : x.toNat = y.toNat ↔ z = z' := by
  constructor
  · intro h
    rw [← hx.cast, ← hy.cast, h]
  · intro h
    have hxy : (x.toNat : ZMod p) = (y.toNat : ZMod p) := by rw [hx.cast, hy.cast, h]
    have hmod := (ZMod.natCast_eq_natCast_iff' _ _ _).mp hxy
    rwa [Nat.mod_eq_of_lt hx.lt, Nat.mod_eq_of_lt hy.lt] at hmod

theorem Rep.eq_iff {x y : BitVec w} {z z' : ZMod p} (hx : Rep p x z) (hy : Rep p y z') :
    x = y ↔ z = z' := by
  rw [← BitVec.toNat_inj, hx.toNat_eq_iff hy]

theorem Rep.unique {x y : BitVec w} {z : ZMod p} (hx : Rep p x z) (hy : Rep p y z) : x = y :=
  (hx.eq_iff hy).mpr rfl

/-- `0` and `1` represent themselves for every modulus above `1`. -/
theorem rep_zero (hp : 0 < p) : Rep p 0#w 0 := by
  simp [Rep, hp]

theorem rep_one (hw : 0 < w) (hp : 1 < p) : Rep p 1#w 1 := by
  have h1 : (1#w).toNat = 1 := BitVec.toNat_one hw
  rw [Rep, h1]
  exact ⟨hp, Nat.cast_one⟩

theorem natCast_ne_zero_iff_mod {n : ℕ} : (n : ZMod p) ≠ 0 ↔ n % p ≠ 0 := by
  rw [Ne, ZMod.natCast_eq_zero_iff, Nat.dvd_iff_mod_eq_zero]

theorem pos_of_mod_ne_zero {n : ℕ} (h : n % p ≠ 0) : 0 < n := by
  apply Nat.pos_of_ne_zero
  rintro rfl
  exact h (Nat.zero_mod p)

theorem natCast_pow_eq_one_iff_mod (hp : 1 < p) {q s : ℕ} :
    (q : ZMod p) ^ s = 1 ↔ q ^ s % p = 1 := by
  rw [← Nat.cast_pow, ← Nat.cast_one, ZMod.natCast_eq_natCast_iff', Nat.mod_eq_of_lt hp]

/-- The machine integer that represents `z`. -/
def ofResidue (w : ℕ) (z : ZMod p) : BitVec w := BitVec.ofNat w z.val

theorem rep_ofResidue (hp : 0 < p) (hw : p ≤ 2 ^ w) (z : ZMod p) : Rep p (ofResidue w z) z := by
  have : NeZero p := ⟨hp.ne'⟩
  have hlt : z.val < p := ZMod.val_lt z
  have hval : (ofResidue w z).toNat = z.val := by
    rw [ofResidue, BitVec.toNat_ofNat, Nat.mod_eq_of_lt (by omega)]
  rw [Rep, hval]
  exact ⟨hlt, ZMod.natCast_rightInverse z⟩

/-- `x % p` represents the residue of `x`. -/
theorem checkedRem_rep {x m : BitVec w} (hm : 0 < m.toNat) :
    Returns (checkedRem x m) fun r => Rep m.toNat r (x.toNat : ZMod m.toNat) :=
  (checkedRem_returns hm).mono fun _ hr => rep_of_toNat_eq_mod hm hr

end Rep

/-! ## Streams -/

section Streams

variable {w : ℕ}

/-- The residues of a stream. -/
def residues (p : ℕ) (xs : List (BitVec w)) : List (ZMod p) :=
  xs.map fun x => (x.toNat : ZMod p)

@[simp] theorem residues_nil (p : ℕ) : residues p ([] : List (BitVec w)) = [] := rfl

@[simp] theorem length_residues (p : ℕ) (xs : List (BitVec w)) :
    (residues p xs).length = xs.length := List.length_map _

theorem residues_append (p : ℕ) (xs ys : List (BitVec w)) :
    residues p (xs ++ ys) = residues p xs ++ residues p ys := List.map_append

@[simp] theorem residues_singleton (p : ℕ) (x : BitVec w) :
    residues p [x] = [(x.toNat : ZMod p)] := rfl

theorem residues_concat (p : ℕ) (xs : List (BitVec w)) (x : BitVec w) :
    residues p (xs ++ [x]) = residues p xs ++ [(x.toNat : ZMod p)] := residues_append p xs [x]

/-- The rule for an accumulation loop: when the iteration `i` adds the element
    with the weight `i` to what the state holds, the state holds the weighted
    sum of the stream at the end. -/
theorem Returns.foldlM_wsum {p : ℕ} {σ : Type} {f : σ → BitVec w × ℕ → Exec σ} {s₀ : σ}
    {weight : ℕ → ZMod p} {xs : List (BitVec w)} (Holds : σ → ZMod p → Prop) (h₀ : Holds s₀ 0)
    (step : ∀ i x s z, i < xs.length → Holds s z →
      Returns (f s (x, i)) fun s' => Holds s' (z + x.toNat * weight i)) :
    Returns (xs.zipIdx.foldlM f s₀) fun s => Holds s (wsum weight (residues p xs)) := by
  refine Returns.foldlM_zipIdx (fun pre s => Holds s (wsum weight (residues p pre))) ?_ ?_
  · rwa [residues_nil, wsum_nil]
  · intro pre x post s hxs hs
    rw [residues_concat, wsum_concat, length_residues]
    exact step pre.length x s _ (length_lt_of_split hxs) hs

/-- Past the end both sides are `0`. -/
theorem getD_residues (p : ℕ) (xs : List (BitVec w)) (i : ℕ) :
    (residues p xs).getD i 0 = ((xs.getD i 0).toNat : ZMod p) := by
  have h := List.getD_map xs (0 : BitVec w) (n := i) fun x => (x.toNat : ZMod p)
  rw [← h]
  simp [residues]

/-- Every list of residues is the list of residues of some stream. -/
theorem residues_map_ofResidue {p : ℕ} (hp : 0 < p) (hw : p ≤ 2 ^ w) (zs : List (ZMod p)) :
    residues p (zs.map (ofResidue w)) = zs := by
  rw [residues, List.map_map]
  conv_rhs => rw [← List.map_id zs]
  apply List.map_congr_left
  intro z _
  exact (rep_ofResidue hp hw z).cast

/-- The weighted sum of the residues is the residue of the weighted sum. -/
theorem wsum_residues (p : ℕ) (weight : ℕ → ℕ) (xs : List (BitVec w)) :
    wsum (fun i => (weight i : ZMod p)) (residues p xs) =
      ((∑ i : Fin xs.length, xs[i].toNat * weight i : ℕ) : ZMod p) := by
  rw [residues, wsum_map_eq_sum]
  push_cast
  rfl

end Streams

end TimeFence.Common
