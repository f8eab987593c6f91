import TimeFence.Core.Incident

/-!
# Masking one edit by another

Over a prime field with an invertible base the value at one position is
determined by the other values and the digest. So an arbitrary edit of a stream
can be masked by a second one, and once the position of the second edit is
chosen there is exactly one residue that masks the first
(`masking_residue_existsUnique`). This is the limit of what the digest attests:
the verifier reports the edited stream clean.
-/

namespace TimeFence.Core

open TimeFence.Common TimeFence.Algebra

section

variable {q p : U128} {xs ys : List U128}

/-- Runs over the two streams return, and with the same digest. -/
def SameDigest (q p : U128) (xs ys : List U128) : Prop :=
  ∃ st st', ksentryFast xs q p = .ok st ∧ ksentryFast ys q p = .ok st' ∧ st'.digest = st.digest

theorem sameDigest_iff (hp : ModulusOk p) (hq : 0 < q.toNat) (hx : xs.length < 2 ^ 64)
    (hy : ys.length < 2 ^ 64) : SameDigest q p xs ys ↔ digestOf q p ys = digestOf q p xs := by
  obtain ⟨st, hst, hd⟩ := ksentryFast_digest hp hq xs hx
  obtain ⟨st', hst', hd'⟩ := ksentryFast_digest hp hq ys hy
  rw [← hd'.eq_iff hd]
  constructor
  · rintro ⟨s, s', hs, hs', heq⟩
    rw [hst] at hs
    rw [hst'] at hs'
    cases hs
    cases hs'
    exact heq
  · intro heq
    exact ⟨st, st', hst, hst', heq⟩

theorem residues_set (p : ℕ) (xs : List U128) (b : ℕ) (u : U128) :
    residues p (xs.set b u) = (residues p xs).set b (u.toNat : ZMod p) := List.map_set

/-- The residue that the value at `b` must have for a given digest. -/
theorem digestOf_set_eq_iff [Fact p.toNat.Prime] (hq : q.toNat % p.toNat ≠ 0) {b : ℕ}
    (hb : b < xs.length) (d : ZMod p.toNat) (u : U128) :
    digestOf q p (xs.set b u) = d ↔
      (u.toNat : ZMod p.toNat) =
        (xs[b].toNat : ZMod p.toNat) + (d - digestOf q p xs) / (q.toNat : ZMod p.toNat) ^ tri b := by
  have hweight : triWeight (q.toNat : ZMod p.toNat) b ≠ 0 :=
    pow_ne_zero _ (natCast_ne_zero_iff_mod.mpr hq)
  have hb' : b < (residues p.toNat xs).length := by rwa [length_residues]
  have hget : (residues p.toNat xs)[b] = (xs[b].toNat : ZMod p.toNat) := List.getElem_map _
  rw [digestOf, residues_set, wsum_set_eq_iff hb' hweight, hget]
  rfl

/-- Whatever the other values of a stream are, one residue at `b` gives it the
    digest of `xs`. -/
theorem existsUnique_sameDigest_set (hprime : p.toNat.Prime) (hle : p.toNat ≤ 2 ^ 64)
    (hq : q.toNat % p.toNat ≠ 0) (hx : xs.length < 2 ^ 64) (hy : ys.length < 2 ^ 64) {b : ℕ}
    (hb : b < ys.length) : ∃! u : U128, u.toNat < p.toNat ∧ SameDigest q p xs (ys.set b u) := by
  have : Fact p.toNat.Prime := ⟨hprime⟩
  have hp : ModulusOk p := ⟨hprime.one_lt, hle⟩
  have hlen : ∀ u, (ys.set b u).length < 2 ^ 64 := by simpa using hy
  have hiff : ∀ u, SameDigest q p xs (ys.set b u) ↔ digestOf q p (ys.set b u) = digestOf q p xs :=
    fun u => sameDigest_iff hp (pos_of_mod_ne_zero hq) hx (hlen u)
  -- The residue that the digest asks for.
  obtain ⟨z, hz⟩ : ∃ z : ZMod p.toNat, ∀ u : U128,
      digestOf q p (ys.set b u) = digestOf q p xs ↔ (u.toNat : ZMod p.toNat) = z :=
    ⟨_, digestOf_set_eq_iff hq hb (digestOf q p xs)⟩
  have hrep := rep_ofResidue (w := 128) hp.pos p.isLt.le z
  refine ⟨ofResidue 128 z, ⟨hrep.lt, (hiff _).mpr ((hz _).mpr hrep.cast)⟩, ?_⟩
  rintro u ⟨hlt, hu⟩
  have hu' : Rep p.toNat u z := ⟨hlt, (hz u).mp ((hiff u).mp hu)⟩
  exact hu'.unique hrep

/-- Streams of one length with one digest are reported clean. -/
theorem SameDigest.clean (hp : ModulusOk p) (hq : 0 < q.toNat) (hx : xs.length < 2 ^ 64)
    (hlen : ys.length = xs.length) (h : SameDigest q p xs ys) :
    Returns (verifyStreams xs ys q p) (fun c => c.report.status = .clean) ∧
    ∀ streamId epoch e o, IsCheckpointOf streamId epoch 0#64 q p xs e →
      IsCheckpointOf streamId epoch 0#64 q p ys o → (verifyCheckpoint e o).status = .clean := by
  have hy : ys.length < 2 ^ 64 := by omega
  have hverdict : streamVerdict q p xs ys = .clean := by
    simp [streamVerdict, hlen, (sameDigest_iff hp hq hx hy).mp h]
  constructor
  · have hstatus := verifyStreams_status hp hq hx hy
    rwa [hverdict] at hstatus
  · intro streamId epoch e o he ho
    rw [he.status_eq ho, hverdict]

/-- After an edit at any position `a`, exactly one residue at `b` restores the digest. The
    verifier then reports the two streams clean, as it does for whole-stream
    checkpoints under any name and epoch. -/
theorem masking_residue_existsUnique (hprime : p.toNat.Prime) (hle : p.toNat ≤ 2 ^ 64)
    (hq : q.toNat % p.toNat ≠ 0) (hn : xs.length < 2 ^ 64) {a b : ℕ} (hb : b < xs.length)
    (v : U128) :
    (∃! u : U128, u.toNat < p.toNat ∧ SameDigest q p xs ((xs.set a v).set b u)) ∧
    ∀ u, SameDigest q p xs ((xs.set a v).set b u) →
      Returns (verifyStreams xs ((xs.set a v).set b u) q p) (fun c => c.report.status = .clean) ∧
      ∀ streamId epoch e o,
        IsCheckpointOf streamId epoch 0#64 q p xs e →
        IsCheckpointOf streamId epoch 0#64 q p ((xs.set a v).set b u) o →
        (verifyCheckpoint e o).status = .clean := by
  have hlen : ∀ ys : List U128, ys.length = xs.length → ys.length < 2 ^ 64 := by omega
  have hset : (xs.set a v).length = xs.length := List.length_set
  constructor
  · exact existsUnique_sameDigest_set hprime hle hq hn (hlen _ hset) (by rwa [hset])
  · intro u hu
    have hset' : ((xs.set a v).set b u).length = xs.length := by rw [List.length_set, hset]
    exact hu.clean ⟨hprime.one_lt, hle⟩ (pos_of_mod_ne_zero hq) hn hset'

/-- Over `p = 101`, replacing `20` by `99` in the stream `[10, 20, 30, 40]` is
    masked by one value of the last element. -/
theorem masking_residue_existsUnique_last :
    ∃! u : U128, u.toNat < 101 ∧
      SameDigest 7#128 101#128 [10#128, 20#128, 30#128, 40#128]
        [10#128, 99#128, 30#128, u] := by
  have hprime : (101#128).toNat.Prime := by norm_num
  have hq : (7#128).toNat % (101#128).toNat ≠ 0 := by decide
  have hn : [10#128, 20#128, 30#128, 40#128].length < 2 ^ 64 := by decide
  exact (masking_residue_existsUnique (a := 1) (b := 3) hprime (by decide) hq hn (by decide)
    99#128).1

end

end TimeFence.Core
