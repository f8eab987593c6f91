import TimeFence.Common.Machine

/-!
# Checkpoints and their comparison

Model of `timefence-core/src/checkpoint.rs`: the metadata that travels with a
digest, and the cascade that names the first field in which two checkpoints
differ.

* `reasonMismatch_eq_none_iff`: the cascade finds nothing exactly when the two
  checkpoints are equal, so it looks at every field.
* `fullyMatches_iff`: the field-by-field comparison agrees with it.
* `reasonMismatch_of_new`: for two checkpoints built at the same start with the
  same parameters only the length and the digest can differ, and the length is
  looked at first.
-/

namespace TimeFence.Core

open TimeFence.Common

/-- `struct TimeFenceCheckpoint` (lines 9–19). -/
structure TimeFenceCheckpoint where
  streamId : String
  epoch : U64
  startSeq : U64
  endSeq : U64
  len : U64
  digest : U128
  q : U128
  p : U128
  deriving DecidableEq, Repr

/-- `enum CheckpointMismatch` (lines 110–120). -/
inductive CheckpointMismatch where
  | none
  | streamId
  | epoch
  | startSeq
  | length
  | endSeq
  | params
  | digest
  deriving DecidableEq, Repr

namespace TimeFenceCheckpoint

/-- Model of `TimeFenceCheckpoint::new` (lines 22–43). -/
def new (streamId : String) (epoch startSeq len : U64) (digest q p : U128) :
    Exec TimeFenceCheckpoint := do
  let endSeq ← checkedAdd startSeq len
  pure { streamId, epoch, startSeq, endSeq, len, digest, q, p }

/-- Model of `is_valid_range` (lines 45–47); the sum is checked. -/
def isValidRange (self : TimeFenceCheckpoint) : Exec Bool := do
  let e ← checkedAdd self.startSeq self.len
  pure (self.endSeq == e)

/-- Model of `same_range_as` (lines 49–55). -/
def sameRangeAs (self other : TimeFenceCheckpoint) : Bool :=
  self.streamId == other.streamId && self.epoch == other.epoch &&
    self.startSeq == other.startSeq && self.endSeq == other.endSeq && self.len == other.len

/-- Model of `same_params_as` (lines 57–59). -/
def sameParamsAs (self other : TimeFenceCheckpoint) : Bool :=
  self.q == other.q && self.p == other.p

/-- Model of `digest_matches` (lines 61–63). -/
def digestMatches (self other : TimeFenceCheckpoint) : Bool := self.digest == other.digest

/-- Model of `fully_matches` (lines 65–69). -/
def fullyMatches (self other : TimeFenceCheckpoint) : Bool :=
  self.sameRangeAs other && self.sameParamsAs other && self.digestMatches other

/-- Model of `adjacent_to` (lines 71–75). -/
def adjacentTo (self next : TimeFenceCheckpoint) : Bool :=
  self.streamId == next.streamId && self.epoch == next.epoch && self.endSeq == next.startSeq

/-- Model of `reason_mismatch` (lines 77–107). -/
def reasonMismatch (self other : TimeFenceCheckpoint) : CheckpointMismatch :=
  if self.streamId ≠ other.streamId then .streamId
  else if self.epoch ≠ other.epoch then .epoch
  else if self.startSeq ≠ other.startSeq then .startSeq
  else if self.len ≠ other.len then .length
  else if self.endSeq ≠ other.endSeq then .endSeq
  else if self.q ≠ other.q ∨ self.p ≠ other.p then .params
  else if self.digest ≠ other.digest then .digest
  else .none

end TimeFenceCheckpoint

namespace CheckpointMismatch

/-- Model of `is_clean` (lines 123–125). -/
def isClean (self : CheckpointMismatch) : Bool := self == none

/-- Model of `is_metadata_mismatch` (lines 127–137). -/
def isMetadataMismatch : CheckpointMismatch → Bool
  | streamId | epoch | startSeq | length | endSeq | params => true
  | none | digest => false

/-- Model of `is_digest_mismatch` (lines 139–141). -/
def isDigestMismatch (self : CheckpointMismatch) : Bool := self == digest

/-- A mismatch is of exactly one of the three kinds. -/
theorem isMetadataMismatch_eq (m : CheckpointMismatch) :
    m.isMetadataMismatch = (!m.isClean && !m.isDigestMismatch) := by
  cases m <;> rfl

theorem not_isClean_and_isDigestMismatch (m : CheckpointMismatch) :
    (m.isClean && m.isDigestMismatch) = false := by
  cases m <;> rfl

end CheckpointMismatch

/-! ## Construction -/

namespace TimeFenceCheckpoint

variable {streamId : String} {epoch startSeq len : U64} {digest q p : U128}

/-- `new` returns exactly when its range does not overflow. -/
theorem new_eq_ok_iff {c : TimeFenceCheckpoint} :
    new streamId epoch startSeq len digest q p = .ok c ↔
      ∃ endSeq, checkedAdd startSeq len = .ok endSeq ∧
        c = { streamId, epoch, startSeq, endSeq, len, digest, q, p } := by
  rw [new, bind_eq_ok_iff]
  constructor
  · rintro ⟨endSeq, hadd, hc⟩
    cases hc
    exact ⟨endSeq, hadd, rfl⟩
  · rintro ⟨endSeq, hadd, rfl⟩
    exact ⟨endSeq, hadd, rfl⟩

theorem new_returns (h : startSeq.toNat + len.toNat < 2 ^ 64) :
    Returns (new streamId epoch startSeq len digest q p) fun c =>
      ∃ endSeq : U64, endSeq.toNat = startSeq.toNat + len.toNat ∧
        c = { streamId, epoch, startSeq, endSeq, len, digest, q, p } := by
  refine (checkedAdd_returns h).bind fun endSeq hend => ?_
  exact Returns.pure ⟨endSeq, hend, rfl⟩

/-- A checkpoint built by `new` has a valid range. -/
theorem isValidRange_of_new {c : TimeFenceCheckpoint}
    (h : new streamId epoch startSeq len digest q p = .ok c) : c.isValidRange = .ok true := by
  obtain ⟨endSeq, hadd, rfl⟩ := new_eq_ok_iff.mp h
  rw [isValidRange, hadd, ok_bind, beq_self_eq_true]
  rfl

end TimeFenceCheckpoint

/-! ## Comparison -/

namespace TimeFenceCheckpoint

variable (e o : TimeFenceCheckpoint)

theorem reasonMismatch_self : e.reasonMismatch e = .none := by simp [reasonMismatch]

/-- The cascade overlooks no field. -/
theorem reasonMismatch_eq_none_iff : e.reasonMismatch o = .none ↔ e = o := by
  constructor
  · intro h
    unfold reasonMismatch at h
    split_ifs at h with h1 h2 h3 h4 h5 h6 h7
    rw [not_ne_iff] at h1 h2 h3 h4 h5 h7
    rw [not_or, not_ne_iff, not_ne_iff] at h6
    cases e
    cases o
    simp_all
  · rintro rfl
    exact reasonMismatch_self e

/-- `fully_matches` and `reason_mismatch` agree. -/
theorem fullyMatches_iff : e.fullyMatches o = true ↔ e.reasonMismatch o = .none := by
  rw [reasonMismatch_eq_none_iff]
  cases e
  cases o
  simp only [fullyMatches, sameRangeAs, sameParamsAs, digestMatches, Bool.and_eq_true,
    beq_iff_eq, TimeFenceCheckpoint.mk.injEq]
  tauto

end TimeFenceCheckpoint

/-- Two checkpoints built at the same start with the same parameters: the
    lengths are compared before the digests, and no other mismatch can occur. -/
theorem TimeFenceCheckpoint.reasonMismatch_of_new {streamId : String} {epoch startSeq : U64}
    {lenE lenO : U64} {digestE digestO q p : U128} {e o : TimeFenceCheckpoint}
    (he : TimeFenceCheckpoint.new streamId epoch startSeq lenE digestE q p = .ok e)
    (ho : TimeFenceCheckpoint.new streamId epoch startSeq lenO digestO q p = .ok o) :
    e.reasonMismatch o =
      if lenE ≠ lenO then .length else if digestE ≠ digestO then .digest else .none := by
  obtain ⟨endE, hE, rfl⟩ := new_eq_ok_iff.mp he
  obtain ⟨endO, hO, rfl⟩ := new_eq_ok_iff.mp ho
  by_cases hlen : lenE = lenO
  · -- Equal lengths from one start have equal ends.
    subst hlen
    rw [hE] at hO
    cases hO
    simp [reasonMismatch]
  · simp [reasonMismatch, hlen]

end TimeFence.Core
