import TimeFence.Core.Checkpoint

/-!
# The checkpoint verifier

Model of `timefence-core/src/verifier.rs`: a report classifies an expected and
an observed checkpoint as clean, as differing in metadata, or as differing in
the digest only. `verify_many` pairs two slices of checkpoints with `zip`, so
the checkpoints past the shorter slice are never looked at
(`verifyMany_clean_iff`).
-/

namespace TimeFence.Core

open TimeFence.Common

/-- `enum VerificationStatus` (lines 10–15). -/
inductive VerificationStatus where
  | clean
  | metadataMismatch (reason : CheckpointMismatch)
  | digestMismatch
  deriving DecidableEq, Repr

/-- `struct VerificationReport` (lines 17–26). -/
structure VerificationReport where
  status : VerificationStatus
  streamId : String
  epoch : U64
  startSeq : U64
  endSeq : U64
  expectedDigest : U128
  observedDigest : U128
  deriving DecidableEq, Repr

/-- Model of `is_clean` (lines 29–31). -/
def VerificationReport.isClean (self : VerificationReport) : Bool := self.status == .clean

/-- Model of `is_suspicious` (lines 33–35). -/
def VerificationReport.isSuspicious (self : VerificationReport) : Bool := !self.isClean

/-- The `match` of `verify_checkpoint` (lines 44–48). -/
def VerificationStatus.ofReason : CheckpointMismatch → VerificationStatus
  | .none => .clean
  | .digest => .digestMismatch
  | other => .metadataMismatch other

/-- Model of `verify_checkpoint` (lines 38–59). -/
def verifyCheckpoint (expected observed : TimeFenceCheckpoint) : VerificationReport :=
  let reason := expected.reasonMismatch observed
  { status := .ofReason reason, streamId := expected.streamId, epoch := expected.epoch,
    startSeq := expected.startSeq, endSeq := expected.endSeq,
    expectedDigest := expected.digest, observedDigest := observed.digest }

/-- Model of `verify_many` (lines 61–70). -/
def verifyMany (expected observed : List TimeFenceCheckpoint) : List VerificationReport :=
  (expected.zip observed).map fun (e, o) => verifyCheckpoint e o

/-- Model of `first_suspicious_report` (lines 72–74). -/
def firstSuspiciousReport (reports : List VerificationReport) : Option VerificationReport :=
  reports.find? fun r => r.isSuspicious

/-! ## One pair of checkpoints -/

theorem VerificationStatus.ofReason_eq_clean_iff (m : CheckpointMismatch) :
    VerificationStatus.ofReason m = .clean ↔ m = .none := by
  cases m <;> simp [ofReason]

/-- A report is clean exactly when the two checkpoints are equal. -/
theorem verifyCheckpoint_isClean_iff (e o : TimeFenceCheckpoint) :
    (verifyCheckpoint e o).isClean = true ↔ e = o := by
  rw [VerificationReport.isClean, beq_iff_eq, verifyCheckpoint,
    VerificationStatus.ofReason_eq_clean_iff, TimeFenceCheckpoint.reasonMismatch_eq_none_iff]

/-- The verdict on two checkpoints built at one start with one set of
    parameters. -/
theorem verifyCheckpoint_of_new {streamId : String} {epoch startSeq lenE lenO : U64}
    {digestE digestO q p : U128} {e o : TimeFenceCheckpoint}
    (he : TimeFenceCheckpoint.new streamId epoch startSeq lenE digestE q p = .ok e)
    (ho : TimeFenceCheckpoint.new streamId epoch startSeq lenO digestO q p = .ok o) :
    (verifyCheckpoint e o).status =
      if lenE ≠ lenO then .metadataMismatch .length
      else if digestE ≠ digestO then .digestMismatch else .clean := by
  rw [verifyCheckpoint, TimeFenceCheckpoint.reasonMismatch_of_new he ho]
  split_ifs <;> rfl

/-! ## Slices of checkpoints -/

theorem verifyMany_length (expected observed : List TimeFenceCheckpoint) :
    (verifyMany expected observed).length = min expected.length observed.length := by
  rw [verifyMany, List.length_map, List.length_zip]

/-- Every report of `verify_many` is clean exactly when one slice is a prefix of
    the other. -/
theorem verifyMany_clean_iff (expected observed : List TimeFenceCheckpoint) :
    (∀ r ∈ verifyMany expected observed, r.isClean = true) ↔
      expected <+: observed ∨ observed <+: expected := by
  induction expected generalizing observed with
  | nil => simp [verifyMany]
  | cons e expected ih =>
    cases observed with
    | nil => simp [verifyMany]
    | cons o observed =>
      have hcons : verifyMany (e :: expected) (o :: observed) =
          verifyCheckpoint e o :: verifyMany expected observed := rfl
      rw [hcons, List.forall_mem_cons, ih, verifyCheckpoint_isClean_iff, List.cons_prefix_cons,
        List.cons_prefix_cons]
      constructor
      · rintro ⟨rfl, h | h⟩
        · exact .inl ⟨rfl, h⟩
        · exact .inr ⟨rfl, h⟩
      · rintro (⟨rfl, h⟩ | ⟨rfl, h⟩)
        · exact ⟨rfl, .inl h⟩
        · exact ⟨rfl, .inr h⟩

/-- The pairs that are compared decide: all reports are clean exactly when the
    two slices agree up to the length of the shorter one. -/
theorem firstSuspiciousReport_eq_none_iff (expected observed : List TimeFenceCheckpoint) :
    firstSuspiciousReport (verifyMany expected observed) = none ↔
      expected <+: observed ∨ observed <+: expected := by
  rw [← verifyMany_clean_iff, firstSuspiciousReport, List.find?_eq_none]
  simp only [VerificationReport.isSuspicious, Bool.not_eq_true', Bool.not_eq_false]

end TimeFence.Core
