import Mathlib
import SectorVault.Proofs.Archive.Memo
import SectorVault.Proofs.Group.Unpacking

/-!
# How unpacking fails

Unpacking a group comes in four steps: the group is looked up, its stored bytes are opened, they are
checked, and their data is split.  Each step has failures of its own, so the failure tells the step.  Of the
failures of the first two nothing depends on the options (`unpackFresh_eq_groupNotFound_iff`,
`unpackFresh_eq_container_iff`), and a check only ever reports a mismatch (`isMismatch_of_verify`).
-/

namespace SectorVault

namespace ArchiveError

/-- Whether a failure is that of a check. -/
def isMismatch : ArchiveError → Bool
  | .checksumMismatch _ _ _ _ | .digestMismatch _ _ | .uncompressedChecksumMismatch _ _ _ _ => true
  | .groupNotFound _ _ | .namedGroupNotFound _ _ | .fileNotFound _ _ _ | .unpacking _ => false

/-- Whether a failure is that of a step before the checks: there is no such group, or its stored bytes are
a container that does not decode. -/
def precedesChecks : ArchiveError → Bool
  | .groupNotFound _ _ | .unpacking (.container _) => true
  | _ => false

end ArchiveError

namespace Archive

variable {archive : Archive} {group : Group} {id : UInt32} {key : Option Key} {error : ArchiveError}

/-! ## Checks -/

theorem isMismatch_of_verifyCompressed {container : Container}
    (fails : archive.verifyCompressed group container = .error error) : error.isMismatch = true := by
  unfold verifyCompressed at fails
  split at fails
  · cases fails
    rfl
  split at fails
  · split at fails
    · cases fails
    · split at fails <;> cases fails
      rfl
  · cases fails

theorem isMismatch_of_verifyUncompressed {data : Bytes}
    (fails : archive.verifyUncompressed group data = .error error) : error.isMismatch = true := by
  unfold verifyUncompressed at fails
  split at fails
  · simp only at fails
    split at fails <;> cases fails
    rfl
  · cases fails

/-- The checks of a container and then of its data. -/
theorem verify_some (archive : Archive) (group : Group) (container : Container) (data : Bytes) :
    archive.verify group (some container) data =
      (archive.verifyCompressed group container).bind fun _ =>
        archive.verifyUncompressed group data := rfl

theorem isMismatch_of_verify {container : Option Container} {data : Bytes}
    (fails : archive.verify group container data = .error error) : error.isMismatch = true := by
  cases container with
  | none => exact isMismatch_of_verifyUncompressed fails
  | some container =>
    rw [verify_some] at fails
    rcases bind_eq_error.1 fails with compressed | ⟨-, -, uncompressed⟩
    · exact isMismatch_of_verifyCompressed compressed
    · exact isMismatch_of_verifyUncompressed uncompressed

/-! ## Unpacking -/

theorem unpackFresh_of_listed (listed : archive.table.group? id = some group) :
    archive.unpackFresh id key = group.unpackWith key .unpacking (archive.verify group) := by
  rw [unpackFresh, listed]

theorem unpackFresh_of_unlisted (unlisted : archive.table.group? id = none) :
    archive.unpackFresh id key = .error (.groupNotFound archive.number id) := by
  rw [unpackFresh, unlisted]

/-- A group that does not unpack is not a container, fails a check or does not split, in this order. -/
theorem unpackFresh_eq_error_iff (listed : archive.table.group? id = some group) :
    archive.unpackFresh id key = .error error ↔
      (∃ cause, Container.decode group.raw key = .error cause ∧ cause.rejectsEnvelope = false ∧
        error = .unpacking (.container cause)) ∨
      ∃ container, openStored group.raw key = .ok container ∧
        (archive.verify group container (group.dataOf container) = .error error ∨
          archive.verify group container (group.dataOf container) = .ok () ∧
            ∃ cause, group.split (group.dataOf container) = .error cause ∧
              error = .unpacking cause) := by
  rw [unpackFresh_of_listed listed, Group.unpackWith_eq_error_iff]
  refine or_congr ?_ ?_
  · simp only [openStored_eq_error_iff]
    constructor
    · rintro ⟨_, ⟨cause, decodes, refused, rfl⟩, rfl⟩
      exact ⟨cause, decodes, refused, rfl⟩
    · rintro ⟨cause, decodes, refused, rfl⟩
      exact ⟨_, ⟨cause, decodes, refused, rfl⟩, rfl⟩
  · simp only [eq_comm]

/-- A group that is listed is not reported as missing. -/
theorem unpackFresh_eq_groupNotFound_iff {number : UInt8} {missing : UInt32} :
    archive.unpackFresh id key = .error (.groupNotFound number missing) ↔
      archive.table.group? id = none ∧ archive.number = number ∧ id = missing := by
  cases listed : archive.table.group? id with
  | none => simp [unpackFresh_of_unlisted listed]
  | some group =>
    simp only [reduceCtorEq, false_and, iff_false]
    intro fails
    rcases (unpackFresh_eq_error_iff listed).1 fails with
      ⟨_, -, -, ⟨⟩⟩ | ⟨container, -, mismatch | ⟨-, _, -, ⟨⟩⟩⟩
    have := isMismatch_of_verify mismatch
    cases this

/-- A failure of the container is reported exactly if the stored bytes have it. -/
theorem unpackFresh_eq_container_iff {cause : ContainerError} :
    archive.unpackFresh id key = .error (.unpacking (.container cause)) ↔
      ∃ group, archive.table.group? id = some group ∧ Container.decode group.raw key = .error cause ∧
        cause.rejectsEnvelope = false := by
  cases listed : archive.table.group? id with
  | none => simp [unpackFresh_of_unlisted listed]
  | some group =>
    simp only [Option.some.injEq, exists_eq_left']
    rw [unpackFresh_eq_error_iff listed]
    constructor
    · rintro (⟨_, decodes, refused, ⟨⟩⟩ | ⟨container, -, mismatch | ⟨-, _, splits, ⟨⟩⟩⟩)
      · exact ⟨decodes, refused⟩
      · have := isMismatch_of_verify mismatch
        cases this
      · exact absurd splits (Splitter.split_ne_container _ _ _ _)
    · rintro ⟨decodes, refused⟩
      exact .inl ⟨cause, decodes, refused, rfl⟩

/-- The failures of the steps before the checks do not depend on the options. -/
theorem unpackFresh_eq_error_congr (number : UInt8) (table : ReferenceTable)
    (options options' : Options) (precedes : error.precedesChecks = true) :
    (fresh number table options).unpackFresh id key = .error error ↔
      (fresh number table options').unpackFresh id key = .error error := by
  cases error with
  | groupNotFound number missing =>
    rw [unpackFresh_eq_groupNotFound_iff, unpackFresh_eq_groupNotFound_iff]
    rfl
  | unpacking cause =>
    cases cause with
    | container cause =>
      rw [unpackFresh_eq_container_iff, unpackFresh_eq_container_iff]
      rfl
    | _ => cases precedes
  | _ => cases precedes

end Archive
end SectorVault
