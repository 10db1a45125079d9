import Mathlib
import SectorVault.Proofs.Archive.Failing
import SectorVault.Proofs.Archive.Verification
import SectorVault.Proofs.Container.Confinement

/-!
# Checks only filter

Asking for more checks makes an archive hand out less, and nothing else: what passes the stricter checks is
handed out unchanged under the laxer ones, and what the stricter ones keep back is kept back as a mismatch.
For the checks come after the stored bytes are opened, so what is opened is not theirs to change, and
before the data is split, so a mismatch is reported whether or not the data would split.

Which mismatch is reported is settled by a list (`containerChecks`), the checks of a container in their
order; the first one that fails is reported (`unpackFresh_of_container`).  All of them look at the envelope,
the packed part and the data alone, so the bytes behind the packed part make no difference
(`unpackFresh_of_same_front`).

The main statement is `unpack_filtered`.
-/

namespace SectorVault

/-! ## Stricter options -/

/-- Options ask for all the checks that others ask for. -/
structure Options.Covers (strict lax : Options) : Prop where
  checksums : lax.verifyChecksums = true → strict.verifyChecksums = true
  digests : lax.verifyDigests = true → strict.verifyDigests = true

/-- Whatever is vouched for under stricter options is vouched for under laxer ones. -/
theorem Vouched.of_covers {strict lax : Options} {flags : TableFlags} {group : Group}
    {container : Option Container} (vouched : Vouched strict flags group container)
    (covers : strict.Covers lax) : Vouched lax flags group container where
  crc asked := vouched.crc (covers.checksums asked)
  digest asked := vouched.digest (covers.digests asked)
  data asked := vouched.data (covers.checksums asked)

namespace Archive

variable {archive : Archive} {group : Group} {container : Container} {id : UInt32} {key : Option Key}

/-! ## The order of the checks -/

/-- The checks of a container in their order, each with whether it fails and what is reported then. -/
def containerChecks (archive : Archive) (group : Group) (container : Container) :
    List (Bool × ArchiveError) :=
  let covered := group.raw.take container.packedLength
  [(archive.options.verifyChecksums && crc32 covered != group.crc,
      .checksumMismatch archive.number group.id group.crc (crc32 covered)),
    (archive.options.verifyDigests && group.digest.any fun listed => whirlpool covered != listed,
      .digestMismatch archive.number group.id),
    (archive.options.verifyChecksums && archive.table.flags.uncompressedCrcs &&
        crc32 container.data != group.uncompressedCrc,
      .uncompressedChecksumMismatch archive.number group.id group.uncompressedCrc
        (crc32 container.data))]

/-- Runs checks in their order; the first one that fails is reported. -/
def reportFirst (checks : List (Bool × ArchiveError)) : Except ArchiveError Unit :=
  match checks.find? Prod.fst with
  | some (_, error) => .error error
  | none => .ok ()

theorem reportFirst_append (checks checks' : List (Bool × ArchiveError)) :
    reportFirst (checks ++ checks') = (reportFirst checks).bind fun _ => reportFirst checks' := by
  unfold reportFirst
  rw [List.find?_append]
  cases checks.find? Prod.fst <;> rfl

theorem verifyCompressed_eq_reportFirst
    (crc : container.crc = crc32 (group.raw.take container.packedLength)) :
    archive.verifyCompressed group container =
      reportFirst ((archive.containerChecks group container).take 2) := by
  unfold verifyCompressed containerChecks reportFirst
  rw [crc]
  by_cases summed : (archive.options.verifyChecksums &&
      crc32 (group.raw.take container.packedLength) != group.crc) = true
  · simp [summed]
  · cases archive.options.verifyDigests with
    | false => simp [summed]
    | true =>
      cases group.digest with
      | none => simp [summed]
      | some listed =>
        by_cases same : whirlpool (group.raw.take container.packedLength) = listed
        · simp [summed, same]
        · simp [summed, same]

theorem verifyUncompressed_eq_reportFirst :
    archive.verifyUncompressed group container.data =
      reportFirst ((archive.containerChecks group container).drop 2) := by
  unfold verifyUncompressed containerChecks reportFirst
  by_cases asked : (archive.options.verifyChecksums && archive.table.flags.uncompressedCrcs) = true
  · by_cases same : crc32 container.data = group.uncompressedCrc
    · simp [asked, same]
    · simp [asked, same]
  · simp [asked]

theorem verify_of_container (opened : openStored group.raw key = .ok (some container)) :
    archive.verify group (some container) container.data =
      reportFirst (archive.containerChecks group container) := by
  have crc := Container.crc_of_decode (openStored_eq_some_iff.1 opened)
  have parts := List.take_append_drop 2 (archive.containerChecks group container)
  rw [verify_some, verifyCompressed_eq_reportFirst crc, verifyUncompressed_eq_reportFirst,
    ← reportFirst_append, parts]

/-- A group that is a container is split only if no check fails, and otherwise the first check that does
is reported. -/
theorem unpackFresh_of_container (listed : archive.table.group? id = some group)
    (opened : openStored group.raw key = .ok (some container)) :
    archive.unpackFresh id key =
      (reportFirst (archive.containerChecks group container)).bind fun _ =>
        ((group.split container.data).mapError .unpacking).map fun files =>
          ⟨group.id, key, files⟩ := by
  have steps : ∀ checked : Except ArchiveError Unit,
      (checked.bind fun _ => ((group.split container.data).mapError .unpacking).bind fun files =>
        .ok (⟨group.id, key, files⟩ : Unpacked)) =
      checked.bind fun _ => ((group.split container.data).mapError .unpacking).map fun files =>
        ⟨group.id, key, files⟩ := by
    intro checked
    cases group.split container.data <;> rfl
  rw [unpackFresh_of_listed listed, Group.unpackWith_eq, opened, ← verify_of_container opened,
    ← steps]
  rfl

/-- What is stored behind the packed part of a container makes no difference, whatever comes of it. -/
theorem unpackFresh_of_same_front {number : UInt8} {table table' : ReferenceTable} {options : Options}
    {raw : Bytes} (listed : table.group? id = some group)
    (opened : openStored group.raw key = .ok (some container)) (flags : table'.flags = table.flags)
    (listed' : table'.group? id = some { group with raw := raw })
    (same : raw.take container.packedLength = group.raw.take container.packedLength) :
    (fresh number table' options).unpackFresh id key =
      (fresh number table options).unpackFresh id key := by
  obtain ⟨revision, decodes⟩ :=
    Container.decode_of_same_front (openStored_eq_some_iff.1 opened) same
  have opened' : openStored ({ group with raw := raw } : Group).raw key =
      .ok (some { container with revision := revision }) := openStored_eq_some_iff.2 decodes
  have checks : (fresh number table' options).containerChecks { group with raw := raw }
      { container with revision := revision } =
      (fresh number table options).containerChecks group container := by
    simp only [containerChecks, fresh, flags, same]
  have unpacks : (fresh number table options).unpackFresh id key = _ :=
    unpackFresh_of_container listed opened
  have unpacks' : (fresh number table' options).unpackFresh id key = _ :=
    unpackFresh_of_container listed' opened'
  rw [unpacks', unpacks, checks]
  rfl

/-! ## Two options -/

theorem unpackFresh_of_covers {number : UInt8} {table : ReferenceTable} {strict lax : Options}
    (covers : strict.Covers lax) {unpacked : Unpacked}
    (unpacks : (fresh number table strict).unpackFresh id key = .ok unpacked) :
    (fresh number table lax).unpackFresh id key = .ok unpacked := by
  obtain ⟨group, container, from_group⟩ := unpackFresh_eq_ok_iff.1 unpacks
  exact unpackFresh_eq_ok_iff.2
    ⟨group, container, { from_group with vouched := from_group.vouched.of_covers covers }⟩

/-- What unpacks under some options fails under others as a mismatch only. -/
theorem isMismatch_of_unpackFresh {number : UInt8} {table : ReferenceTable} {options options' : Options}
    {unpacked : Unpacked} {error : ArchiveError}
    (unpacks : (fresh number table options).unpackFresh id key = .ok unpacked)
    (fails : (fresh number table options').unpackFresh id key = .error error) :
    error.isMismatch = true := by
  obtain ⟨group, container, listed, opened, -, split, -, -⟩ := unpackFresh_eq_ok_iff.1 unpacks
  have listed' : (fresh number table options').table.group? id = some group := listed
  rcases (unpackFresh_eq_error_iff listed').1 fails with
    ⟨cause, decodes, refused, -⟩ | ⟨container', opened', mismatch | ⟨-, cause, splits, -⟩⟩
  · -- but the group was opened
    have closed := openStored_eq_error_iff.2 ⟨cause, decodes, refused, rfl⟩
    rw [opened] at closed
    cases closed
  · exact isMismatch_of_verify mismatch
  · -- but it was split
    obtain rfl : container = container' := by
      rw [opened] at opened'
      exact Except.ok.inj opened'
    rw [split] at splits
    cases splits

/-- **Checks only filter.**  Let one archive be read under two options, of which the stricter ones ask for
at least the checks of the laxer ones.  What is unpacked under the stricter ones is unpacked unchanged under
the laxer ones; what is unpacked under the laxer ones only is a mismatch under the others; and a group that
is missing, or a container that does not decode, is reported alike under both.  Under any options, of the
checks of a container the first that fails is reported, whether or not the data would split, and whatever
is stored behind the packed part. -/
theorem unpack_filtered (number : UInt8) (table : ReferenceTable) {strict lax : Options}
    (covers : strict.Covers lax) (id : UInt32) (key : Option Key) :
    let outcome := fun (options : Options) (table : ReferenceTable) =>
      ((fresh number table options).unpack id key).1
    (∀ unpacked, outcome strict table = .ok unpacked → outcome lax table = .ok unpacked) ∧
    (∀ unpacked error, outcome lax table = .ok unpacked → outcome strict table = .error error →
      error.isMismatch = true) ∧
    (∀ error, error.precedesChecks = true →
      (outcome lax table = .error error ↔ outcome strict table = .error error)) ∧
    (∀ options group container, table.group? id = some group →
      openStored group.raw key = .ok (some container) →
      (outcome options table =
        (reportFirst ((fresh number table options).containerChecks group container)).bind fun _ =>
          ((group.split container.data).mapError .unpacking).map fun files =>
            ⟨group.id, key, files⟩) ∧
      ∀ table' raw, table'.flags = table.flags →
        table'.group? id = some { group with raw := raw } →
        raw.take container.packedLength = group.raw.take container.packedLength →
          outcome options table' = outcome options table) := by
  intro outcome
  have fresh_unpack : ∀ options table,
      outcome options table = (fresh number table options).unpackFresh id key :=
    fun options table => unpack_fst (memoSound_fresh _ _ _) id key
  simp only [fresh_unpack]
  refine ⟨?_, ?_, ?_, ?_⟩
  · exact fun unpacked unpacks => unpackFresh_of_covers covers unpacks
  · exact fun unpacked error unpacks fails => isMismatch_of_unpackFresh unpacks fails
  · intro error precedes
    exact unpackFresh_eq_error_congr number table lax strict precedes
  · intro options group container listed opened
    exact ⟨unpackFresh_of_container listed opened, fun table' raw flags listed' same =>
      unpackFresh_of_same_front listed opened flags listed' same⟩

/-- A group with one file, whose stored bytes are a container of one byte and whose listed checksum is
zero. -/
def mismatchedGroup : Group :=
  { Group.blank 4 7 with files := [⟨3, unnamed⟩], raw := [0, 0, 0, 0, 1, 42] }

/-- A table with that group alone. -/
def mismatchedTable : ReferenceTable where
  archive := 0
  crc := 0
  digest := Digest.zero
  compression := .none
  protocol := .unversioned
  revision := 0
  flags := ⟨false, false, false, false⟩
  groups := #[mismatchedGroup]
  byName := ∅

/-- Without checks the file is there, and with checksums compared the group is a mismatch. -/
theorem unpack_filtered_mismatched :
    Options.Covers { verifyChecksums := true } {} ∧
      ((fresh 0 mismatchedTable {}).unpack 7 none).1 = .ok ⟨7, none, [⟨3, unnamed, [42]⟩]⟩ ∧
      ∃ error, ((fresh 0 mismatchedTable { verifyChecksums := true }).unpack 7 none).1 = .error error ∧
        error.isMismatch = true := by
  have covers : Options.Covers { verifyChecksums := true } {} := ⟨nofun, nofun⟩
  obtain ⟨-, mismatch, -, reported⟩ := unpack_filtered 0 mismatchedTable covers 7 none
  have listed : mismatchedTable.group? 7 = some mismatchedGroup := by
    rw [ReferenceTable.group?_eq_find? (by simp [mismatchedTable, ReferenceTable.IdsAscend])]
    rfl
  have opened : openStored mismatchedGroup.raw none =
      .ok (some ⟨[42], .none, -1, crc32 mismatchedGroup.raw, 6⟩) := rfl
  have different : crc32 mismatchedGroup.raw ≠ 0 := by decide +kernel
  have served := (reported {} mismatchedGroup _ listed opened).1
  have kept := (reported { verifyChecksums := true } mismatchedGroup _ listed opened).1
  have first : reportFirst ((fresh 0 mismatchedTable { verifyChecksums := true }).containerChecks
      mismatchedGroup ⟨[42], .none, -1, crc32 mismatchedGroup.raw, 6⟩) =
        .error (.checksumMismatch 0 7 0 (crc32 mismatchedGroup.raw)) := by
    have covered : mismatchedGroup.raw.take 6 = mismatchedGroup.raw := rfl
    have differs : (crc32 mismatchedGroup.raw != mismatchedGroup.crc) = true := bne_iff_ne.2 different
    simp only [reportFirst, containerChecks, covered, differs, fresh, Bool.and_self, List.find?_cons]
    rfl
  rw [first] at kept
  exact ⟨covers, served, _, kept, mismatch _ _ served kept⟩

end Archive
end SectorVault
