import Mathlib
import SectorVault.Proofs.Archive.Failing
import SectorVault.Proofs.ReferenceTable.Lookup

/-!
# What an archive remembers

A request does one of two things to an archive.  Either it leaves it as it is, or it has one group unpacked
afresh and has the outcome entered into the memo (`afterRequest_cases`), so everything that holds of the memo
needs to be checked for entering an unpacked group only.  That what is remembered is what unpacking it
afresh gives is the invariant of `MemoSound`; two more facts complete it.

* A group is remembered under its own id, which is one that the table lists, for unpacking afresh looks it
  up in the table (`listed_of_unpackFresh`).
* As many groups are remembered as the options allow, and one in any case, since the memo is emptied before
  a group is entered and not after it (`memoBounded_remember`).

A request whose group does not unpack is of the first kind, and the look into the memo that unpacking ends
with finds what has just been entered, so it is never the reason why a group is missing.
-/

namespace SectorVault

namespace Archive

variable {archive : Archive} {group : UInt32} {key : Option Key}

/-! ## What a request does -/

/-- The group that a request has unpacked, and the key; nothing if no group has the name. -/
def Request.target? (table : ReferenceTable) : Request → Option (UInt32 × Option Key)
  | .unpack group key | .read group _ key | .readEntry group _ _ _ key => some (group, key)
  | .readHashed hash _ key => (table.groupHashed? hash).map fun named => (named.id, key)

theorem file_snd (archive : Archive) (group file : UInt32) (key : Option Key) :
    (archive.file group file key).2 = (archive.unpack group key).2 := by
  rw [file_eq]

/-- A request changes an archive as unpacking its group does. -/
theorem afterRequest_eq (archive : Archive) (request : Request) :
    archive.afterRequest request =
      match request.target? archive.table with
      | some (group, key) => (archive.unpack group key).2
      | none => archive := by
  cases request with
  | unpack group key => rfl
  | read group file key => exact archive.file_snd group file key
  | readEntry group file entry count key => exact archive.file_snd group file key
  | readHashed hash file key =>
    simp only [afterRequest, Request.target?]
    cases named : archive.table.groupHashed? hash with
    | none => rw [readHashed_of_unlisted named]; rfl
    | some group =>
      rw [readHashed_of_listed named]
      exact archive.file_snd group.id file key

/-- Unpacking a group leaves the archive as it is, or enters what unpacking afresh gives. -/
theorem unpack_snd_cases (archive : Archive) (group : UInt32) (key : Option Key) :
    (archive.unpack group key).2 = archive ∨
      ∃ unpacked, archive.unpackFresh group key = .ok unpacked ∧
        (archive.unpack group key).2 = archive.remember group unpacked := by
  rw [unpack_eq]
  cases archive.remembered? group key with
  | some unpacked => exact .inl rfl
  | none =>
    cases archive.unpackFresh group key with
    | ok unpacked => exact .inr ⟨unpacked, rfl, rfl⟩
    | error error => exact .inl rfl

theorem afterRequest_cases (archive : Archive) (request : Request) :
    archive.afterRequest request = archive ∨
      ∃ group key unpacked, archive.unpackFresh group key = .ok unpacked ∧
        archive.afterRequest request = archive.remember group unpacked := by
  rw [afterRequest_eq]
  cases request.target? archive.table with
  | none => exact .inl rfl
  | some target =>
    obtain ⟨group, key⟩ := target
    rcases archive.unpack_snd_cases group key with same | ⟨unpacked, unpacks, entered⟩
    · exact .inl same
    · exact .inr ⟨group, key, unpacked, unpacks, entered⟩

/-- A group that does not unpack leaves no trace. -/
theorem unpack_snd_of_error {error : ArchiveError}
    (fails : (archive.unpack group key).1 = .error error) : (archive.unpack group key).2 = archive := by
  rw [unpack_eq] at fails ⊢
  cases remembers : archive.remembered? group key with
  | some unpacked => rfl
  | none =>
    rw [remembers] at fails
    cases unpacks : archive.unpackFresh group key with
    | ok unpacked => simp [unpacks] at fails
    | error error => rfl

/-! ## How much is remembered -/

/-- The archive remembers no more groups than its options allow, or one. -/
def MemoBounded (archive : Archive) : Prop :=
  archive.memo.size ≤ max 1 archive.options.unpackedCacheSize

theorem memoBounded_fresh (number : UInt8) (table : ReferenceTable) (options : Options) :
    (fresh number table options).MemoBounded := Nat.zero_le _

/-- Whatever was remembered before, the bound holds when a group has been entered. -/
theorem memoBounded_remember (archive : Archive) (group : UInt32) (unpacked : Unpacked) :
    (archive.remember group unpacked).MemoBounded := by
  unfold MemoBounded remember
  simp only
  split
  · rename_i full
    have entered : ((∅ : Std.TreeMap UInt32 Unpacked).insert group unpacked).size ≤ _ :=
      Std.TreeMap.size_insert_le
    have nothing : (∅ : Std.TreeMap UInt32 Unpacked).size = 0 := rfl
    omega
  · rename_i room
    have entered : (archive.memo.insert group unpacked).size ≤ _ := Std.TreeMap.size_insert_le
    omega

theorem MemoBounded.after (bounded : archive.MemoBounded) (requests : List Request) :
    (archive.after requests).MemoBounded := by
  induction requests generalizing archive with
  | nil => exact bounded
  | cons request requests ih =>
    apply ih
    rcases archive.afterRequest_cases request with same | ⟨group, key, unpacked, -, entered⟩
    · rwa [same]
    · rw [entered]
      exact archive.memoBounded_remember group unpacked

/-! ## What is remembered -/

/-- A group that unpacks afresh is listed under its id, and is unpacked under the key. -/
theorem listed_of_unpackFresh {unpacked : Unpacked}
    (unpacks : archive.unpackFresh group key = .ok unpacked) :
    unpacked.group = group ∧ unpacked.key = key ∧ ∃ listed, archive.table.group? group = some listed ∧
      listed.unpackWith key .unpacking (archive.verify listed) = .ok unpacked := by
  cases listed : archive.table.group? group with
  | none =>
    rw [unpackFresh_of_unlisted listed] at unpacks
    cases unpacks
  | some found =>
    have key_eq := key_of_unpackFresh unpacks
    rw [unpackFresh_of_listed listed] at unpacks
    obtain ⟨container, files, -, -, -, same⟩ := Group.unpackWith_eq_ok_iff.1 unpacks
    refine ⟨?_, key_eq, found, rfl, unpacks⟩
    rw [same]
    exact ReferenceTable.id_of_group? listed

/-- **What an archive remembers.**  Whatever an archive has been asked for since it was made, every group
that it remembers is listed in its table under the id it is remembered by, and is what unpacking and
checking it afresh under its key gives; and no more groups are remembered than the options allow, or one.
Unpacking hands out what unpacking the group afresh under that key gives, and never reports a group as
missing that is listed.  A request that has no group unpacked, or one that does not unpack, leaves the
archive as it is. -/
theorem remembered_after (number : UInt8) (table : ReferenceTable) (options : Options)
    (requests : List Request) :
    let start := fresh number table options
    let archive := start.after requests
    (∀ group unpacked, archive.memo[group]? = some unpacked →
      unpacked.group = group ∧ ∃ listed, table.group? group = some listed ∧
        listed.unpackWith unpacked.key .unpacking (start.verify listed) = .ok unpacked) ∧
    archive.memo.size ≤ max 1 options.unpackedCacheSize ∧
    (∀ group key unpacked, (archive.unpack group key).1 = .ok unpacked →
      unpacked.group = group ∧ unpacked.key = key ∧ ∃ listed, table.group? group = some listed ∧
        listed.unpackWith key .unpacking (start.verify listed) = .ok unpacked) ∧
    (∀ group key listed, table.group? group = some listed → ∀ number missing,
      (archive.unpack group key).1 ≠ .error (.groupNotFound number missing)) ∧
    (∀ request, (∀ target ∈ request.target? table,
        ∃ error, (archive.unpack target.1 target.2).1 = .error error) →
      archive.afterRequest request = archive) := by
  intro start archive
  obtain ⟨sound, remains⟩ := (memoSound_fresh number table options).after requests
  have fresh_eq : archive.unpackFresh = start.unpackFresh := by
    rw [← unpackFresh_forget archive, remains]
    rfl
  have table_eq : archive.table = table := congrArg Archive.table remains
  have options_eq : archive.options = options := congrArg Archive.options remains
  have answers : ∀ group key, (archive.unpack group key).1 = start.unpackFresh group key := by
    intro group key
    rw [unpack_fst sound, fresh_eq]
  refine ⟨?_, ?_, ?_, ?_, ?_⟩
  · intro group unpacked entry
    have unpacks := sound group unpacked entry
    rw [fresh_eq] at unpacks
    obtain ⟨group_eq, -, listed⟩ := listed_of_unpackFresh unpacks
    exact ⟨group_eq, listed⟩
  · have bounded := (memoBounded_fresh number table options).after requests
    rw [MemoBounded, options_eq] at bounded
    exact bounded
  · intro group key unpacked unpacks
    rw [answers] at unpacks
    exact listed_of_unpackFresh unpacks
  · intro group key listed found number missing fails
    rw [answers] at fails
    obtain ⟨unlisted, -⟩ := unpackFresh_eq_groupNotFound_iff.1 fails
    cases found.symm.trans unlisted
  · intro request fails
    rw [afterRequest_eq, table_eq]
    cases targeted : request.target? table with
    | none => rfl
    | some target =>
      obtain ⟨error, fails⟩ := fails target targeted
      exact unpack_snd_of_error fails

end Archive
end SectorVault
