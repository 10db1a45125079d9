import Mathlib
import SectorVault.Proofs.Archive.Memo
import SectorVault.Proofs.Group.Unpacking

/-!
# What an archive answers

All that is read from an archive is read from what a group unpacks to, and since the memo does not show,
that is what unpacking it afresh gives.  So an archive that has answered any requests hands out a file
exactly if the group unpacks afresh and the file is the first one of its id in there.  A group that is
asked for by name is looked up twice: the name gives an id, and the group that is unpacked is the one
which that id leads to.
-/

namespace SectorVault
namespace Archive

theorem select_eq_ok_iff {archive : Archive} {group file : UInt32} {unpacked : Unpacked}
    {found : File} :
    archive.select group file unpacked = .ok found ↔ unpacked.file? file = some found := by
  unfold select
  cases unpacked.file? file <;> simp

theorem read_fst (archive : Archive) (group file : UInt32) (key : Option Key) :
    (archive.read group file key).1 = (archive.file group file key).1.map File.data := rfl

theorem readEntry_fst (archive : Archive) (group file entry : UInt32) (count : UInt64)
    (key : Option Key) :
    (archive.readEntry group file entry count key).1 =
      (archive.file group file key).1.bind fun file =>
        (file.entry entry count).mapError .unpacking := rfl

variable (number : UInt8) (table : ReferenceTable) (options : Options) (requests : List Request)

theorem unpack_after (group : UInt32) (key : Option Key) :
    (((fresh number table options).after requests).unpack group key).1 =
      (fresh number table options).unpackFresh group key := by
  rw [(transparent_unpack group key).fst_after, unpack_fst (memoSound_fresh _ _ _)]

theorem file_after_eq_ok_iff {group file : UInt32} {key : Option Key} {found : File} :
    (((fresh number table options).after requests).file group file key).1 = .ok found ↔
      ∃ unpacked, (fresh number table options).unpackFresh group key = .ok unpacked ∧
        unpacked.file? file = some found := by
  rw [file_eq]
  simp only [bind_eq_ok, unpack_after, select_eq_ok_iff]

theorem read_after_eq_ok_iff {group file : UInt32} {key : Option Key} {data : Bytes} :
    (((fresh number table options).after requests).read group file key).1 = .ok data ↔
      ∃ unpacked, (fresh number table options).unpackFresh group key = .ok unpacked ∧
        ∃ found, unpacked.file? file = some found ∧ found.data = data := by
  rw [read_fst, map_eq_ok]
  simp only [file_after_eq_ok_iff]
  constructor
  · rintro ⟨found, ⟨unpacked, unpacks, first⟩, same⟩
    exact ⟨unpacked, unpacks, found, first, same⟩
  · rintro ⟨unpacked, unpacks, found, first, same⟩
    exact ⟨found, ⟨unpacked, unpacks, first⟩, same⟩

/-- An entry is read out of the file that its group unpacks to. -/
theorem readEntry_after {group file : UInt32} {key : Option Key} {unpacked : Unpacked} {found : File}
    (unpacks : (fresh number table options).unpackFresh group key = .ok unpacked)
    (first : unpacked.file? file = some found) (entry : UInt32) (count : UInt64) :
    (((fresh number table options).after requests).readEntry group file entry count key).1 =
      (found.entry entry count).mapError .unpacking := by
  rw [readEntry_fst, (file_after_eq_ok_iff number table options requests).2 ⟨unpacked, unpacks, first⟩]
  rfl

theorem readEntry_after_eq_ok_iff {group file entry : UInt32} {count : UInt64} {key : Option Key}
    {answer : Entry} :
    (((fresh number table options).after requests).readEntry group file entry count key).1 =
        .ok answer ↔
      ∃ unpacked, (fresh number table options).unpackFresh group key = .ok unpacked ∧
        ∃ found, unpacked.file? file = some found ∧ found.entry entry count = .ok answer := by
  rw [readEntry_fst, bind_eq_ok]
  simp only [file_after_eq_ok_iff, mapError_eq_ok]
  constructor
  · rintro ⟨found, ⟨unpacked, unpacks, first⟩, same⟩
    exact ⟨unpacked, unpacks, found, first, same⟩
  · rintro ⟨unpacked, unpacks, found, first, same⟩
    exact ⟨found, ⟨unpacked, unpacks, first⟩, same⟩

theorem readHashed_after_eq_ok_iff {hash : Int32} {file : UInt32} {key : Option Key} {data : Bytes} :
    (((fresh number table options).after requests).readHashed hash file key).1 = .ok data ↔
      ∃ named, table.groupHashed? hash = some named ∧
        ∃ unpacked, (fresh number table options).unpackFresh named.id key = .ok unpacked ∧
          ∃ found, unpacked.file? file = some found ∧ found.data = data := by
  have remains := ((memoSound_fresh number table options).after requests).2
  have table_eq : ((fresh number table options).after requests).table = table :=
    congrArg Archive.table remains
  unfold readHashed
  rw [table_eq]
  cases table.groupHashed? hash with
  | none => simp
  | some named => simp [read_after_eq_ok_iff]

end Archive
end SectorVault
