import Mathlib
import SectorVault.Archive.Requests
import SectorVault.Proofs.Group.Unpacking

/-!
# The memo of an archive

An archive remembers the groups it has unpacked, and what it remembers must not show.  The invariant
is that every remembered group is what unpacking it afresh, under the key it is remembered with,
would give (`MemoSound`).  Unpacking afresh looks at the table and the options only, never at the
memo, so the invariant does not refer to itself.

An operation is *transparent* if, on an archive with a sound memo, it answers what it would answer
with an empty memo, and leaves a sound memo and the rest of the archive as it was.  Every operation of
an archive goes through `unpack`, and so it is enough that `unpack` is transparent.
-/

namespace SectorVault

namespace Archive

variable {archive : Archive} {group : UInt32} {key : Option Key}

/-! ## Unpacking afresh -/

/-- An archive with everything it remembers forgotten. -/
def forget (archive : Archive) : Archive :=
  fresh archive.number archive.table archive.options

@[simp] theorem forget_fresh (number : UInt8) (table : ReferenceTable) (options : Options) :
    (fresh number table options).forget = fresh number table options := rfl

@[simp] theorem forget_remember (archive : Archive) (group : UInt32) (unpacked : Unpacked) :
    (archive.remember group unpacked).forget = archive.forget := rfl

@[simp] theorem unpackFresh_forget (archive : Archive) :
    archive.forget.unpackFresh = archive.unpackFresh := rfl

theorem unpackFresh_remember (archive : Archive) (group : UInt32) (unpacked : Unpacked) :
    (archive.remember group unpacked).unpackFresh = archive.unpackFresh := rfl

theorem key_of_unpackFresh {unpacked : Unpacked}
    (h : archive.unpackFresh group key = .ok unpacked) : unpacked.key = key := by
  unfold unpackFresh at h
  split at h
  · cases h
  · obtain ⟨_, _, -, -, -, rfl⟩ := Group.unpackWith_eq_ok_iff.1 h
    rfl

/-! ## The invariant -/

/-- Every group that is remembered is what unpacking it afresh would give. -/
def MemoSound (archive : Archive) : Prop :=
  ∀ group unpacked, archive.memo[group]? = some unpacked →
    archive.unpackFresh group unpacked.key = .ok unpacked

theorem memoSound_fresh (number : UInt8) (table : ReferenceTable) (options : Options) :
    (fresh number table options).MemoSound := by
  intro group unpacked h
  simp [fresh] at h

theorem MemoSound.remember (sound : archive.MemoSound) {unpacked : Unpacked}
    (h : archive.unpackFresh group key = .ok unpacked) :
    (archive.remember group unpacked).MemoSound := by
  intro other found entry
  rw [unpackFresh_remember]
  simp only [Archive.remember] at entry
  rw [Std.TreeMap.getElem?_insert] at entry
  split at entry
  · rename_i same
    obtain rfl := Std.LawfulEqCmp.eq_of_compare same
    cases entry
    rwa [key_of_unpackFresh h]
  · split at entry
    · simp at entry
    · exact sound other found entry

theorem unpackFresh_of_remembered (sound : archive.MemoSound) {unpacked : Unpacked}
    (h : archive.remembered? group key = some unpacked) :
    archive.unpackFresh group key = .ok unpacked := by
  unfold remembered? at h
  split at h
  · rename_i found entry
    split at h
    · rename_i same
      cases h
      rw [← same]
      exact sound group _ entry
    · cases h
  · cases h

/-! ## Looking into the memo

Unpacking ends with a look into the memo, and by then the group is always in there. -/

theorem lookUp_of_remembered {unpacked : Unpacked}
    (h : archive.remembered? group key = some unpacked) : archive.lookUp group = .ok unpacked := by
  unfold remembered? at h
  unfold lookUp
  cases entry : archive.memo[group]? with
  | none => simp [entry] at h
  | some found =>
    simp only [entry] at h ⊢
    split at h
    · rw [Option.some.inj h]
    · cases h

@[simp] theorem lookUp_remember (archive : Archive) (group : UInt32) (unpacked : Unpacked) :
    (archive.remember group unpacked).lookUp group = .ok unpacked := by
  simp [lookUp, remember]

theorem unpack_eq (archive : Archive) (group : UInt32) (key : Option Key) :
    archive.unpack group key =
      match archive.remembered? group key with
      | some unpacked => (.ok unpacked, archive)
      | none =>
        match archive.unpackFresh group key with
        | .ok unpacked => (.ok unpacked, archive.remember group unpacked)
        | .error error => (.error error, archive) := by
  unfold unpack
  cases remembers : archive.remembered? group key with
  | some unpacked =>
    simp only
    rw [lookUp_of_remembered remembers]
  | none =>
    cases archive.unpackFresh group key with
    | ok unpacked => simp only [lookUp_remember]
    | error error => rfl

/-! ## Transparent operations -/

/-- The memo does not show in what an operation answers, and the operation keeps it sound. -/
def Transparent {α : Type} (operation : Archive → Except ArchiveError α × Archive) : Prop :=
  ∀ archive : Archive, archive.MemoSound →
    (operation archive).1 = (operation archive.forget).1 ∧
      (operation archive).2.MemoSound ∧ (operation archive).2.forget = archive.forget

/-- Unpacking answers what unpacking afresh does. -/
theorem unpack_fst (sound : archive.MemoSound) (group : UInt32) (key : Option Key) :
    (archive.unpack group key).1 = archive.unpackFresh group key := by
  rw [unpack_eq]
  split
  · rename_i unpacked remembers
    rw [unpackFresh_of_remembered sound remembers]
  · split <;> rename_i h <;> rw [h]

theorem transparent_unpack (group : UInt32) (key : Option Key) :
    Transparent fun archive => archive.unpack group key := by
  intro archive sound
  have empty : archive.forget.MemoSound := memoSound_fresh _ _ _
  beta_reduce
  refine ⟨?_, ?_⟩
  · rw [unpack_fst sound, unpack_fst empty, unpackFresh_forget]
  · rw [unpack_eq]
    split
    · exact ⟨sound, rfl⟩
    · split
      · rename_i unpacked unpacks
        exact ⟨sound.remember unpacks, forget_remember archive group unpacked⟩
      · exact ⟨sound, rfl⟩

/-- The answer of a transparent operation may be put through a function that depends on nothing the
memo could change. -/
theorem Transparent.andThen {α β : Type} {operation : Archive → Except ArchiveError α × Archive}
    (transparent : Transparent operation)
    (finish : Archive → Except ArchiveError α → Except ArchiveError β)
    (blind : ∀ archive, finish archive.forget = finish archive) :
    Transparent fun archive =>
      (finish archive (operation archive).1, (operation archive).2) := by
  intro archive sound
  obtain ⟨same, kept⟩ := transparent archive sound
  exact ⟨by simp only [same, blind], kept⟩

theorem file_eq (archive : Archive) (group file : UInt32) (key : Option Key) :
    archive.file group file key =
      ((archive.unpack group key).1.bind (archive.select group file),
        (archive.unpack group key).2) := by
  unfold Archive.file
  have number : (archive.unpack group key).2.number = archive.number := by
    rw [unpack_eq]
    split
    · rfl
    · split <;> rfl
  split
  · rename_i unpacked after h
    rw [h] at number ⊢
    simp only at number
    simp only [Except.bind, select, number]
  · rename_i error after h
    rw [h]
    rfl

theorem transparent_file (group file : UInt32) (key : Option Key) :
    Transparent fun archive => archive.file group file key := by
  simp only [file_eq]
  exact (transparent_unpack group key).andThen
    (fun archive unpacked => unpacked.bind (archive.select group file)) fun _ => rfl

theorem transparent_read (group file : UInt32) (key : Option Key) :
    Transparent fun archive => archive.read group file key :=
  (transparent_file group file key).andThen (fun _ found => found.map File.data) fun _ => rfl

theorem transparent_readEntry (group file entry : UInt32) (count : UInt64) (key : Option Key) :
    Transparent fun archive => archive.readEntry group file entry count key :=
  (transparent_file group file key).andThen
    (fun _ found => found.bind fun file => (file.entry entry count).mapError .unpacking)
    fun _ => rfl

/-- A group with a name is read by its id. -/
theorem readHashed_of_listed {hash : Int32} {named : Group}
    (listed : archive.table.groupHashed? hash = some named) (file : UInt32) (key : Option Key) :
    archive.readHashed hash file key = archive.read named.id file key := by
  rw [readHashed, listed]

theorem readHashed_of_unlisted {hash : Int32} (unlisted : archive.table.groupHashed? hash = none)
    (file : UInt32) (key : Option Key) :
    archive.readHashed hash file key =
      (.error (.namedGroupNotFound archive.number hash), archive) := by
  rw [readHashed, unlisted]

theorem transparent_readHashed (hash : Int32) (file : UInt32) (key : Option Key) :
    Transparent fun archive => archive.readHashed hash file key := by
  intro archive sound
  have same : archive.forget.table.groupHashed? hash = archive.table.groupHashed? hash := rfl
  cases named : archive.table.groupHashed? hash with
  | none =>
    simp only [readHashed_of_unlisted named, readHashed_of_unlisted (same.trans named)]
    exact ⟨rfl, sound, trivial⟩
  | some group =>
    simp only [readHashed_of_listed named, readHashed_of_listed (same.trans named)]
    exact transparent_read group.id file key archive sound

/-! ## Requests -/

theorem MemoSound.afterRequest (sound : archive.MemoSound) (request : Request) :
    (archive.afterRequest request).MemoSound ∧
      (archive.afterRequest request).forget = archive.forget := by
  cases request with
  | unpack group key => exact (transparent_unpack group key archive sound).2
  | read group file key => exact (transparent_read group file key archive sound).2
  | readHashed hash file key => exact (transparent_readHashed hash file key archive sound).2
  | readEntry group file entry count key =>
    exact (transparent_readEntry group file entry count key archive sound).2

theorem MemoSound.after (sound : archive.MemoSound) (requests : List Request) :
    (archive.after requests).MemoSound ∧ (archive.after requests).forget = archive.forget := by
  induction requests generalizing archive with
  | nil => exact ⟨sound, rfl⟩
  | cons request requests ih =>
    obtain ⟨kept, remains⟩ := sound.afterRequest request
    obtain ⟨keptAfter, remainsAfter⟩ := ih kept
    exact ⟨keptAfter, remainsAfter.trans remains⟩

/-- Whatever an archive has been asked for since it was made, an operation answers what it answers at
the start. -/
theorem Transparent.fst_after {α : Type} {operation : Archive → Except ArchiveError α × Archive}
    (transparent : Transparent operation) (number : UInt8) (table : ReferenceTable)
    (options : Options) (requests : List Request) :
    (operation ((fresh number table options).after requests)).1 =
      (operation (fresh number table options)).1 := by
  obtain ⟨sound, remains⟩ := (memoSound_fresh number table options).after requests
  rw [(transparent _ sound).1, remains, forget_fresh]

end Archive

end SectorVault
