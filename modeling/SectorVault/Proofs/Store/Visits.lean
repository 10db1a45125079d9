import Mathlib
import SectorVault.Proofs.Outcomes
import SectorVault.Proofs.Store.Holding

/-!
# Which sectors a read visits

Reading a record keeps no account of the sectors it has been to, and nothing in a chain of pointers
says that it does not come back to one of them.  What keeps it from running in a circle is the number
of the part in every header: the walk only goes on from a sector whose header carries the number of the
part that is expected there.  So the headers of the sectors of a whole record are numbered from zero on
(`IsRecordChain.parts_eq`), and as long as the numbers fit their two bytes, no sector is met twice
(`IsRecordChain.nodup`).  The header also names the group and its archive, which keeps the chains of two
records apart (`IsRecordChain.disjoint`); but it does so in a place that depends on the layout of the
header, so this takes two owners whose headers are laid out alike.

A chain of distinct sectors reaches as far into the file as it has sectors, and from there follows that a
record is no longer than the file (`IsRecordChain.byteLength_le`).

Locators from an index file have three bytes for the length, which is far too little for the numbers of
the parts to run over (`partCount_le_of_narrow`).
-/

namespace SectorVault
namespace DataFile

/-! ## The walk -/

variable (file : DataFile) (owner : Owner)

/-- The sectors that `followFrom` comes to on its way, in order, a sector that does not read included. -/
def visitedFrom (length : Nat) : Nat → Nat → Nat → List Nat
  | 0, _, _ => []
  | count + 1, i, sector =>
    match file.readPart owner length i sector with
    | .error _ => [sector]
    | .ok (_, next) => sector :: visitedFrom length count (i + 1) next

/-- The sectors that reading the record of a locator visits. -/
def visited (locator : Locator) : List Nat :=
  if file.holds locator then
    file.visitedFrom owner locator.byteLength (partCount owner locator.byteLength) 0
      locator.startSector
  else []

/-- The sector that a sector points to, taken as one of the owner's. -/
def pointed (sector : Nat) : Nat := (file.headerAt owner sector).nextSector

/-- A locator points to a sector of the file, and its record is read. -/
structure Yields (locator : Locator) (bytes : Bytes) : Prop where
  nonzero : locator.startSector ≠ 0
  le_count : locator.startSector ≤ file.sectorCount
  read : file.read owner locator = .ok bytes

variable {file owner} {locator : Locator} {bytes : Bytes} {sectors : List Nat}

theorem visitedFrom_of_trail {length i sector next : Nat}
    (trail : file.Trail owner length i sector sectors next) :
    file.visitedFrom owner length sectors.length i sector = sectors := by
  induction trail with
  | stop i sector => rfl
  | step inOrder rest ih =>
    rw [List.length_cons, visitedFrom, readPart_of_inOrder inOrder]
    simp only [ih]

theorem Yields.holds (yields : file.Yields owner locator bytes) : file.holds locator = true := by
  simp [DataFile.holds, yields.nonzero, yields.le_count]

/-- A record that is read is in order in the sectors that the read visits. -/
theorem Yields.isRecordChain (yields : file.Yields owner locator bytes) :
    file.IsRecordChain owner locator (file.visited owner locator) := by
  have present := yields.holds
  rcases exists_isRecordChain_or_breaksWith file owner locator with
    ⟨sectors, chain⟩ | ⟨sectors, error, breaks⟩
  · obtain ⟨next, trail⟩ := chain.exists_trail
    have walked := visitedFrom_of_trail trail
    rw [chain.count] at walked
    rw [visited, if_pos present, walked]
    exact chain
  · have failed := yields.read
    rw [read_of_breaksWith present breaks] at failed
    cases failed

theorem Yields.bytes_eq (yields : file.Yields owner locator bytes) :
    bytes = (file.partsOf owner locator.byteLength 0 (file.visited owner locator)).flatten := by
  have ok := read_of_isRecordChain yields.holds yields.isRecordChain
  rw [yields.read, Except.ok.injEq] at ok
  exact ok

theorem Yields.of_holds (present : file.holds locator = true)
    (read : file.read owner locator = .ok bytes) : file.Yields owner locator bytes := by
  have inFile : locator.startSector ≠ 0 ∧ locator.startSector ≤ file.sectorCount := by
    simpa [DataFile.holds] using present
  exact ⟨inFile.1, inFile.2, read⟩

/-! ## One chain -/

theorem IsRecordChain.parts_eq (chain : file.IsRecordChain owner locator sectors) :
    sectors.map (fun sector => (file.headerAt owner sector).part.toNat) =
      (List.range sectors.length).map (· % 2 ^ 16) := by
  apply List.ext_getElem
  · simp
  · intro i h _
    have named := (chain.inOrder i (by simpa using h)).part_eq
    simpa using named

theorem IsRecordChain.nodup (chain : file.IsRecordChain owner locator sectors)
    (span : sectors.length ≤ 2 ^ 16) : sectors.Nodup := by
  have numbers : (List.range sectors.length).map (· % 2 ^ 16) = List.range sectors.length := by
    refine (List.map_congr_left ?_).trans (List.map_id _)
    intro i h
    exact Nat.mod_eq_of_lt (Nat.lt_of_lt_of_le (List.mem_range.1 h) span)
  refine List.Nodup.of_map (fun sector => (file.headerAt owner sector).part.toNat) ?_
  rw [chain.parts_eq, numbers]
  exact List.nodup_range

/-- The sectors of a chain are met by going from pointer to pointer. -/
theorem IsOpening.getElem_eq_iterate {start : Nat} (opening : file.IsOpening owner start sectors)
    (i : Nat) (h : i < sectors.length) : sectors[i] = (file.pointed owner)^[i] start := by
  induction i with
  | zero =>
    apply opening.head
    rw [List.head?_eq_getElem?, List.getElem?_eq_getElem h]
    rfl
  | succ i ih =>
    have linked := List.isChain_iff_getElem.1 opening.linked i h
    rw [Function.iterate_succ_apply', ← ih (by omega), pointed]
    exact linked

/-- Among `n` distinct sectors of which none is the first of the file, one is the `n`-th or beyond. -/
theorem exists_length_le_of_nodup (distinct : sectors.Nodup) (positive : ∀ s ∈ sectors, s ≠ 0)
    (nonempty : sectors ≠ []) : ∃ s ∈ sectors, sectors.length ≤ s := by
  by_contra below
  push Not at below
  have within : sectors ⊆ List.range' 1 (sectors.length - 1) := by
    intro s h
    have lower := positive s h
    have upper := below s h
    rw [List.mem_range'_1]
    omega
  have few := (distinct.subperm within).length_le
  rw [List.length_range'] at few
  have some_sector := List.length_pos_iff.2 nonempty
  omega

/-- A record whose sectors are distinct is no longer than the file. -/
theorem IsRecordChain.byteLength_le (chain : file.IsRecordChain owner locator sectors)
    (distinct : sectors.Nodup) : locator.byteLength ≤ file.bytes.size := by
  have enough := length_le_partCount_mul owner locator.byteLength
  rw [← chain.count] at enough
  by_cases empty : sectors = []
  · rw [empty, List.length_nil, Nat.zero_mul] at enough
    omega
  have positive : ∀ sector ∈ sectors, sector ≠ 0 := by
    intro sector h
    obtain ⟨i, inside, rfl⟩ := List.getElem_of_mem h
    exact (chain.inOrder i inside).present
  obtain ⟨far, h, reach⟩ := exists_length_le_of_nodup distinct positive empty
  obtain ⟨i, inside, rfl⟩ := List.getElem_of_mem h
  have inFile := (chain.inOrder i inside).inFile
  have size := owner.headerSize_add_payloadSize
  -- all parts but the one in the far sector take at most a sector each, and lie before it
  have others : locator.byteLength ≤ (sectors.length - 1) * owner.payloadSize +
      min owner.payloadSize (locator.byteLength - i * owner.payloadSize) := by
    have earlier : i * owner.payloadSize ≤ (sectors.length - 1) * owner.payloadSize :=
      Nat.mul_le_mul_right _ (by omega)
    have all : (sectors.length - 1) * owner.payloadSize + owner.payloadSize =
        sectors.length * owner.payloadSize := by
      rw [← Nat.succ_mul, Nat.succ_eq_add_one, Nat.sub_add_cancel (by omega)]
    omega
  have before : (sectors.length - 1) * owner.payloadSize ≤ Owner.sectorSize * sectors[i] := by
    rw [Nat.mul_comm Owner.sectorSize]
    exact Nat.mul_le_mul (by omega) (by omega)
  omega

/-! ## Two chains -/

variable {other : Owner} {locator' : Locator} {sectors' : List Nat}

theorem headerAt_congr (alike : owner.isExtended = other.isExtended) (sector : Nat) :
    file.headerAt owner sector = file.headerAt other sector := by
  simp only [headerAt, Owner.headerOf, Owner.headerSize, alike]

theorem IsRecordChain.owner_eq_of_mem (chain : file.IsRecordChain owner locator sectors)
    {sector : Nat} (h : sector ∈ sectors) :
    (file.headerAt owner sector).owner = owner.group ∧
      (file.headerAt owner sector).archive = owner.archive := by
  obtain ⟨i, inside, rfl⟩ := List.getElem_of_mem h
  have inOrder := chain.inOrder i inside
  exact ⟨inOrder.owner_eq, inOrder.archive_eq⟩

theorem IsRecordChain.disjoint (chain : file.IsRecordChain owner locator sectors)
    (chain' : file.IsRecordChain other locator' sectors')
    (alike : owner.isExtended = other.isExtended) (different : owner ≠ other) :
    sectors.Disjoint sectors' := by
  intro sector h h'
  apply different
  obtain ⟨group, archive⟩ := chain.owner_eq_of_mem h
  obtain ⟨group', archive'⟩ := chain'.owner_eq_of_mem h'
  rw [← headerAt_congr alike] at group' archive'
  cases owner
  cases other
  rw [Owner.mk.injEq]
  exact ⟨archive.symm.trans archive', group.symm.trans group'⟩

end DataFile

/-! ## Locators of index files -/

theorem IndexFile.byteLength_lt {index : IndexFile} {group : UInt32} {locator : Locator}
    (found : index.locator group = .ok locator) : locator.byteLength < 2 ^ 24 := by
  unfold IndexFile.locator at found
  split at found
  · cases found
    have three := bigEndian_lt ((slice index.bytes (IndexFile.locatorSize * group.toNat)
      (IndexFile.locatorSize * (group.toNat + 1))).take 3)
    refine Nat.lt_of_lt_of_le three ?_
    exact Nat.pow_le_pow_right (by omega) (List.length_take_le 3 _)
  · cases found

theorem DiskStore.read_eq {disk : DiskStore} {archive : UInt8} {group : UInt32} {index : IndexFile}
    {locator : Locator} (opened : disk.index archive = .ok index)
    (found : index.locator group = .ok locator) :
    disk.read archive group = (disk.data.read ⟨archive, group⟩ locator).mapError .sector := by
  simp only [DiskStore.read, opened, found, bind, Except.bind, Except.mapError]

namespace DataFile

theorem partCount_le_of_narrow (owner : Owner) {length : Nat} (narrow : length < 2 ^ 24) :
    partCount owner length ≤ 32897 := by
  unfold partCount Owner.payloadSize Owner.headerSize Owner.sectorSize
  split <;> omega

/-! ## Whole reads -/

/-- **Chains neither loop nor cross.**  As long as the parts of a record can be numbered, the sectors that
reading it visits are distinct: a record whose pointers lead back to a sector is not read, and no record is
longer than the file.  The parts of a record that an index file points to can always be numbered.  And the
records of two owners with one layout of headers have no sector in common. -/
theorem visited_nodup_and_disjoint (file : DataFile) :
    (∀ owner locator bytes, file.Yields owner locator bytes →
      partCount owner locator.byteLength ≤ 65536 →
        (file.visited owner locator).Nodup ∧
        bytes = (file.partsOf owner locator.byteLength 0 (file.visited owner locator)).flatten ∧
        locator.byteLength ≤ file.bytes.size) ∧
    (∀ owner locator i j, partCount owner locator.byteLength ≤ 65536 →
      i < j → j < partCount owner locator.byteLength →
      (file.pointed owner)^[i] locator.startSector = (file.pointed owner)^[j] locator.startSector →
        ∀ bytes, ¬ file.Yields owner locator bytes) ∧
    (∀ (disk : DiskStore) archive group index locator, disk.data = file →
      disk.index archive = .ok index → index.locator group = .ok locator →
        partCount ⟨archive, group⟩ locator.byteLength ≤ 32897 ∧
        (∀ i < partCount ⟨archive, group⟩ locator.byteLength, (UInt16.ofNat i).toNat = i) ∧
        (file.holds locator = true → ∀ bytes, disk.read archive group = .ok bytes →
          (file.visited ⟨archive, group⟩ locator).Nodup ∧ locator.byteLength ≤ file.bytes.size)) ∧
    (∀ owner other locator locator' bytes bytes', file.Yields owner locator bytes →
      file.Yields other locator' bytes' → owner.isExtended = other.isExtended → owner ≠ other →
        (file.visited owner locator).Disjoint (file.visited other locator')) := by
  have distinct : ∀ {owner locator bytes}, file.Yields owner locator bytes →
      partCount owner locator.byteLength ≤ 65536 → (file.visited owner locator).Nodup := by
    intro owner locator bytes yields span
    have chain := yields.isRecordChain
    exact chain.nodup (chain.count ▸ span)
  refine ⟨?_, ?_, ?_, ?_⟩
  · intro owner locator bytes yields span
    have nodup := distinct yields span
    exact ⟨nodup, yields.bytes_eq, yields.isRecordChain.byteLength_le nodup⟩
  -- a circle would put one sector at two places of a list without repetitions
  · intro owner locator i j span less inside same bytes yields
    have chain := yields.isRecordChain
    rw [← chain.count] at inside
    have here := chain.opening.getElem_eq_iterate i (by omega)
    have there := chain.opening.getElem_eq_iterate j inside
    have met : (file.visited owner locator)[i] = (file.visited owner locator)[j] := by
      rw [here, there, same]
    have equal : i = j := (distinct yields span).getElem_inj_iff.1 met
    omega
  · rintro disk archive group index locator rfl opened found
    have few := partCount_le_of_narrow ⟨archive, group⟩ (IndexFile.byteLength_lt found)
    refine ⟨few, ?_, ?_⟩
    · intro i inside
      rw [UInt16.toNat_ofNat', Nat.mod_eq_of_lt (by omega)]
    · intro present bytes ok
      rw [DiskStore.read_eq opened found, mapError_eq_ok] at ok
      have yields := Yields.of_holds present ok
      have nodup := distinct yields (by omega)
      exact ⟨nodup, yields.isRecordChain.byteLength_le nodup⟩
  · intro owner other locator locator' bytes bytes' yields yields' alike different
    exact yields.isRecordChain.disjoint yields'.isRecordChain alike different

/-- A file in which the first of two records is in the sectors around that of the second one. -/
def interleaved : DataFile where
  bytes := (List.replicate 520 0 ++
    (Owner.encodeHeader ⟨2, 7⟩ 0 3 ++ List.replicate 512 10) ++
    (Owner.encodeHeader ⟨2, 8⟩ 0 0 ++ List.replicate 512 20) ++
    (Owner.encodeHeader ⟨2, 7⟩ 1 0 ++ List.replicate 88 30)).toArray

theorem interleaved_holds_around : interleaved.HoldsRecord ⟨2, 7⟩
    (List.replicate 512 10 ++ List.replicate 88 30) [1, 3] where
  count := by decide +kernel
  present := by decide
  narrow := by decide
  inFile := by decide +kernel
  header := by decide +kernel
  payload := by
    simp only [payloadAt, interleaved, slice_toArray]
    decide +kernel

theorem interleaved_holds_between : interleaved.HoldsRecord ⟨2, 8⟩ (List.replicate 5 20) [2] where
  count := by decide
  present := by decide
  narrow := by decide
  inFile := by decide +kernel
  header := by decide +kernel
  payload := by
    simp only [payloadAt, interleaved, slice_toArray]
    decide +kernel

/-- A file with a sector that points to itself. -/
def looping : DataFile where
  bytes := (List.replicate 520 0 ++
    (Owner.encodeHeader ⟨2, 7⟩ 0 1 ++ List.replicate 512 10)).toArray

def interleavedIndex : IndexFile where
  archive := 2
  bytes := Array.replicate 42 0 ++ #[0, 2, 88, 0, 0, 1, 0, 0, 5, 0, 0, 2]

/-- A store in which the two records of `interleaved` are the groups 7 and 8 of archive 2. -/
def interleavedStore : DiskStore where
  data := interleaved
  master := ⟨255, #[]⟩
  indexes := [interleavedIndex]

theorem visited_interleaved :
    interleaved.Yields ⟨2, 7⟩ ⟨1, 600⟩ (List.replicate 512 10 ++ List.replicate 88 30) ∧
      interleaved.Yields ⟨2, 8⟩ ⟨2, 5⟩ (List.replicate 5 20) ∧
      (interleaved.visited ⟨2, 7⟩ ⟨1, 600⟩).Nodup ∧
      (interleaved.visited ⟨2, 7⟩ ⟨1, 600⟩).Disjoint (interleaved.visited ⟨2, 8⟩ ⟨2, 5⟩) ∧
      (∀ bytes, ¬ looping.Yields ⟨2, 7⟩ ⟨1, 600⟩ bytes) ∧
      interleavedStore.read 2 8 = .ok (List.replicate 5 20) ∧
      (interleaved.visited ⟨2, 8⟩ ⟨2, 5⟩).Nodup := by
  have count : interleaved.sectorCount = 3 := by decide +kernel
  have long := interleaved_holds_around.read
  have short := interleaved_holds_between.read
  rw [List.length_append, List.length_replicate, List.length_replicate] at long
  rw [List.length_replicate] at short
  have around : interleaved.Yields ⟨2, 7⟩ ⟨1, 600⟩ _ := ⟨by decide, by rw [count]; decide, long⟩
  have between : interleaved.Yields ⟨2, 8⟩ ⟨2, 5⟩ _ := ⟨by decide, by rw [count]; decide, short⟩
  obtain ⟨distinct, -, stored, apart⟩ := visited_nodup_and_disjoint interleaved
  have nodup := (distinct _ _ _ around (by decide)).1
  have disjoint := apart _ _ _ _ _ _ around between (by decide) (by decide)
  have never := (visited_nodup_and_disjoint looping).2.1 ⟨2, 7⟩ ⟨1, 600⟩ 0 1 (by decide)
    (by decide) (by decide) (by decide +kernel)
  have opened : interleavedStore.index 2 = .ok interleavedIndex := rfl
  have found : interleavedIndex.locator 8 = .ok ⟨2, 5⟩ := by decide +kernel
  have read : interleavedStore.read 2 8 = .ok (List.replicate 5 20) := by
    rw [DiskStore.read_eq opened found]
    exact congrArg (Except.mapError StoreError.sector) short
  have nodup' := ((stored _ _ _ _ _ rfl opened found).2.2 between.holds _ read).1
  exact ⟨around, between, nodup, disjoint, never, read, nodup'⟩

end DataFile
end SectorVault
