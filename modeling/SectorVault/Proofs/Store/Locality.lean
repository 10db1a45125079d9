import Mathlib
import SectorVault.Proofs.Store.Layout
import SectorVault.Proofs.Store.Visits

/-!
# What a record that is read depends on

A read looks at three things: the headers of the sectors it visits, as many bytes behind each header as the
record has left, and the number of sectors of the file, which no pointer may exceed.  So if a record is read
from one file, it is read from every other file that has no fewer sectors and has the same bytes in these
places (`Yields.of_sameRecord`).  The end of the file is not one of the three: a file in which the last byte
that is needed is the same byte is long enough (`PartInOrder.of_samePart`).  Bytes behind the file and bytes
of sectors that are not visited are elsewhere, so they may be anything.

A record that is read for fewer bytes needs fewer sectors, and less of the last one of them.  Every part
that was in order for the greater length is in order for the smaller one (`PartInOrder.shorten`), so the
shorter read walks the same way and stops earlier.  What it comes to is the front of the record, since only
the last part of a record is ever cut short (`Trail.flatten_partsOf`).
-/

namespace SectorVault

theorem Owner.headerSize_pos (owner : Owner) : 0 < owner.headerSize := by
  unfold headerSize
  split <;> omega

namespace DataFile

variable {file other : DataFile} {owner : Owner} {locator : Locator} {bytes : Bytes}
  {sectors : List Nat} {length i sector : Nat}

/-! ## The same parts -/

variable (file other owner) in
/-- Another file has the same bytes where a sector has its header and part `i` of a record of `length`
bytes. -/
def SamePart (length i sector : Nat) : Prop :=
  ∀ offset, Owner.sectorSize * sector ≤ offset →
    offset < Owner.sectorSize * sector + owner.headerSize +
      min owner.payloadSize (length - i * owner.payloadSize) →
    other.bytes[offset]? = file.bytes[offset]?

variable (file other owner locator) in
/-- Another file has the same bytes where the record of a locator is read. -/
def SameRecord : Prop :=
  ∀ i (h : i < (file.visited owner locator).length),
    file.SamePart other owner locator.byteLength i (file.visited owner locator)[i]

theorem SamePart.headerAt_eq (same : file.SamePart other owner length i sector) :
    other.headerAt owner sector = file.headerAt owner sector := by
  have bytes := slice_congr fun offset behind before => same offset behind (Nat.lt_add_right _ before)
  simp only [headerAt, bytes]

theorem SamePart.payloadAt_eq (same : file.SamePart other owner length i sector) :
    other.payloadAt owner length i sector = file.payloadAt owner length i sector :=
  slice_congr fun offset behind before => same offset (by omega) before

theorem PartInOrder.of_samePart (inOrder : file.PartInOrder owner length i sector)
    (same : file.SamePart other owner length i sector)
    (grown : file.sectorCount ≤ other.sectorCount) : other.PartInOrder owner length i sector := by
  have header := same.headerAt_eq
  have inFile : Owner.sectorSize * sector + owner.headerSize +
      min owner.payloadSize (length - i * owner.payloadSize) ≤ other.bytes.size := by
    -- the last byte that is needed is in the one file, so it is in the other
    have inFile := inOrder.inFile
    have headerSize_pos := owner.headerSize_pos
    obtain ⟨last, stop⟩ : ∃ last, Owner.sectorSize * sector + owner.headerSize +
        min owner.payloadSize (length - i * owner.payloadSize) = last + 1 :=
      Nat.exists_eq_succ_of_ne_zero (by omega)
    have found := same last (by omega) (by omega)
    rw [Array.getElem?_eq_getElem (show last < file.bytes.size by omega)] at found
    rw [stop]
    exact (Array.getElem?_eq_some_iff.1 found).1
  refine ⟨inOrder.present, inFile, ?_, ?_, ?_, ?_⟩
  · rw [header]
    exact inOrder.owner_eq
  · rw [header]
    exact inOrder.archive_eq
  · rw [header]
    exact inOrder.part_eq
  · rw [header]
    exact inOrder.next_le.trans grown

/-! ## The same chain -/

theorem IsRecordChain.of_sameParts (chain : file.IsRecordChain owner locator sectors)
    (same : ∀ i (h : i < sectors.length),
      file.SamePart other owner locator.byteLength i sectors[i])
    (grown : file.sectorCount ≤ other.sectorCount) :
    other.IsRecordChain owner locator sectors := by
  refine ⟨chain.count, ⟨chain.opening.head, ?_⟩, ?_⟩
  · refine List.isChain_iff_getElem.2 fun i h => ?_
    rw [(same i (by omega)).headerAt_eq]
    exact List.isChain_iff_getElem.1 chain.opening.linked i h
  · intro i h
    exact (chain.inOrder i h).of_samePart (same i h) grown

theorem partsOf_congr (same : ∀ i (h : i < sectors.length), file.SamePart other owner length i sectors[i]) :
    other.partsOf owner length 0 sectors = file.partsOf owner length 0 sectors := by
  refine List.ext_getElem (by simp [partsOf]) fun i h _ => ?_
  simp only [partsOf, List.length_map, List.length_zipIdx] at h
  simpa [partsOf] using (same i h).payloadAt_eq

/-- A record is read from another file along the same sectors, if it is the same there. -/
theorem Yields.of_sameRecord (yields : file.Yields owner locator bytes)
    (same : file.SameRecord other owner locator)
    (grown : file.sectorCount ≤ other.sectorCount) : other.Yields owner locator bytes := by
  have le_count := yields.le_count.trans grown
  have present : other.holds locator = true := by simp [DataFile.holds, yields.nonzero, le_count]
  have chain := yields.isRecordChain.of_sameParts same grown
  refine ⟨yields.nonzero, le_count, ?_⟩
  rw [read_of_isRecordChain present chain, partsOf_congr same, ← yields.bytes_eq]

/-! ## Bytes elsewhere -/

/-- The bytes of a part are within its sector. -/
theorem lt_sector_of_part {offset : Nat}
    (before : offset < Owner.sectorSize * sector + owner.headerSize +
      min owner.payloadSize (length - i * owner.payloadSize)) :
    offset < Owner.sectorSize * (sector + 1) := by
  have sizes := owner.headerSize_add_payloadSize
  rw [Nat.mul_succ]
  omega

/-- A record does not depend on what is behind the end of the file. -/
theorem Yields.append (yields : file.Yields owner locator bytes) {extra : Array UInt8}
    (countable : (file.bytes ++ extra).size / Owner.sectorSize < 2 ^ 32) :
    DataFile.Yields ⟨file.bytes ++ extra⟩ owner locator bytes := by
  refine yields.of_sameRecord (fun i h offset _ before => ?_) ?_
  · have inFile := (yields.isRecordChain.inOrder i h).inFile
    exact Array.getElem?_append_left (by omega)
  · have fewer : file.bytes.size / Owner.sectorSize ≤ (file.bytes ++ extra).size / Owner.sectorSize :=
      Nat.div_le_div_right (by simp)
    have word : UInt32.size = 2 ^ 32 := rfl
    unfold sectorCount
    rw [Nat.mod_eq_of_lt (by omega), Nat.mod_eq_of_lt (by omega)]
    exact fewer

/-- Writes bytes over a file, from the start of a sector on. -/
def rewrite (file : DataFile) (sector : Nat) (content : Bytes) : DataFile where
  bytes := (Piece.writeOver file.bytes.toList ⟨Owner.sectorSize * sector, content⟩).toArray

section Rewrite

variable {content : Bytes}
  (inside : Owner.sectorSize * sector + content.length ≤ file.bytes.size)

include inside

theorem sectorCount_rewrite : (file.rewrite sector content).sectorCount = file.sectorCount := by
  have length := @Piece.length_writeOver file.bytes.toList ⟨Owner.sectorSize * sector, content⟩ inside
  simp only [sectorCount, rewrite, List.size_toArray, length, Array.length_toList]

/-- The other sectors stay as they are. -/
theorem getElem?_rewrite_of_outside (fits : content.length ≤ Owner.sectorSize) {offset : Nat}
    (outside : offset < Owner.sectorSize * sector ∨ Owner.sectorSize * (sector + 1) ≤ offset) :
    (file.rewrite sector content).bytes[offset]? = file.bytes[offset]? := by
  have stop : Owner.sectorSize * sector + content.length ≤ Owner.sectorSize * (sector + 1) := by
    rw [Nat.mul_succ]
    omega
  have beside := @Piece.getElem?_writeOver_of_outside file.bytes.toList
    ⟨Owner.sectorSize * sector, content⟩ offset inside (outside.imp_right stop.trans)
  rw [rewrite, List.getElem?_toArray, beside, Array.getElem?_toList]

/-- A record does not depend on the sectors that reading it does not visit. -/
theorem Yields.rewrite (yields : file.Yields owner locator bytes)
    (unvisited : sector ∉ file.visited owner locator) (fits : content.length ≤ Owner.sectorSize) :
    (file.rewrite sector content).Yields owner locator bytes := by
  refine yields.of_sameRecord (fun i h offset behind before => ?_) (sectorCount_rewrite inside).ge
  refine getElem?_rewrite_of_outside inside fits ?_
  have below := lt_sector_of_part before
  have other : (file.visited owner locator)[i] ≠ sector := by
    intro same
    exact unvisited (same ▸ List.getElem_mem h)
  rcases Nat.lt_or_gt_of_ne other with less | greater
  · left
    exact below.trans_le (Nat.mul_le_mul_left _ less)
  · right
    exact (Nat.mul_le_mul_left _ greater).trans behind

end Rewrite

/-! ## Shorter reads -/

theorem PartInOrder.shorten (inOrder : file.PartInOrder owner length i sector) {length' : Nat}
    (shorter : length' ≤ length) : file.PartInOrder owner length' i sector := by
  refine { inOrder with inFile := ?_ }
  have inFile := inOrder.inFile
  omega

theorem partCount_mono (owner : Owner) {length' : Nat} (shorter : length' ≤ length) :
    partCount owner length' ≤ partCount owner length := by
  unfold partCount
  exact Nat.div_le_div_right (by omega)

/-- A shorter read walks along the first sectors of the chain. -/
theorem IsRecordChain.shorten (chain : file.IsRecordChain owner locator sectors)
    (shorter : length ≤ locator.byteLength) :
    file.IsRecordChain owner ⟨locator.startSector, length⟩
      (sectors.take (partCount owner length)) := by
  have fewer := partCount_mono owner shorter
  refine ⟨?_, ⟨?_, chain.opening.linked.take _⟩, ?_⟩
  · rw [List.length_take, chain.count]
    exact min_eq_left fewer
  · intro sector first
    refine chain.opening.head sector ?_
    rw [List.head?_take] at first
    split at first
    · cases first
    · exact first
  · intro i h
    rw [List.getElem_take]
    exact (chain.inOrder i (by rw [List.length_take] at h; omega)).shorten shorter

/-- A record that is read along a chain is the front of what the sectors have. -/
theorem IsRecordChain.flatten_partsOf (chain : file.IsRecordChain owner locator sectors) :
    (file.partsOf owner locator.byteLength 0 sectors).flatten =
      (sectors.map (file.bodyAt owner)).flatten.take locator.byteLength := by
  obtain ⟨next, trail⟩ := chain.exists_trail
  rw [trail.flatten_partsOf, Nat.zero_mul, Nat.sub_zero]

theorem Yields.shorten (yields : file.Yields owner locator bytes)
    (shorter : length ≤ locator.byteLength) :
    file.Yields owner ⟨locator.startSector, length⟩ (bytes.take length) := by
  have chain := yields.isRecordChain
  have front := chain.shorten shorter
  have present : file.holds ⟨locator.startSector, length⟩ = true := yields.holds
  refine .of_holds present ?_
  rw [read_of_isRecordChain present front, front.flatten_partsOf, yields.bytes_eq,
    chain.flatten_partsOf, List.take_take, min_eq_left shorter]
  -- the first sectors alone have enough for the shorter read
  have enough := front.length_parts
  rw [front.flatten_partsOf, List.length_take] at enough
  have whole := List.take_append_drop (partCount owner length) (file.visited owner locator)
  conv_rhs => rw [← whole, List.map_append, List.flatten_append]
  rw [List.take_append_of_le_length (by simpa using enough)]

/-! ## Whole reads -/

/-- **A record that is read depends only on its own sectors.**  It is read just the same from every file that
has no fewer sectors and has the same bytes where the record is read; so also from a file that has grown,
and from one in which a sector that is not visited has been rewritten.  And a read of fewer bytes gives the
front of the record. -/
theorem read_depends_on_visited (yields : file.Yields owner locator bytes) :
    (∀ other : DataFile, file.sectorCount ≤ other.sectorCount → file.SameRecord other owner locator →
      other.read owner locator = .ok bytes) ∧
    (∀ extra : Array UInt8, (file.bytes ++ extra).size / Owner.sectorSize < 2 ^ 32 →
      DataFile.read ⟨file.bytes ++ extra⟩ owner locator = .ok bytes) ∧
    (∀ sector content, sector ∉ file.visited owner locator → content.length ≤ Owner.sectorSize →
      Owner.sectorSize * sector + content.length ≤ file.bytes.size →
        (file.rewrite sector content).read owner locator = .ok bytes) ∧
    (∀ length ≤ locator.byteLength,
      file.read owner ⟨locator.startSector, length⟩ = .ok (bytes.take length)) := by
  refine ⟨?_, ?_, ?_, ?_⟩
  · intro other grown same
    exact (yields.of_sameRecord same grown).read
  · intro extra countable
    exact (yields.append countable).read
  · intro sector content unvisited fits inside
    exact (yields.rewrite inside unvisited fits).read
  · intro length shorter
    exact (yields.shorten shorter).read

/-- The record around another one is read from a file with more bytes at its end, and from one in which the
sector between its own has been rewritten. -/
theorem read_depends_on_visited_interleaved :
    let record := List.replicate 512 (10 : UInt8) ++ List.replicate 88 30
    interleaved.Yields ⟨2, 7⟩ ⟨1, 600⟩ record ∧
      DataFile.read ⟨interleaved.bytes ++ Array.replicate 1000 5⟩ ⟨2, 7⟩ ⟨1, 600⟩ = .ok record ∧
      (interleaved.rewrite 2 (List.replicate 520 255)).read ⟨2, 7⟩ ⟨1, 600⟩ = .ok record ∧
      interleaved.read ⟨2, 7⟩ ⟨1, 515⟩ = .ok (record.take 515) := by
  intro record
  have size : interleaved.bytes.size = 1656 := by decide +kernel
  have read := interleaved_holds_around.read
  rw [List.length_append, List.length_replicate, List.length_replicate] at read
  have yields : interleaved.Yields ⟨2, 7⟩ ⟨1, 600⟩ record := .of_holds (by decide +kernel) read
  have unvisited : 2 ∉ interleaved.visited ⟨2, 7⟩ ⟨1, 600⟩ := by decide +kernel
  obtain ⟨-, grown, rewritten, shorter⟩ := read_depends_on_visited yields
  have fits : (List.replicate 520 (255 : UInt8)).length = Owner.sectorSize := List.length_replicate
  refine ⟨yields, grown _ ?_, rewritten 2 _ unvisited fits.le ?_, shorter 515 (by decide)⟩
  · rw [Array.size_append, size, Array.size_replicate]
    decide
  · rw [size, fits]
    decide

end DataFile
end SectorVault
