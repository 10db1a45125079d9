import Mathlib
import SectorVault.Proofs.Store.Holding
import SectorVault.Store.Image

/-!
# Written directories hold their records

Records that are placed one behind the other are where the placing says they are: the sectors of a
record that starts in the sector `first` are the next ones from there on (`getElem?_placed`).  With
that, the data file holds every record that is placed (`holdsRecord`), the index files point to them
(`locatorAt_index`), and the directory holds the records it is written from (`holds`), as long as they
fit and their locators are counted.  The locators of an archive are all counted unless it has a record of
the last group of all (`counted_eq`).
-/

namespace SectorVault

/-! ## Sectors -/

namespace Record

theorem length_part (record : Record) (i : Nat) :
    (record.part i).length =
      min record.owner.payloadSize (record.bytes.length - i * record.owner.payloadSize) := by
  simp [part]

theorem length_sector (record : Record) (first i : Nat) :
    (record.sector first i).length = Owner.sectorSize := by
  have sizes := record.owner.headerSize_add_payloadSize
  have part := record.length_part i
  unfold sector
  simp only [List.length_append, List.length_replicate, Owner.length_encodeHeader]
  omega

/-- A sector starts with its header. -/
theorem take_sector (record : Record) (first i : Nat) :
    (record.sector first i).take record.owner.headerSize =
      record.owner.encodeHeader (UInt16.ofNat i)
        (if i + 1 = record.partCount then 0 else first + i + 1) := by
  unfold sector
  simp only [List.append_assoc]
  exact List.take_left' (Owner.length_encodeHeader _ _ _)

/-- Behind its header a sector has its part. -/
theorem drop_sector (record : Record) (first i : Nat) :
    ((record.sector first i).take (record.owner.headerSize + (record.part i).length)).drop
      record.owner.headerSize = record.part i := by
  unfold sector
  have length : (record.owner.encodeHeader (UInt16.ofNat i)
      (if i + 1 = record.partCount then 0 else first + i + 1) ++ record.part i).length =
        record.owner.headerSize + (record.part i).length := by
    rw [List.length_append, Owner.length_encodeHeader]
  simp only
  rw [List.take_left' length, List.drop_left' (Owner.length_encodeHeader _ _ _)]

theorem partCount_le_length (record : Record) : record.partCount ≤ record.bytes.length := by
  obtain ⟨more, size⟩ := Nat.exists_eq_succ_of_ne_zero record.owner.payloadSize_pos.ne'
  unfold partCount DataFile.partCount
  rw [size]
  cases record.bytes.length with
  | zero => simp
  | succ length => exact Nat.div_le_of_le_mul (by simp only [Nat.succ_eq_add_one]; ring_nf; omega)

theorem partCount_pos {record : Record} (present : record.bytes ≠ []) : 0 < record.partCount := by
  have positive := List.length_pos_of_ne_nil present
  exact Nat.div_pos (by omega) record.owner.payloadSize_pos

@[simp] theorem length_sectors (record : Record) (first : Nat) :
    (record.sectors first).length = record.partCount := by
  simp [sectors]

end Record

/-! ## Index files of locators -/

namespace IndexFile

variable {archive : UInt8} {count : Nat} {locate : Nat → Locator}

theorem locatorOf_encode {locator : Locator} (length : locator.byteLength < 2 ^ 24)
    (sector : locator.startSector < 2 ^ 24) : locatorOf locator.encode = locator := by
  have length : locator.byteLength < 256 ^ 3 := length
  have sector : locator.startSector < 256 ^ 3 := sector
  unfold locatorOf Locator.encode
  rw [List.take_left' (length_toBigEndian _ _), List.drop_left' (length_toBigEndian _ _),
    bigEndian_toBigEndian_of_lt length, bigEndian_toBigEndian_of_lt sector]

theorem length_of_mem_locators {bytes : Bytes}
    (mem : bytes ∈ (List.range count).map fun ordinal => (locate ordinal).encode) :
    bytes.length = locatorSize := by
  obtain ⟨ordinal, -, rfl⟩ := List.mem_map.1 mem
  simp [Locator.encode, locatorSize]

variable (archive count locate) in
/-- Locators are counted modulo what a word can hold. -/
theorem recordCount_ofLocators :
    (ofLocators archive count locate).recordCount = count % UInt32.size := by
  have size : (ofLocators archive count locate).bytes.size = locatorSize * count := by
    rw [ofLocators, List.size_toArray, length_flatten_blocks fun _ => length_of_mem_locators,
      List.length_map, List.length_range]
  rw [recordCount, size, Nat.mul_div_cancel_left _ (by decide)]

/-- Each of the locators is where it belongs. -/
theorem locatorAt_ofLocators {ordinal : Nat} (inside : ordinal < count)
    (length : (locate ordinal).byteLength < 2 ^ 24)
    (sector : (locate ordinal).startSector < 2 ^ 24) :
    (ofLocators archive count locate).locatorAt ordinal = locate ordinal := by
  have found : ((List.range count).map fun ordinal => (locate ordinal).encode)[ordinal]? =
      some (locate ordinal).encode := by
    simp [inside]
  have whole := length_of_mem_locators (List.mem_of_getElem? found)
  have read : slice (ofLocators archive count locate).bytes (locatorSize * ordinal + 0)
      (locatorSize * ordinal + locatorSize) = _ :=
    slice_block (fun _ => length_of_mem_locators) found le_rfl
  rw [Nat.add_zero, List.drop_zero, List.take_of_length_le whole.le] at read
  rw [locatorAt, Nat.mul_succ, read, locatorOf_encode length sector]

end IndexFile

namespace Image

variable {records : List Record} {record : Record} {start first : Nat}

theorem map_fst_place (start : Nat) (records : List Record) :
    (place start records).map Prod.fst = records := by
  induction records generalizing start with
  | nil => rfl
  | cons record records ih => rw [place, List.map_cons, ih]

theorem length_placed (start : Nat) (records : List Record) :
    ((place start records).flatMap fun (record, first) => record.sectors first).length =
      (records.map Record.partCount).sum := by
  induction records generalizing start with
  | nil => rfl
  | cons record records ih =>
    rw [place, List.flatMap_cons, List.length_append, ih, List.map_cons, List.sum_cons,
      Record.length_sectors]

/-- The sectors of a record are those from its first one on. -/
theorem getElem?_placed (mem : (record, first) ∈ place start records) :
    ∃ before, first = start + before ∧
      before + record.partCount ≤ (records.map Record.partCount).sum ∧
      ∀ i < record.partCount,
        ((place start records).flatMap fun (record, first) => record.sectors first)[before + i]? =
          some (record.sector first i) := by
  induction records generalizing start with
  | nil => simp [place] at mem
  | cons head records ih =>
    rw [place, List.mem_cons] at mem
    rw [place, List.flatMap_cons, List.map_cons, List.sum_cons]
    rcases mem with here | behind
    · obtain ⟨rfl, rfl⟩ := Prod.mk.inj here
      refine ⟨0, rfl, by omega, fun i h => ?_⟩
      rw [List.getElem?_append_left (by simpa using h)]
      simp [Record.sectors, h]
    · obtain ⟨before, rfl, inside, found⟩ := ih behind
      refine ⟨head.partCount + before, by omega, by omega, fun i h => ?_⟩
      rw [List.getElem?_append_right (by simp; omega), Record.length_sectors,
        Nat.add_assoc, Nat.add_sub_cancel_left]
      exact found i h

/-! ## The data file -/

theorem length_of_mem_sectors {sector : Bytes} (mem : sector ∈ sectors records) :
    sector.length = Owner.sectorSize := by
  rcases List.mem_cons.1 mem with rfl | mem
  · simp
  · obtain ⟨⟨record, first⟩, -, mem⟩ := List.mem_flatMap.1 mem
    obtain ⟨i, -, rfl⟩ := List.mem_map.1 mem
    exact record.length_sector first i

theorem length_sectors (records : List Record) :
    (sectors records).length = 1 + (records.map Record.partCount).sum := by
  rw [sectors, List.length_cons, length_placed, Nat.add_comm]

theorem sectorCount_data (fits : Fits records) :
    (data records).sectorCount = 1 + (records.map Record.partCount).sum := by
  have small := fits.sectors
  have size : (data records).bytes.size = Owner.sectorSize * (sectors records).length := by
    rw [data, List.size_toArray, length_flatten_blocks fun _ => length_of_mem_sectors]
  have countable : 1 + (records.map Record.partCount).sum < UInt32.size :=
    Nat.lt_of_le_of_lt small (by decide)
  rw [DataFile.sectorCount, size, Nat.mul_div_cancel_left _ (by decide), length_sectors,
    Nat.mod_eq_of_lt countable]

/-- Behind each of some successive sectors comes the next one, and none behind the last. -/
theorem next_eq {first count i : Nat} (h : i < count) :
    (List.range' first count)[i + 1]?.getD 0 = if i + 1 = count then 0 else first + i + 1 := by
  split
  · next last => rw [List.getElem?_eq_none (by simp; omega), Option.getD_none]
  · next inner =>
    rw [List.getElem?_range' (by omega), Option.getD_some, Nat.one_mul, Nat.add_assoc]

/-- The data file holds every record in the sectors it has been placed in. -/
theorem holdsRecord (fits : Fits records) (mem : (record, first) ∈ place 1 records) :
    (data records).HoldsRecord record.owner record.bytes
      (List.range' first record.partCount) := by
  obtain ⟨before, rfl, inside, found⟩ := getElem?_placed mem
  have small := fits.sectors
  have count := sectorCount_data fits
  have sector_at : ∀ i < record.partCount,
      (sectors records)[1 + before + i]? = some (record.sector (1 + before) i) := by
    intro i h
    have behind : 1 + before + i = (before + i) + 1 := by omega
    rw [sectors, behind, List.getElem?_cons_succ]
    exact found i h
  have sizes := record.owner.headerSize_add_payloadSize
  refine ⟨by simp [Record.partCount], ?_, ?_, ?_, ?_, ?_⟩
  · intro sector mem
    rw [List.mem_range'_1] at mem
    omega
  · intro sector mem
    rw [List.mem_range'_1] at mem
    omega
  · intro sector mem
    rw [List.mem_range'_1] at mem
    omega
  · intro i h
    rw [List.length_range'] at h
    have header : slice (data records).bytes (Owner.sectorSize * (1 + before + i) + 0)
        (Owner.sectorSize * (1 + before + i) + record.owner.headerSize) =
          ((record.sector (1 + before) i).take record.owner.headerSize).drop 0 :=
      slice_block (fun _ => length_of_mem_sectors) (sector_at i h) (by omega)
    rw [Nat.add_zero, List.drop_zero, Record.take_sector] at header
    rw [List.getElem_range', Nat.one_mul, header, next_eq h]
  · intro i h
    rw [List.length_range'] at h
    have part := record.length_part i
    have payload : slice (data records).bytes
        (Owner.sectorSize * (1 + before + i) + record.owner.headerSize)
        (Owner.sectorSize * (1 + before + i) +
          (record.owner.headerSize + (record.part i).length)) = _ :=
      slice_block (fun _ => length_of_mem_sectors) (sector_at i h) (by omega)
    rw [Record.drop_sector, part, ← Nat.add_assoc] at payload
    rw [List.getElem_range', Nat.one_mul]
    exact payload

/-! ## Index files -/

theorem lt_groupBound (mem : record ∈ records) :
    record.owner.group.toNat < groupBound records record.owner.archive := by
  have mem : record.owner.group.toNat + 1 ∈
      (records.filter fun other => other.owner.archive == record.owner.archive).map fun record =>
        record.owner.group.toNat + 1 :=
    List.mem_map_of_mem (List.mem_filter.2 ⟨mem, by simp⟩)
  exact List.le_max?_getD_of_mem mem

/-- The greatest group of an archive is within what bounds all of its groups. -/
theorem groupBound_le_of_forall {bound : Nat} {archive : UInt8}
    (le : ∀ record ∈ records, record.owner.archive = archive → record.owner.group.toNat + 1 ≤ bound) :
    groupBound records archive ≤ bound := by
  unfold groupBound
  cases greatest : ((records.filter fun record => record.owner.archive == archive).map
    fun record => record.owner.group.toNat + 1).max? with
  | none => exact Nat.zero_le bound
  | some most =>
    obtain ⟨record, mem, rfl⟩ := List.mem_map.1 (List.max?_mem greatest)
    obtain ⟨mem, same⟩ := List.mem_filter.1 mem
    exact le record mem (by simpa using same)

/-- What the placing has under an owner is what the records have. -/
theorem find?_place (records : List Record) (owner : Owner) :
    ((place 1 records).find? fun (record, _) => record.owner == owner).map Prod.fst =
      records.find? fun record => record.owner == owner := by
  conv_rhs => rw [← map_fst_place 1 records, List.find?_map]
  rfl

/-- The locator of a group is that of its record where it has been placed. -/
theorem locator_cases (records : List Record) (owner : Owner) :
    (locator records owner = ⟨0, 0⟩ ∧ bytesOf records owner = []) ∨
      ∃ record first, (record, first) ∈ place 1 records ∧ record.owner = owner ∧
        bytesOf records owner = record.bytes ∧ record.bytes ≠ [] ∧
        locator records owner = ⟨first, record.bytes.length⟩ := by
  have same := find?_place records owner
  unfold locator bytesOf
  rw [← same]
  cases found : (place 1 records).find? fun (record, _) => record.owner == owner with
  | none => exact .inl ⟨rfl, rfl⟩
  | some placed =>
    obtain ⟨record, first⟩ := placed
    have mem := List.mem_of_find?_eq_some found
    have owner_eq := List.find?_some found
    by_cases empty : record.bytes = []
    · exact .inl ⟨by simp [Record.locator, empty], empty⟩
    · exact .inr ⟨record, first, mem, by simpa using owner_eq, rfl, empty,
        by simp [Record.locator, empty]⟩

theorem exists_of_bytesOf_ne_nil {owner : Owner} (present : bytesOf records owner ≠ []) :
    ∃ record ∈ records, record.owner = owner := by
  unfold bytesOf at present
  split at present
  · next record found =>
    exact ⟨record, List.mem_of_find?_eq_some found, by simpa using List.find?_some found⟩
  · exact absurd rfl present

theorem mem_of_mem_place (mem : (record, first) ∈ place start records) : record ∈ records := by
  rw [← map_fst_place start records]
  exact List.mem_map_of_mem mem

/-- The locator of a group points somewhere exactly if there is a record of the group. -/
theorem startSector_ne_zero_iff (records : List Record) (owner : Owner) :
    (locator records owner).startSector ≠ 0 ↔ bytesOf records owner ≠ [] := by
  rcases locator_cases records owner with
    ⟨none, empty⟩ | ⟨record, first, mem, -, bytes, present, located⟩
  · simp [none, empty]
  · obtain ⟨before, rfl, -⟩ := getElem?_placed mem
    simp [located, bytes, present]

theorem locator_lt (fits : Fits records) (owner : Owner) :
    (locator records owner).byteLength < 2 ^ 24 ∧
      (locator records owner).startSector < 2 ^ 24 := by
  rcases locator_cases records owner with ⟨none, -⟩ | ⟨record, first, mem, -, -, present, located⟩
  · simp [none]
  · have head := (holdsRecord fits mem).narrow first
    rw [located]
    refine ⟨fits.lengths record (mem_of_mem_place mem), head ?_⟩
    rw [List.mem_range'_1]
    have positive := Record.partCount_pos present
    omega

/-- The locators of an index file are counted modulo what a word can hold. -/
theorem recordCount_index_mod (records : List Record) (archive : UInt8) :
    (index records archive).recordCount = groupBound records archive % UInt32.size :=
  IndexFile.recordCount_ofLocators archive _ fun group => locator records ⟨archive, UInt32.ofNat group⟩

/-- All locators are counted if no record is of the last group of all. -/
theorem recordCount_index {archive : UInt8}
    (below : ∀ record ∈ records, record.owner.archive = archive →
      record.owner.group.toNat + 1 < 2 ^ 32) :
    (index records archive).recordCount = groupBound records archive := by
  have bounded : groupBound records archive ≤ 2 ^ 32 - 1 :=
    groupBound_le_of_forall fun record mem same => Nat.le_sub_one_of_lt (below record mem same)
  rw [recordCount_index_mod, Nat.mod_eq_of_lt (Nat.lt_of_le_of_lt bounded (by decide))]

/-- An index file that reaches up to the last group of all has as many locators as a word can count, and
so is taken to have none. -/
theorem recordCount_index_of_last (mem : record ∈ records)
    (last : record.owner.group = 0xFFFFFFFF) :
    (index records record.owner.archive).recordCount = 0 := by
  have reaches := lt_groupBound mem
  have most : groupBound records record.owner.archive ≤ 2 ^ 32 :=
    groupBound_le_of_forall fun record _ _ => record.owner.group.toNat_lt
  have last : record.owner.group.toNat = 2 ^ 32 - 1 := by rw [last]; rfl
  have full : groupBound records record.owner.archive = UInt32.size := by
    have size : UInt32.size = 2 ^ 32 := rfl
    omega
  rw [recordCount_index_mod, full, Nat.mod_self]

/-- The index file has the locator of every group up to its greatest one. -/
theorem locatorAt_index (fits : Fits records) {owner : Owner}
    (inside : owner.group.toNat < (index records owner.archive).recordCount) :
    (index records owner.archive).locatorAt owner.group.toNat = locator records owner := by
  obtain ⟨length, sector⟩ := locator_lt fits owner
  have here : locator records ⟨owner.archive, UInt32.ofNat owner.group.toNat⟩ =
      locator records owner := by
    rw [UInt32.ofNat_toNat]
  rw [recordCount_index_mod] at inside
  rw [← here] at length sector ⊢
  exact IndexFile.locatorAt_ofLocators (inside.trans_le (Nat.mod_le _ _)) length sector

/-! ## Directories -/

/-- A written directory holds the records it is written from, as far as their locators are counted. -/
theorem holds (fits : Fits records) (path : String) :
    (directory path records).Holds (data records) (index records)
      (Directory.counted (index records) (bytesOf records)) := by
  refine .of_located rfl ?_ (fun _ => rfl) ?_ ?_
  · intro archive needed
    have written : hasIndex records archive = true := by
      rcases needed with rfl | listed
      · rfl
      · have points := (startSector_ne_zero_iff records _).2 listed
        simp [hasIndex, points]
    rw [directory]
    simp only [written, if_true]
  · intro owner inside
    rw [locatorAt_index fits inside, startSector_ne_zero_iff]
  · intro owner inside present
    rcases locator_cases records owner with
      ⟨-, empty⟩ | ⟨record, first, mem, rfl, bytes, filled, located⟩
    · exact absurd empty present
    · refine ⟨_, bytes ▸ holdsRecord fits mem, ?_⟩
      obtain ⟨more, count⟩ := Nat.exists_eq_succ_of_ne_zero (Record.partCount_pos filled).ne'
      rw [locatorAt_index fits inside, located, bytes, count, List.range'_succ, List.headD_cons]

/-- The locators of an archive without a record of the last group are all counted. -/
theorem counted_eq {owner : Owner}
    (below : ∀ record ∈ records, record.owner.archive = owner.archive →
      record.owner.group.toNat + 1 < 2 ^ 32) :
    Directory.counted (index records) (bytesOf records) owner = bytesOf records owner := by
  by_cases absent : bytesOf records owner = []
  · rw [Directory.counted, absent, ite_self]
  · obtain ⟨record, mem, rfl⟩ := exists_of_bytesOf_ne_nil absent
    have inside := lt_groupBound mem
    rw [← recordCount_index below] at inside
    exact if_pos inside

end Image

end SectorVault
