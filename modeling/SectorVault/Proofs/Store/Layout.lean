import Mathlib
import SectorVault.Proofs.Store.Image
import SectorVault.Store.Layout

/-!
# Records read back from any layout

However the sectors of the records are mixed, each record is written into bytes of its own.  That is all
there is to it: pieces that are apart do not disturb each other (`getElem?_writeAllOver_of_mem`), sectors
that are different make pieces that are apart (`Placement.apart_pieces`, `Layout.apart_pieces`), and so
the data file holds every record in the chain of sectors that it has been given (`Layout.holdsRecord`).
What was in the file before is of no account.

With the index files the directory then holds the records of the layout, as far as their locators are counted
(`Layout.holds`), and all that the store hands out follows from that (`Layout.readBack`).  What is not counted
is the last group of all, and the others with it: an index file that reaches up to it has as many locators as a
word can count, and is taken to have none (`Layout.lastGroup_unread`).
-/

namespace SectorVault

/-! ## Writing over a file -/

namespace Piece

variable {file : Bytes} {pieces : List Piece} {piece : Piece} {i : Nat}

theorem length_writeOver (inside : piece.stop ≤ file.length) :
    (writeOver file piece).length = file.length := by
  unfold stop at inside
  simp only [writeOver, stop, List.length_append, List.length_take, List.length_drop]
  omega

/-- The bytes beside a piece stay as they are. -/
theorem getElem?_writeOver_of_outside (inside : piece.stop ≤ file.length)
    (outside : i < piece.offset ∨ piece.stop ≤ i) : (writeOver file piece)[i]? = file[i]? := by
  unfold stop at inside
  have front : (file.take piece.offset).length = piece.offset := by simp; omega
  rcases outside with before | behind
  · rw [writeOver, List.append_assoc, List.getElem?_append_left (by omega),
      List.getElem?_take_of_lt before]
  · have written : (file.take piece.offset ++ piece.bytes).length = piece.stop := by
      rw [List.length_append, front, stop]
    rw [writeOver, List.getElem?_append_right (by omega), written, List.getElem?_drop,
      Nat.add_sub_cancel' behind]

/-- The bytes of a piece are there once it is written. -/
theorem getElem?_writeOver_of_inside (inside : piece.stop ≤ file.length)
    (h : i < piece.bytes.length) : (writeOver file piece)[piece.offset + i]? = piece.bytes[i]? := by
  unfold stop at inside
  have front : (file.take piece.offset).length = piece.offset := by simp; omega
  rw [writeOver, List.append_assoc, List.getElem?_append_right (by omega), front,
    Nat.add_sub_cancel_left, List.getElem?_append_left h]

theorem length_writeAllOver (inside : ∀ piece ∈ pieces, piece.stop ≤ file.length) :
    (writeAllOver file pieces).length = file.length := by
  induction pieces generalizing file with
  | nil => rfl
  | cons piece pieces ih =>
    have length := length_writeOver (inside piece (by simp))
    have rest : ∀ other ∈ pieces, other.stop ≤ (writeOver file piece).length := by
      rw [length]
      exact fun other mem => inside other (by simp [mem])
    exact (ih rest).trans length

/-- The bytes beside all pieces stay as they are. -/
theorem getElem?_writeAllOver_of_outside (inside : ∀ piece ∈ pieces, piece.stop ≤ file.length)
    (outside : ∀ piece ∈ pieces, i < piece.offset ∨ piece.stop ≤ i) :
    (writeAllOver file pieces)[i]? = file[i]? := by
  induction pieces generalizing file with
  | nil => rfl
  | cons piece pieces ih =>
    have rest : ∀ other ∈ pieces, other.stop ≤ (writeOver file piece).length := by
      rw [length_writeOver (inside piece (by simp))]
      exact fun other mem => inside other (by simp [mem])
    have kept := ih rest fun other mem => outside other (by simp [mem])
    exact kept.trans (getElem?_writeOver_of_outside (inside piece (by simp)) (outside piece (by simp)))

/-- The bytes of every piece are there in the end if the pieces are apart. -/
theorem getElem?_writeAllOver_of_mem (inside : ∀ piece ∈ pieces, piece.stop ≤ file.length)
    (apart : pieces.Pairwise Apart) (mem : piece ∈ pieces) (h : i < piece.bytes.length) :
    (writeAllOver file pieces)[piece.offset + i]? = piece.bytes[i]? := by
  induction pieces generalizing file with
  | nil => cases mem
  | cons first pieces ih =>
    obtain ⟨beside, apart⟩ := List.pairwise_cons.1 apart
    have rest : ∀ other ∈ pieces, other.stop ≤ (writeOver file first).length := by
      rw [length_writeOver (inside first (by simp))]
      exact fun other mem => inside other (by simp [mem])
    rcases List.mem_cons.1 mem with rfl | mem
    · -- what is written after the piece is beside it
      have outside : ∀ other ∈ pieces,
          piece.offset + i < other.offset ∨ other.stop ≤ piece.offset + i := by
        intro other mem
        rcases beside other mem with before | behind
        · unfold stop at before
          omega
        · omega
      exact (getElem?_writeAllOver_of_outside rest outside).trans
        (getElem?_writeOver_of_inside (inside piece (by simp)) h)
    · exact ih rest apart mem

theorem slice_writeAllOver (inside : ∀ piece ∈ pieces, piece.stop ≤ file.length)
    (apart : pieces.Pairwise Apart) (mem : piece ∈ pieces) {start stop : Nat}
    (h : stop ≤ piece.bytes.length) :
    slice (writeAllOver file pieces).toArray (piece.offset + start) (piece.offset + stop) =
      (piece.bytes.take stop).drop start := by
  rw [slice_toArray]
  refine List.ext_getElem? fun i => ?_
  simp only [List.getElem?_take, List.getElem?_drop, Nat.add_assoc]
  by_cases within : start + i < stop
  · rw [if_pos (by omega), if_pos within, getElem?_writeAllOver_of_mem inside apart mem (by omega)]
  · rw [if_neg (by omega), if_neg within]

end Piece

/-! ## The sectors of one record -/

namespace Placement

variable {placement other : Placement}

theorem length_used (placement : Placement) (i : Nat) :
    (placement.used i).length = placement.owner.headerSize + (placement.record.part i).length := by
  simp [used]

/-- A sector has room for its header and its part. -/
theorem length_used_le (placement : Placement) (i : Nat) :
    (placement.used i).length ≤ Owner.sectorSize := by
  have sizes := placement.owner.headerSize_add_payloadSize
  have part := placement.record.length_part i
  rw [length_used, part]
  unfold owner at sizes ⊢
  omega

theorem mem_pieces {piece : Piece} :
    piece ∈ placement.pieces ↔ ∃ i, ∃ h : i < placement.chain.length,
      piece = ⟨Owner.sectorSize * placement.chain[i], placement.used i⟩ := by
  simp only [pieces, List.mem_map, Prod.exists, List.mk_mem_zipIdx_iff_getElem?,
    List.getElem?_eq_some_iff]
  constructor
  · rintro ⟨sector, i, ⟨h, rfl⟩, rfl⟩
    exact ⟨i, h, rfl⟩
  · rintro ⟨i, h, rfl⟩
    exact ⟨_, i, ⟨h, rfl⟩, rfl⟩

theorem mem_sectors_of_mem_chain {sector : Nat} (mem : sector ∈ placement.chain) :
    sector ∈ placement.sectors :=
  List.mem_of_mem_take mem

theorem apart_of_sector_ne {sector sector' i j : Nat} (ne : sector ≠ sector') :
    Piece.Apart ⟨Owner.sectorSize * sector, placement.used i⟩
      ⟨Owner.sectorSize * sector', other.used j⟩ := by
  have fits := placement.length_used_le i
  have fits' := other.length_used_le j
  unfold Piece.Apart Piece.stop
  unfold Owner.sectorSize at *
  rcases Nat.lt_or_gt_of_ne ne with before | behind
  · left
    simp only
    omega
  · right
    simp only
    omega

theorem apart_pieces (distinct : placement.sectors.Nodup) :
    placement.pieces.Pairwise Piece.Apart := by
  have chain : (placement.chain.zipIdx.map Prod.fst).Pairwise (· ≠ ·) := by
    rw [List.zipIdx_map_fst]
    exact distinct.sublist (List.take_sublist _ _)
  refine List.pairwise_map.2 ((List.pairwise_map.1 chain).imp fun ne => ?_)
  exact apart_of_sector_ne ne

theorem apart_of_disjoint (disjoint : placement.sectors.Disjoint other.sectors) :
    ∀ piece ∈ placement.pieces, ∀ piece' ∈ other.pieces, Piece.Apart piece piece' := by
  intro piece mem piece' mem'
  obtain ⟨i, h, rfl⟩ := mem_pieces.1 mem
  obtain ⟨j, h', rfl⟩ := mem_pieces.1 mem'
  apply apart_of_sector_ne
  intro same
  have here := mem_sectors_of_mem_chain (List.getElem_mem h)
  have there := mem_sectors_of_mem_chain (List.getElem_mem h')
  exact disjoint here (same ▸ there)

end Placement

/-! ## The data file -/

namespace Layout

variable {layout : Layout} {placement : Placement} {owner : Owner}

theorem apart_pieces (fits : layout.Fits) :
    (layout.placements.flatMap Placement.pieces).Pairwise Piece.Apart := by
  refine List.pairwise_flatMap.2 ⟨fun placement mem => ?_, ?_⟩
  · exact Placement.apart_pieces (fits.distinct placement mem)
  · exact fits.disjoint.imp Placement.apart_of_disjoint

theorem inside_of_mem_pieces (fits : layout.Fits) :
    ∀ piece ∈ layout.placements.flatMap Placement.pieces,
      piece.stop ≤ layout.background.length := by
  intro piece mem
  obtain ⟨placement, mem, piece_mem⟩ := List.mem_flatMap.1 mem
  exact fits.room placement mem piece piece_mem

theorem sectorCount_data (fits : layout.Fits) :
    layout.data.sectorCount = layout.background.length / Owner.sectorSize := by
  rw [DataFile.sectorCount, data, List.size_toArray,
    Piece.length_writeAllOver (inside_of_mem_pieces fits)]
  exact Nat.mod_eq_of_lt fits.countable

theorem slice_data (fits : layout.Fits) (mem : placement ∈ layout.placements) {i : Nat}
    (h : i < placement.chain.length) (start : Nat) {stop : Nat}
    (inside : stop ≤ (placement.used i).length) :
    slice layout.data.bytes (Owner.sectorSize * placement.chain[i] + start)
        (Owner.sectorSize * placement.chain[i] + stop) =
      ((placement.used i).take stop).drop start := by
  have written : (⟨_, _⟩ : Piece) ∈ layout.placements.flatMap Placement.pieces :=
    List.mem_flatMap.2 ⟨placement, mem, Placement.mem_pieces.2 ⟨i, h, rfl⟩⟩
  exact Piece.slice_writeAllOver (inside_of_mem_pieces fits) (apart_pieces fits) written inside

theorem length_chain (fits : layout.Fits) (mem : placement ∈ layout.placements) :
    placement.chain.length = placement.record.partCount := by
  rw [Placement.chain, List.length_take, min_eq_left (fits.enough placement mem)]

/-- The data file holds every record in the sectors that it has been given. -/
theorem holdsRecord (fits : layout.Fits) (mem : placement ∈ layout.placements) :
    layout.data.HoldsRecord placement.owner placement.record.bytes placement.chain := by
  have header_length : ∀ i, (placement.owner.encodeHeader (UInt16.ofNat i)
      (placement.chain[i + 1]?.getD 0)).length = placement.owner.headerSize :=
    fun i => Owner.length_encodeHeader _ _ _
  refine ⟨length_chain fits mem, ?_, ?_, ?_, ?_, ?_⟩
  · exact fun sector here =>
      fits.usable placement mem sector (Placement.mem_sectors_of_mem_chain here)
  · exact fun sector here =>
      fits.narrow placement mem sector (Placement.mem_sectors_of_mem_chain here)
  · intro sector here
    obtain ⟨i, h, rfl⟩ := List.getElem_of_mem here
    have room := fits.room placement mem _ (Placement.mem_pieces.2 ⟨i, h, rfl⟩)
    rw [sectorCount_data fits, Nat.le_div_iff_mul_le (by decide), Nat.mul_comm]
    exact Nat.le_trans (Nat.le_add_right _ _) room
  · intro i h
    have room : placement.owner.headerSize ≤ (placement.used i).length :=
      Nat.le.intro (placement.length_used i).symm
    have read := slice_data fits mem h 0 room
    rw [Nat.add_zero, List.drop_zero] at read
    rw [read, Placement.used, List.take_left' (header_length i)]
  · intro i h
    have room := (placement.length_used i).symm.le
    have read := slice_data fits mem h placement.owner.headerSize room
    rw [← placement.length_used, List.take_length, placement.length_used, Placement.used,
      List.drop_left' (header_length i), Record.length_part, ← Nat.add_assoc] at read
    exact read

/-! ## The records by their groups -/

theorem placement?_of_mem (fits : layout.Fits) (mem : placement ∈ layout.placements) :
    layout.placement? placement.owner = some placement :=
  find?_key Placement.owner mem fun _ mem' same =>
    List.inj_on_of_nodup_map fits.owners mem' mem same

theorem placement?_eq_some_iff (fits : layout.Fits) :
    layout.placement? owner = some placement ↔
      placement ∈ layout.placements ∧ placement.owner = owner := by
  constructor
  · intro found
    exact ⟨List.mem_of_find?_eq_some found, by simpa using List.find?_some found⟩
  · rintro ⟨mem, rfl⟩
    exact placement?_of_mem fits mem

theorem bytesOf_of_mem (fits : layout.Fits) (mem : placement ∈ layout.placements) :
    layout.bytesOf placement.owner = placement.record.bytes := by
  rw [bytesOf, placement?_of_mem fits mem]

theorem exists_placement?_iff (fits : layout.Fits) :
    (∃ placement, layout.placement? owner = some placement) ↔
      ∃ placement ∈ layout.placements, placement.owner = owner := by
  simp only [placement?_eq_some_iff fits]

theorem bytesOf_ne_nil_iff (fits : layout.Fits) :
    layout.bytesOf owner ≠ [] ↔ ∃ placement ∈ layout.placements, placement.owner = owner := by
  rw [← exists_placement?_iff fits, bytesOf]
  cases found : layout.placement? owner with
  | none => simp
  | some placement =>
    have mem := ((placement?_eq_some_iff fits).1 found).1
    simp [fits.present placement mem]

theorem isListed_iff (fits : layout.Fits) {archive : UInt8} :
    layout.isListed archive = true ↔
      archive = masterArchive ∨ layout.bytesOf ⟨masterArchive, archive.toUInt32⟩ ≠ [] := by
  rw [isListed, Bool.or_eq_true, beq_iff_eq, bytesOf_ne_nil_iff fits, Option.isSome_iff_exists,
    exists_placement?_iff fits]

/-! ## Index files -/

theorem head_mem_chain (fits : layout.Fits) (mem : placement ∈ layout.placements) :
    placement.chain.headD 0 ∈ placement.chain := by
  have positive := Record.partCount_pos (fits.present placement mem)
  rw [← length_chain fits mem] at positive
  cases chain : placement.chain with
  | nil => simp [chain] at positive
  | cons first rest => simp

theorem locator_lt (fits : layout.Fits) (owner : Owner) :
    (layout.locator owner).byteLength < 2 ^ 24 ∧ (layout.locator owner).startSector < 2 ^ 24 := by
  unfold locator
  cases found : layout.placement? owner with
  | none => simp
  | some placement =>
    obtain ⟨mem, -⟩ := (placement?_eq_some_iff fits).1 found
    exact ⟨fits.lengths placement mem, (holdsRecord fits mem).narrow _ (head_mem_chain fits mem)⟩

theorem recordCount_index (layout : Layout) (archive : UInt8) :
    (layout.index archive).recordCount = layout.counts archive % 2 ^ 32 :=
  IndexFile.recordCount_ofLocators archive _ _

theorem isCounted_iff {owner : Owner} :
    layout.isCounted owner = true ↔ owner.group.toNat < (layout.index owner.archive).recordCount := by
  rw [recordCount_index, isCounted, decide_eq_true_iff]

/-- In index files that a word can count, all locators are counted. -/
theorem isCounted_of_short (short : ∀ archive, layout.counts archive < 2 ^ 32) {owner : Owner} :
    layout.isCounted owner = true ↔ owner.group.toNat < layout.counts owner.archive := by
  rw [isCounted, Nat.mod_eq_of_lt (short owner.archive), decide_eq_true_iff]

theorem locatorAt_index (fits : layout.Fits)
    (inside : owner.group.toNat < (layout.index owner.archive).recordCount) :
    (layout.index owner.archive).locatorAt owner.group.toNat = layout.locator owner := by
  obtain ⟨length, sector⟩ := locator_lt fits owner
  have here : layout.locatorAt owner.archive owner.group.toNat = layout.locator owner := by
    rw [locatorAt, if_pos owner.group.toNat_lt, UInt32.ofNat_toNat]
  rw [recordCount_index] at inside
  rw [← here] at length sector ⊢
  exact IndexFile.locatorAt_ofLocators (inside.trans_le (Nat.mod_le _ _)) length sector

/-- The locator of a group points somewhere exactly if there is a record of it. -/
theorem startSector_ne_zero_iff (fits : layout.Fits) :
    (layout.locator owner).startSector ≠ 0 ↔ layout.bytesOf owner ≠ [] := by
  rw [bytesOf_ne_nil_iff fits, ← exists_placement?_iff fits, locator]
  cases found : layout.placement? owner with
  | none => simp
  | some placement =>
    have mem := ((placement?_eq_some_iff fits).1 found).1
    have used := (holdsRecord fits mem).present _ (head_mem_chain fits mem)
    simp [Placement.locator, -List.headD_eq_head?_getD, used]

/-! ## The directory -/

/-- The directory holds the records whose locators are counted. -/
theorem holds (fits : layout.Fits) (path : String) (others : UInt8 → DirectoryEntry) :
    (layout.directory path others).Holds layout.data layout.index
      (Directory.counted layout.index layout.bytesOf) := by
  refine .of_located rfl (fun archive needed => if_pos ((isListed_iff fits).2 needed)) (fun _ => rfl) ?_ ?_
  · intro owner inside
    rw [locatorAt_index fits inside, startSector_ne_zero_iff fits]
  · intro owner inside present
    obtain ⟨placement, mem, rfl⟩ := (bytesOf_ne_nil_iff fits).1 present
    refine ⟨placement.chain, ?_, ?_⟩
    · rw [bytesOf_of_mem fits mem]
      exact holdsRecord fits mem
    · rw [locatorAt_index fits inside, locator, placement?_of_mem fits mem, bytesOf_of_mem fits mem]
      rfl

theorem counted_ne_nil_iff (fits : layout.Fits) {owner : Owner} :
    Directory.counted layout.index layout.bytesOf owner ≠ [] ↔
      layout.isCounted owner = true ∧ ∃ placement ∈ layout.placements, placement.owner = owner := by
  rw [Directory.counted_ne_nil_iff, isCounted_iff, bytesOf_ne_nil_iff fits]

theorem isOpened_iff (fits : layout.Fits) {archive : UInt8} :
    layout.isOpened archive = true ↔ archive = masterArchive ∨
      Directory.counted layout.index layout.bytesOf ⟨masterArchive, archive.toUInt32⟩ ≠ [] := by
  rw [isOpened, Bool.and_eq_true, Bool.or_eq_true, beq_iff_eq, isListed_iff fits,
    Directory.counted_ne_nil_iff, isCounted_iff]
  tauto

/-- The groups that the store lists are in ascending order, and have records whose locators are counted. -/
theorem groups_spec (fits : layout.Fits) (archive : UInt8) :
    ((layout.index archive).live.map UInt32.ofNat).Pairwise (· < ·) ∧
      ∀ group, group ∈ (layout.index archive).live.map UInt32.ofNat ↔
        layout.isCounted ⟨archive, group⟩ = true ∧
          ∃ placement ∈ layout.placements, placement.owner = ⟨archive, group⟩ := by
  have small : ∀ ordinal ∈ (layout.index archive).live, ordinal < UInt32.size := fun ordinal mem =>
    (IndexFile.mem_live.1 mem).1.trans (IndexFile.recordCount_lt _)
  constructor
  · refine List.pairwise_map.2 ((layout.index archive).live_ascends.imp_of_mem ?_)
    intro ordinal later mem mem' before
    rwa [UInt32.lt_iff_toNat_lt, UInt32.toNat_ofNat_of_lt' (small ordinal mem),
      UInt32.toNat_ofNat_of_lt' (small later mem')]
  · intro group
    have live := (holds fits "" fun _ => .missing).live_iff ⟨archive, group⟩
    rw [← counted_ne_nil_iff fits, ← live, List.mem_map]
    constructor
    · rintro ⟨ordinal, mem, rfl⟩
      rwa [UInt32.toNat_ofNat_of_lt' (small ordinal mem)]
    · intro mem
      exact ⟨group.toNat, mem, UInt32.ofNat_toNat⟩

section Read

variable (fits : layout.Fits) {archive : UInt8}

include fits

theorem list_opened (opened : layout.isOpened archive = true) :
    (Directory.Holds.disk layout.data layout.index).list archive =
      .ok ((layout.index archive).live.map UInt32.ofNat) :=
  (holds fits "" fun _ => .missing).list ((isOpened_iff fits).1 opened)

theorem read_opened (opened : layout.isOpened archive = true) (group : UInt32) :
    (Directory.Holds.disk layout.data layout.index).read archive group =
      if layout.isCounted ⟨archive, group⟩ then .ok (layout.bytesOf ⟨archive, group⟩)
      else .error (.index (.endOfFile archive group (layout.counts archive % 2 ^ 32))) := by
  rw [(holds fits "" fun _ => .missing).read_eq ((isOpened_iff fits).1 opened), ← recordCount_index]
  by_cases inside : group.toNat < (layout.index archive).recordCount
  · rw [if_pos inside, if_pos (isCounted_iff.2 inside), Directory.counted, if_pos inside]
  · rw [if_neg inside, if_neg (mt isCounted_iff.1 inside)]

theorem unopened (closed : layout.isOpened archive = false) :
    (Directory.Holds.disk layout.data layout.index).list archive = .error (.archiveNotFound archive) ∧
      ∀ group, (Directory.Holds.disk layout.data layout.index).read archive group =
        .error (.archiveNotFound archive) := by
  have missing : ¬ (archive = masterArchive ∨ _) := mt (isOpened_iff fits).2 (by simp [closed])
  obtain ⟨other, none⟩ := not_or.1 missing
  rw [not_not] at none
  have held := holds fits "" fun _ => .missing
  exact ⟨held.list_of_unlisted other none, held.read_of_unlisted other none⟩

theorem isOpened_of_short (short : ∀ archive, layout.counts archive < 2 ^ 32) :
    layout.isOpened archive = layout.isListed archive := by
  rw [Bool.eq_iff_iff, isOpened_iff fits, isListed_iff fits, Directory.counted_ne_nil_iff,
    ← isCounted_iff, isCounted_of_short short]
  refine or_congr_right (and_iff_right_of_imp fun present => ?_)
  obtain ⟨placement, mem, owner⟩ := (bytesOf_ne_nil_iff fits).1 present
  exact owner ▸ fits.counted placement mem

end Read

/-- **Any layout reads back.**  Whatever sectors the records have been given, as long as no sector has been
given twice, whatever is in the rest of the data file, and whatever else is in the directory, it opens.  Then it
depends on the index files what is found.  If a word can count the locators of each of them, every record reads
back, and every archive lists the groups that it has records of, in ascending order; a group without a record
reads as empty within the index file of its archive, and is beyond the end of it elsewhere; and an archive that
the master archive has no record of is not there.  In general, an index file is taken to have as many locators
as it has modulo `2 ^ 32`, and the records behind those are as good as none. -/
theorem readBack (fits : layout.Fits) (path : String) (others : UInt8 → DirectoryEntry) :
    ∃ disk, (layout.directory path others).openStore = .ok disk ∧
      ((∀ archive, layout.counts archive < 2 ^ 32) →
        (∀ placement ∈ layout.placements,
          disk.read placement.owner.archive placement.owner.group = .ok placement.record.bytes) ∧
        (∀ archive, layout.isListed archive = true →
          ∃ groups, disk.list archive = .ok groups ∧ groups.Pairwise (· < ·) ∧
            ∀ group, group ∈ groups ↔
              ∃ placement ∈ layout.placements, placement.owner = ⟨archive, group⟩) ∧
        (∀ archive group, layout.isListed archive = true →
          (∀ placement ∈ layout.placements, placement.owner ≠ ⟨archive, group⟩) →
            disk.read archive group =
              if group.toNat < layout.counts archive then .ok []
              else .error (.index (.endOfFile archive group (layout.counts archive)))) ∧
        ∀ archive, layout.isListed archive = false →
          disk.list archive = .error (.archiveNotFound archive) ∧
            ∀ group, disk.read archive group = .error (.archiveNotFound archive)) ∧
      (∀ archive, layout.isOpened archive = true →
        (∃ groups, disk.list archive = .ok groups ∧ groups.Pairwise (· < ·) ∧
          ∀ group, group ∈ groups ↔ layout.isCounted ⟨archive, group⟩ = true ∧
            ∃ placement ∈ layout.placements, placement.owner = ⟨archive, group⟩) ∧
        ∀ group, disk.read archive group =
          if layout.isCounted ⟨archive, group⟩ then .ok (layout.bytesOf ⟨archive, group⟩)
          else .error (.index (.endOfFile archive group (layout.counts archive % 2 ^ 32)))) ∧
      ∀ archive, layout.isOpened archive = false →
        disk.list archive = .error (.archiveNotFound archive) ∧
          ∀ group, disk.read archive group = .error (.archiveNotFound archive) := by
  refine ⟨_, (holds fits path others).openStore, fun short => ⟨?_, ?_, ?_, ?_⟩, ?_, ?_⟩
  · intro placement mem
    have opened := (isOpened_of_short fits short).trans (fits.listed placement mem)
    rw [read_opened fits opened, if_pos ((isCounted_of_short short).2 (fits.counted placement mem))]
    exact congrArg _ (bytesOf_of_mem fits mem)
  · intro archive listed
    obtain ⟨ascend, mem_iff⟩ := groups_spec fits archive
    refine ⟨_, list_opened fits ((isOpened_of_short fits short).trans listed), ascend, fun group => ?_⟩
    refine (mem_iff group).trans (and_iff_right_of_imp ?_)
    rintro ⟨placement, mem, owner⟩
    exact (isCounted_of_short short).2 (owner ▸ fits.counted placement mem)
  · intro archive group listed absent
    have none : layout.bytesOf ⟨archive, group⟩ = [] := by
      by_contra present
      obtain ⟨placement, mem, same⟩ := (bytesOf_ne_nil_iff fits).1 present
      exact absent placement mem same
    have counted : layout.isCounted ⟨archive, group⟩ = true ↔ group.toNat < layout.counts archive :=
      isCounted_of_short short
    rw [read_opened fits ((isOpened_of_short fits short).trans listed), none,
      Nat.mod_eq_of_lt (short archive)]
    simp only [counted]
  · exact fun archive unlisted => unopened fits ((isOpened_of_short fits short).trans unlisted)
  · exact fun archive opened => ⟨⟨_, list_opened fits opened, groups_spec fits archive⟩,
      read_opened fits opened⟩
  · exact fun archive closed => unopened fits closed

/-- Three records in sectors that are neither in order nor next to each other; the file ends behind the
record in its last sector, and one sector is spare. -/
def mixed : Layout where
  placements := [
    ⟨⟨⟨masterArchive, 0⟩, [1, 2, 3]⟩, [5]⟩,
    ⟨⟨⟨0, 1⟩, List.replicate 600 7⟩, [4, 1]⟩,
    ⟨⟨⟨0, 70000⟩, List.replicate 511 8⟩, [2, 3, 9]⟩]
  background := List.replicate (Owner.sectorSize * 5 + 11) 0xEE
  counts archive := if archive = masterArchive then 1 else 70001

theorem fits_mixed : mixed.Fits where
  owners := by decide
  present := by decide
  lengths := by decide +kernel
  listed := by decide
  counted := by decide
  enough := by decide +kernel
  usable := by decide
  narrow := by decide +kernel
  distinct := by decide
  disjoint := by
    have apart : mixed.placements.Pairwise fun placement other =>
        ∀ sector ∈ placement.sectors, sector ∉ other.sectors := by decide
    exact apart.imp fun apart sector mem => apart sector mem
  room := by decide +kernel
  countable := by decide +kernel

theorem owners_mixed :
    mixed.placements.map Placement.owner = [⟨masterArchive, 0⟩, ⟨0, 1⟩, ⟨0, 70000⟩] := rfl

theorem readBack_mixed :
    mixed.Fits ∧ ∃ disk, (mixed.directory "cache" fun _ => .missing).openStore = .ok disk ∧
      disk.read 0 1 = .ok (List.replicate 600 7) ∧
      disk.read 0 70000 = .ok (List.replicate 511 8) ∧
      disk.list 0 = .ok [1, 70000] ∧ disk.read 0 2 = .ok [] ∧
      disk.list 1 = .error (.archiveNotFound 1) := by
  obtain ⟨disk, opened, counted, -⟩ := readBack fits_mixed "cache" fun _ => .missing
  obtain ⟨reads, lists, absent, unlisted⟩ := counted fun archive => by
    show (if archive = masterArchive then 1 else 70001) < 2 ^ 32
    split <;> decide
  obtain ⟨groups, listed, ascend, mem⟩ := lists 0 (by decide)
  have groups_eq : groups = [1, 70000] := by
    refine List.Pairwise.eq_of_mem_iff ascend (by decide) fun group => ?_
    rw [mem, ← List.mem_map, owners_mixed]
    simp [masterArchive]
  have none : ∀ placement ∈ mixed.placements, placement.owner ≠ ⟨0, 2⟩ := by decide
  exact ⟨fits_mixed, disk, opened, reads _ (.tail _ (.head _)), reads _ (.tail _ (.tail _ (.head _))),
    groups_eq ▸ listed, absent 0 2 (by decide) none, (unlisted 1 (by decide)).1⟩

/-- A record of the last group of all. -/
def overfull : Layout where
  placements := [⟨⟨⟨masterArchive, 0⟩, [1, 2, 3]⟩, [1]⟩, ⟨⟨⟨0, 0xFFFFFFFF⟩, [7]⟩, [2]⟩]
  background := List.replicate (Owner.sectorSize * 3) 0
  counts archive := if archive = masterArchive then 1 else 2 ^ 32

theorem fits_overfull : overfull.Fits where
  owners := by decide
  present := by decide
  lengths := by decide +kernel
  listed := by decide
  counted := by decide
  enough := by decide +kernel
  usable := by decide
  narrow := by decide +kernel
  distinct := by decide
  disjoint := by
    have apart : overfull.placements.Pairwise fun placement other =>
        ∀ sector ∈ placement.sectors, sector ∉ other.sectors := by decide
    exact apart.imp fun apart sector mem => apart sector mem
  room := by decide +kernel
  countable := by decide +kernel

/-- A record of the last group does not read back, and its archive lists nothing.  And without any record, there
has to be an index file of the master archive still. -/
theorem lastGroup_unread :
    overfull.Fits ∧
      (∃ disk, (overfull.directory "cache" fun _ => .missing).openStore = .ok disk ∧
        disk.list 0 = .ok [] ∧
        disk.read 0 0xFFFFFFFF = .error (.index (.endOfFile 0 0xFFFFFFFF 0)) ∧
        disk.read 0 0xFFFFFFFF ≠ .ok [7]) ∧
      Directory.openStore ⟨"cache", .file #[], fun _ => .missing⟩ =
        .error (.missingIndexFile masterArchive "cache/main_file_cache.idx255") := by
  have missing : Directory.openStore ⟨"cache", .file #[], fun _ => .missing⟩ =
      .error (.missingIndexFile masterArchive "cache/main_file_cache.idx255") := rfl
  have opened : overfull.isOpened 0 = true := by decide
  have counted : ∀ group, overfull.isCounted ⟨0, group⟩ = false := fun group => by
    simp [isCounted, overfull, masterArchive]
  have read := read_opened fits_overfull opened 0xFFFFFFFF
  rw [counted] at read
  have groups : (overfull.index 0).live.map UInt32.ofNat = [] := by
    refine List.eq_nil_iff_forall_not_mem.2 fun group mem => ?_
    have listed := (((groups_spec fits_overfull 0).2 group).1 mem).1
    rw [counted] at listed
    cases listed
  have list := list_opened fits_overfull opened
  rw [groups] at list
  refine ⟨fits_overfull, ⟨_, (holds fits_overfull "cache" fun _ => .missing).openStore, list, read, ?_⟩,
    missing⟩
  rw [read]
  nofun

end Layout
end SectorVault
