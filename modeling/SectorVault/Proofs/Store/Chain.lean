import Mathlib
import SectorVault.Proofs.Bytes
import SectorVault.Store.DataFile

/-!
# Which chains the data file yields

Reading a record walks from sector to sector and checks each one as it goes.  This file says what
the walk amounts to without walking.  A part of a record is *in order* in a sector if four things
hold (`PartInOrder`), and if it is not, exactly one failure is to be reported (`PartFault`).  A record
is read if there are as many sectors as it has parts, the first one is the locator's, each one points
to the next, and every part is in order (`IsRecordChain`); otherwise the chain breaks at the first part
that is not in order (`BreaksWith`).

The bridge between the two is `Trail`, a stretch of the walk over parts that are in order.  Walking
over a trail does nothing but collect its parts (`followFrom_of_trail`), and from every sector there
is a trail that ends either because all parts are read or at a part that is at fault
(`exists_trail`).  What the walk comes to is decided by any trail that ends in one of these two ways.

The main statement is `read_eq_iff_chain`.
-/

namespace SectorVault
namespace DataFile

variable (file : DataFile) (owner : Owner)

/-! ## Parts -/

/-- The header that a sector has if it is one of the owner's. -/
def headerAt (sector : Nat) : SectorHeader :=
  let start := Owner.sectorSize * sector
  owner.headerOf (slice file.bytes start (start + owner.headerSize))

/-- The bytes that a sector holds of part `i` of a record of `length` bytes. -/
def payloadAt (length i sector : Nat) : Bytes :=
  let body := Owner.sectorSize * sector + owner.headerSize
  slice file.bytes body (body + min owner.payloadSize (length - i * owner.payloadSize))

/-- Part `i` of a record of `length` bytes is in order in a sector. -/
structure PartInOrder (length i sector : Nat) : Prop where
  /-- The chain has not ended before the part. -/
  present : sector ≠ 0
  /-- The header and the bytes that are needed are in the file. -/
  inFile : Owner.sectorSize * sector + owner.headerSize +
    min owner.payloadSize (length - i * owner.payloadSize) ≤ file.bytes.size
  /-- The header names the group. -/
  owner_eq : (file.headerAt owner sector).owner = owner.group
  /-- The header names the archive. -/
  archive_eq : (file.headerAt owner sector).archive = owner.archive
  /-- The header names the part, modulo what two bytes can hold. -/
  part_eq : (file.headerAt owner sector).part.toNat = i % 2 ^ 16
  /-- The next sector is not beyond the file. -/
  next_le : (file.headerAt owner sector).nextSector ≤ file.sectorCount

/-- The failure to report of part `i` of a record of `length` bytes that is expected in a sector.  Of
several reasons the first one counts, so each constructor says that those before it do not apply. -/
inductive PartFault (length i sector : Nat) : SectorError → Prop
  | truncated (ended : sector = 0) : PartFault length i sector
      (.truncatedChain owner.archive owner.group (i * owner.payloadSize) length)
  | short (present : sector ≠ 0)
      (outside : file.bytes.size < Owner.sectorSize * sector + owner.headerSize +
        min owner.payloadSize (length - i * owner.payloadSize)) :
      PartFault length i sector (.shortRead owner.archive owner.group sector)
  | mismatch (present : sector ≠ 0)
      (inFile : Owner.sectorSize * sector + owner.headerSize +
        min owner.payloadSize (length - i * owner.payloadSize) ≤ file.bytes.size)
      (foreign : ¬ ((file.headerAt owner sector).owner = owner.group ∧
        (file.headerAt owner sector).archive = owner.archive ∧
        (file.headerAt owner sector).part.toNat = i % 2 ^ 16)) :
      PartFault length i sector (.sectorMismatch sector
        ⟨owner.group, UInt16.ofNat i, (file.headerAt owner sector).nextSector, owner.archive⟩
        (file.headerAt owner sector))
  | outOfRange (present : sector ≠ 0)
      (inFile : Owner.sectorSize * sector + owner.headerSize +
        min owner.payloadSize (length - i * owner.payloadSize) ≤ file.bytes.size)
      (owner_eq : (file.headerAt owner sector).owner = owner.group)
      (archive_eq : (file.headerAt owner sector).archive = owner.archive)
      (part_eq : (file.headerAt owner sector).part.toNat = i % 2 ^ 16)
      (beyond : file.sectorCount < (file.headerAt owner sector).nextSector) :
      PartFault length i sector (.outOfRange owner.archive owner.group sector
        (file.headerAt owner sector).nextSector file.sectorCount)

variable {file owner}

theorem partFault_or_inOrder (length i sector : Nat) :
    (∃ error, file.PartFault owner length i sector error) ∨
      file.PartInOrder owner length i sector := by
  by_cases present : sector = 0
  · exact .inl ⟨_, .truncated present⟩
  by_cases inFile : Owner.sectorSize * sector + owner.headerSize +
      min owner.payloadSize (length - i * owner.payloadSize) ≤ file.bytes.size
  swap
  · exact .inl ⟨_, .short present (by omega)⟩
  by_cases named : (file.headerAt owner sector).owner = owner.group ∧
      (file.headerAt owner sector).archive = owner.archive ∧
      (file.headerAt owner sector).part.toNat = i % 2 ^ 16
  swap
  · exact .inl ⟨_, .mismatch present inFile named⟩
  obtain ⟨owner_eq, archive_eq, part_eq⟩ := named
  by_cases next_le : (file.headerAt owner sector).nextSector ≤ file.sectorCount
  · exact .inr ⟨present, inFile, owner_eq, archive_eq, part_eq, next_le⟩
  · exact .inl ⟨_, .outOfRange present inFile owner_eq archive_eq part_eq (by omega)⟩

/-- A header is the expected one if it names the group, the archive and the part. -/
theorem headerAt_eq_header_iff (i sector : Nat) :
    file.headerAt owner sector =
        owner.header (UInt16.ofNat i) (file.headerAt owner sector).nextSector ↔
      (file.headerAt owner sector).owner = owner.group ∧
        (file.headerAt owner sector).archive = owner.archive ∧
        (file.headerAt owner sector).part.toNat = i % 2 ^ 16 := by
  obtain ⟨group, part, next, archive⟩ := file.headerAt owner sector
  have part_iff : part = UInt16.ofNat i ↔ part.toNat = i % 2 ^ 16 := by
    rw [← UInt16.toNat_inj, UInt16.toNat_ofNat']
  simp only [Owner.header, SectorHeader.mk.injEq, part_iff, true_and]
  tauto

/-! ## One part -/

theorem readPart_of_inOrder {length i sector : Nat}
    (h : file.PartInOrder owner length i sector) :
    file.readPart owner length i sector =
      .ok (file.payloadAt owner length i sector, (file.headerAt owner sector).nextSector) := by
  have header := (headerAt_eq_header_iff i sector).2 ⟨h.owner_eq, h.archive_eq, h.part_eq⟩
  have inFile := h.inFile
  have next_le := h.next_le
  rw [min_comm] at inFile
  unfold readPart
  rw [if_neg h.present, if_neg (by omega)]
  rw [headerAt] at header next_le
  simp only [ne_eq, header.symm, not_true_eq_false, if_false, not_lt.2 next_le]
  simp only [payloadAt, headerAt, min_comm]

theorem readPart_of_fault {length i sector : Nat} {error : SectorError}
    (h : file.PartFault owner length i sector error) :
    file.readPart owner length i sector = .error error := by
  unfold readPart
  cases h with
  | truncated ended => simp [ended]
  | short present outside =>
    rw [min_comm] at outside
    simp only [present, if_false, outside, if_true]
  | mismatch present inFile foreign =>
    rw [min_comm] at inFile
    have header := mt (headerAt_eq_header_iff i sector).1 foreign
    rw [headerAt] at header
    simp only [present, if_false, not_lt.2 inFile, ne_eq, header, not_false_eq_true, if_true]
    rfl
  | outOfRange present inFile owner_eq archive_eq part_eq beyond =>
    rw [min_comm] at inFile
    have header := (headerAt_eq_header_iff i sector).2 ⟨owner_eq, archive_eq, part_eq⟩
    rw [headerAt] at header beyond
    simp only [present, if_false, not_lt.2 inFile, ne_eq, header.symm, not_true_eq_false, beyond,
      if_true]
    rfl

/-! ## Trails -/

variable (file owner) in
/-- The bytes that successive sectors hold of a record of `length` bytes, from part `i` on. -/
def partsOf (length i : Nat) (sectors : List Nat) : List Bytes :=
  (sectors.zipIdx i).map fun (sector, i) => file.payloadAt owner length i sector

variable (file owner) in
/-- Part `i`, which is expected in `sector`, and the parts after it are in order in `sectors`, and
the part after these is expected in `next`. -/
inductive Trail (length : Nat) : Nat → Nat → List Nat → Nat → Prop
  | stop (i sector : Nat) : Trail length i sector [] sector
  | step {i sector next : Nat} {sectors : List Nat}
      (inOrder : file.PartInOrder owner length i sector)
      (rest : Trail length (i + 1) (file.headerAt owner sector).nextSector sectors next) :
      Trail length i sector (sector :: sectors) next

/-- Walking over a trail collects its parts and goes on behind it. -/
theorem followFrom_of_trail {length i sector next : Nat} {sectors : List Nat}
    (trail : file.Trail owner length i sector sectors next) (count : Nat) (done : List Bytes) :
    file.followFrom owner length (sectors.length + count) i sector done =
      file.followFrom owner length count (i + sectors.length) next
        ((file.partsOf owner length i sectors).reverse ++ done) := by
  induction trail generalizing done with
  | stop i sector => simp [partsOf]
  | @step i sector next sectors inOrder rest ih =>
    have more : (sector :: sectors).length + count = (sectors.length + count) + 1 := by
      rw [List.length_cons]
      omega
    have behind : i + (sector :: sectors).length = i + 1 + sectors.length := by
      rw [List.length_cons]
      omega
    rw [more, behind, followFrom, readPart_of_inOrder inOrder]
    simp only
    rw [ih]
    simp [partsOf]

/-- From every sector there is a trail to the end of the record, or to a part that is at fault. -/
theorem exists_trail (length count i sector : Nat) :
    ∃ sectors next, file.Trail owner length i sector sectors next ∧
      (sectors.length = count ∨ sectors.length < count ∧
        ∃ error, file.PartFault owner length (i + sectors.length) next error) := by
  induction count generalizing i sector with
  | zero => exact ⟨[], sector, .stop i sector, .inl rfl⟩
  | succ count ih =>
    rcases partFault_or_inOrder length i sector with ⟨error, fault⟩ | inOrder
    · exact ⟨[], sector, .stop i sector, .inr ⟨by simp, error, fault⟩⟩
    · obtain ⟨sectors, next, trail, ends⟩ := ih (i + 1) (file.headerAt owner sector).nextSector
      refine ⟨sector :: sectors, next, .step inOrder trail, ?_⟩
      rcases ends with complete | ⟨shorter, error, fault⟩
      · exact .inl (by simp [complete])
      · refine .inr ⟨by simpa using shorter, error, ?_⟩
        rwa [List.length_cons, Nat.add_comm sectors.length, ← Nat.add_assoc]

theorem followFrom_of_complete {length i sector next : Nat} {sectors : List Nat}
    (trail : file.Trail owner length i sector sectors next) :
    file.followFrom owner length sectors.length i sector [] =
      ⟨file.partsOf owner length i sectors, none⟩ := by
  have h := followFrom_of_trail trail 0 []
  simpa [followFrom] using h

theorem followFrom_of_broken {length count i sector next : Nat} {sectors : List Nat}
    {error : SectorError} (trail : file.Trail owner length i sector sectors next)
    (shorter : sectors.length < count)
    (fault : file.PartFault owner length (i + sectors.length) next error) :
    file.followFrom owner length count i sector [] =
      ⟨file.partsOf owner length i sectors, some error⟩ := by
  obtain ⟨more, rfl⟩ : ∃ more, count = sectors.length + (more + 1) :=
    ⟨count - sectors.length - 1, by omega⟩
  rw [followFrom_of_trail trail, followFrom, readPart_of_fault fault]
  simp

/-! ## Chains -/

variable (file owner) in
/-- The sectors that a chain begins with: the first one is `start`, and each one points to the
next. -/
structure IsOpening (start : Nat) (sectors : List Nat) : Prop where
  /-- The first sector. -/
  head : ∀ sector ∈ sectors.head?, sector = start
  /-- Each sector but the first one is pointed to by the one before. -/
  linked : sectors.IsChain fun sector next => next = (file.headerAt owner sector).nextSector

variable (file owner) in
/-- A whole record is in order in the sectors of a chain. -/
structure IsRecordChain (locator : Locator) (sectors : List Nat) : Prop where
  /-- There is a sector for every part. -/
  count : sectors.length = partCount owner locator.byteLength
  /-- The sectors are those that the locator leads to. -/
  opening : file.IsOpening owner locator.startSector sectors
  /-- Every part is in order. -/
  inOrder : ∀ i (h : i < sectors.length),
    file.PartInOrder owner locator.byteLength i sectors[i]

variable (file owner) in
/-- The sectors of a chain up to the first part that is not in order, and why it is not. -/
structure BreaksWith (locator : Locator) (sectors : List Nat) (error : SectorError) : Prop where
  /-- The record has a part for every sector. -/
  count : sectors.length ≤ partCount owner locator.byteLength
  /-- The sectors are those that the locator leads to. -/
  opening : file.IsOpening owner locator.startSector sectors
  /-- The part in the last sector is at fault, and those before it are in order. -/
  last : ∃ i, ∃ h : i + 1 = sectors.length,
    (∀ j (before : j < i), file.PartInOrder owner locator.byteLength j sectors[j]) ∧
      file.PartFault owner locator.byteLength i sectors[i] error

/-- A trail is an opening whose parts are all in order. -/
theorem Trail.isOpening {length i start next : Nat} {sectors : List Nat}
    (trail : file.Trail owner length i start sectors next) :
    file.IsOpening owner start (sectors ++ [next]) := by
  induction trail with
  | stop i sector => exact ⟨by simp, .singleton sector⟩
  | @step i sector next sectors inOrder rest ih =>
    refine ⟨by simp, ?_⟩
    obtain ⟨head, linked⟩ := ih
    rw [List.cons_append]
    exact linked.cons head

theorem Trail.inOrder {length i start next : Nat} {sectors : List Nat}
    (trail : file.Trail owner length i start sectors next) (k : Nat) (h : k < sectors.length) :
    file.PartInOrder owner length (i + k) sectors[k] := by
  induction trail generalizing k with
  | stop i sector => simp at h
  | @step i sector next sectors inOrder rest ih =>
    cases k with
    | zero => simpa using inOrder
    | succ k =>
      have h := ih k (by simpa using h)
      rwa [Nat.add_right_comm] at h

/-- An opening whose parts are all in order but the last one is a trail that leads there. -/
theorem trail_of_isOpening {length i start next : Nat} {sectors : List Nat}
    (opening : file.IsOpening owner start (sectors ++ [next]))
    (inOrder : ∀ k (h : k < sectors.length), file.PartInOrder owner length (i + k) sectors[k]) :
    file.Trail owner length i start sectors next := by
  induction sectors generalizing i start with
  | nil =>
    obtain rfl : next = start := opening.head next (by simp)
    exact .stop i next
  | cons sector sectors ih =>
    obtain rfl : sector = start := opening.head sector (by simp)
    have linked := opening.linked
    rw [List.cons_append, List.isChain_cons] at linked
    refine .step (inOrder 0 (by simp)) (ih ⟨linked.1, linked.2⟩ ?_)
    intro k h
    have shifted := inOrder (k + 1) (by simpa using h)
    rw [Nat.add_assoc, Nat.add_comm 1 k]
    exact shifted

/-- Every chain points on: behind its last sector there is a next one. -/
theorem IsOpening.exists_next {start : Nat} {sectors : List Nat}
    (opening : file.IsOpening owner start sectors) :
    ∃ next, file.IsOpening owner start (sectors ++ [next]) := by
  rcases sectors.eq_nil_or_concat' with rfl | ⟨before, last, rfl⟩
  · exact ⟨start, by simp, .singleton start⟩
  · refine ⟨(file.headerAt owner last).nextSector, ?_, ?_⟩
    · intro sector h
      refine opening.head sector ?_
      simpa [List.head?_append] using h
    · refine List.isChain_append.2 ⟨opening.linked, .singleton _, ?_⟩
      simp

theorem IsOpening.of_append {start next : Nat} {sectors : List Nat}
    (opening : file.IsOpening owner start (sectors ++ [next])) :
    file.IsOpening owner start sectors := by
  refine ⟨?_, (List.isChain_append.1 opening.linked).1⟩
  intro sector h
  refine opening.head sector ?_
  rw [List.head?_append, Option.mem_def.1 h]
  rfl

theorem IsRecordChain.exists_trail {locator : Locator} {sectors : List Nat}
    (chain : file.IsRecordChain owner locator sectors) :
    ∃ next, file.Trail owner locator.byteLength 0 locator.startSector sectors next := by
  obtain ⟨next, opening⟩ := chain.opening.exists_next
  refine ⟨next, trail_of_isOpening opening ?_⟩
  intro k h
  rw [Nat.zero_add]
  exact chain.inOrder k h

/-- The sectors before the one at fault are a trail that leads there. -/
theorem BreaksWith.trail {locator : Locator} {sectors : List Nat} {failing : Nat}
    {error : SectorError} (breaks : file.BreaksWith owner locator (sectors ++ [failing]) error) :
    file.Trail owner locator.byteLength 0 locator.startSector sectors failing ∧
      sectors.length < partCount owner locator.byteLength ∧
      file.PartFault owner locator.byteLength sectors.length failing error := by
  obtain ⟨count, opening, i, last, inOrder, fault⟩ := breaks
  obtain rfl : i = sectors.length := by simpa using last
  refine ⟨trail_of_isOpening opening ?_, by simpa using count, ?_⟩
  · intro k h
    have earlier := inOrder k h
    rw [List.getElem_append_left h] at earlier
    rwa [Nat.zero_add]
  · simpa using fault

theorem BreaksWith.exists_failing {locator : Locator} {sectors : List Nat} {error : SectorError}
    (breaks : file.BreaksWith owner locator sectors error) :
    ∃ before failing, sectors = before ++ [failing] := by
  rcases sectors.eq_nil_or_concat' with rfl | found
  · obtain ⟨-, -, i, last, -⟩ := breaks
    simp at last
  · exact found

theorem BreaksWith.exists_trail {locator : Locator} {sectors : List Nat} {error : SectorError}
    (breaks : file.BreaksWith owner locator sectors error) :
    ∃ before next, file.Trail owner locator.byteLength 0 locator.startSector before next ∧
      before.length < partCount owner locator.byteLength ∧
      file.PartFault owner locator.byteLength before.length next error := by
  obtain ⟨before, next, rfl⟩ := breaks.exists_failing
  exact ⟨before, next, breaks.trail⟩

/-! ## Lengths -/

theorem length_payloadAt {length i sector : Nat} (h : file.PartInOrder owner length i sector) :
    (file.payloadAt owner length i sector).length =
      min owner.payloadSize (length - i * owner.payloadSize) := by
  have inFile := h.inFile
  simp only [payloadAt, slice, Array.length_toList, Array.size_extract]
  omega

theorem Trail.length_parts {length i start next : Nat} {sectors : List Nat}
    (trail : file.Trail owner length i start sectors next) :
    (file.partsOf owner length i sectors).flatten.length =
      min (sectors.length * owner.payloadSize) (length - i * owner.payloadSize) := by
  induction trail with
  | stop i sector => simp [partsOf]
  | @step i sector next sectors inOrder rest ih =>
    have cons : file.partsOf owner length i (sector :: sectors) =
        file.payloadAt owner length i sector :: file.partsOf owner length (i + 1) sectors := rfl
    rw [cons, List.flatten_cons, List.length_append, length_payloadAt inOrder, ih,
      List.length_cons, Nat.succ_mul, Nat.succ_mul]
    generalize sectors.length * owner.payloadSize = held
    generalize i * owner.payloadSize = before
    omega

/-! ## Whole payloads -/

variable (file owner) in
/-- The bytes behind the header of a sector, as far as the file has them. -/
def bodyAt (sector : Nat) : Bytes :=
  let body := Owner.sectorSize * sector + owner.headerSize
  slice file.bytes body (body + owner.payloadSize)

/-- Of the bytes behind its header a sector gives as many as the record has left. -/
theorem payloadAt_eq_take (length i sector : Nat) :
    file.payloadAt owner length i sector =
      (file.bodyAt owner sector).take (length - i * owner.payloadSize) := by
  rw [bodyAt, take_slice, payloadAt]

theorem length_bodyAt_le (sector : Nat) : (file.bodyAt owner sector).length ≤ owner.payloadSize := by
  simp only [bodyAt, slice_eq, List.length_take]
  omega

theorem PartInOrder.le_length_bodyAt {length i sector : Nat}
    (h : file.PartInOrder owner length i sector) :
    min owner.payloadSize (length - i * owner.payloadSize) ≤ (file.bodyAt owner sector).length := by
  have inFile := h.inFile
  simp only [bodyAt, slice_eq, List.length_take, List.length_drop, Array.length_toList]
  omega

/-- Only the last part of a record is cut short, so the parts are the front of what the sectors have. -/
theorem Trail.flatten_partsOf {length i start next : Nat} {sectors : List Nat}
    (trail : file.Trail owner length i start sectors next) :
    (file.partsOf owner length i sectors).flatten =
      (sectors.map (file.bodyAt owner)).flatten.take (length - i * owner.payloadSize) := by
  induction trail with
  | stop i sector => simp [partsOf]
  | @step i sector next sectors inOrder rest ih =>
    have cons : file.partsOf owner length i (sector :: sectors) =
        file.payloadAt owner length i sector :: file.partsOf owner length (i + 1) sectors := rfl
    have enough := inOrder.le_length_bodyAt
    have atMost : (file.bodyAt owner sector).length ≤ owner.payloadSize := length_bodyAt_le sector
    have left : length - (i + 1) * owner.payloadSize =
        length - i * owner.payloadSize - (file.bodyAt owner sector).length := by
      rw [Nat.succ_mul]
      omega
    rw [cons, List.flatten_cons, ih, payloadAt_eq_take, List.map_cons, List.flatten_cons,
      List.take_append, left]

/-! ## Whole reads -/

theorem read_of_not_holds {locator : Locator} (absent : file.holds locator = false) :
    file.read owner locator = .ok [] := by
  simp [read, follow, absent, ChainReading.bytes]

theorem read_of_isRecordChain {locator : Locator} {sectors : List Nat}
    (present : file.holds locator = true) (chain : file.IsRecordChain owner locator sectors) :
    file.read owner locator =
      .ok (file.partsOf owner locator.byteLength 0 sectors).flatten := by
  obtain ⟨next, trail⟩ := chain.exists_trail
  have walked := followFrom_of_complete trail
  rw [chain.count] at walked
  simp [read, follow, present, walked, ChainReading.bytes]

theorem read_of_breaksWith {locator : Locator} {sectors : List Nat} {error : SectorError}
    (present : file.holds locator = true) (breaks : file.BreaksWith owner locator sectors error) :
    file.read owner locator = .error error := by
  obtain ⟨before, next, trail, shorter, fault⟩ := breaks.exists_trail
  have walked := followFrom_of_broken trail shorter (by rwa [Nat.zero_add])
  simp [read, follow, present, walked]

/-- Either a whole record is in order in the chain of a locator, or the chain breaks. -/
theorem exists_isRecordChain_or_breaksWith (file : DataFile) (owner : Owner) (locator : Locator) :
    (∃ sectors, file.IsRecordChain owner locator sectors) ∨
      ∃ sectors error, file.BreaksWith owner locator sectors error := by
  obtain ⟨sectors, next, trail, ends⟩ := @exists_trail file owner
    locator.byteLength (partCount owner locator.byteLength) 0 locator.startSector
  have inOrder : ∀ k (h : k < sectors.length),
      file.PartInOrder owner locator.byteLength k sectors[k] := by
    intro k h
    have := trail.inOrder k h
    rwa [Nat.zero_add] at this
  rcases ends with complete | ⟨shorter, error, fault⟩
  · exact .inl ⟨sectors, complete, trail.isOpening.of_append, inOrder⟩
  · rw [Nat.zero_add] at fault
    refine .inr ⟨sectors ++ [next], error, by simpa using shorter, trail.isOpening,
      sectors.length, by simp, ?_, by simpa using fault⟩
    intro j before
    rw [List.getElem_append_left before]
    exact inOrder j before

theorem length_le_partCount_mul (owner : Owner) (length : Nat) :
    length ≤ partCount owner length * owner.payloadSize := by
  unfold partCount Owner.payloadSize Owner.headerSize Owner.sectorSize
  split <;> omega

theorem IsRecordChain.length_parts {locator : Locator} {sectors : List Nat}
    (chain : file.IsRecordChain owner locator sectors) :
    (file.partsOf owner locator.byteLength 0 sectors).flatten.length = locator.byteLength := by
  obtain ⟨next, trail⟩ := chain.exists_trail
  have enough := length_le_partCount_mul owner locator.byteLength
  rw [trail.length_parts, chain.count]
  omega

theorem PartFault.ne_unopenable {length i sector : Nat} {error : SectorError}
    (fault : file.PartFault owner length i sector error) : error ≠ .unopenable := by
  cases fault <;> simp

/-- **What reading a record comes to.**  A locator that points to no sector of the file reads as
nothing.  Otherwise the record is read exactly if a chain of sectors has all its parts in order, it is
then as long as the locator says, and if there is no such chain, the failure is that of the first part
that is not in order. -/
theorem read_eq_iff_chain (file : DataFile) (owner : Owner) (locator : Locator)
    (countable : file.bytes.size / 520 < 2 ^ 32) :
    file.sectorCount = file.bytes.size / 520 ∧
    ((locator.startSector = 0 ∨ file.sectorCount < locator.startSector) →
      file.read owner locator = .ok []) ∧
    (locator.startSector ≠ 0 → locator.startSector ≤ file.sectorCount →
      (∀ bytes, file.read owner locator = .ok bytes ↔
        ∃ sectors, file.IsRecordChain owner locator sectors ∧
          bytes = (file.partsOf owner locator.byteLength 0 sectors).flatten) ∧
      (∀ bytes, file.read owner locator = .ok bytes → bytes.length = locator.byteLength) ∧
      (∀ error, file.read owner locator = .error error ↔
        ∃ sectors, file.BreaksWith owner locator sectors error)) ∧
    file.read owner locator ≠ .error .unopenable := by
  have decided := exists_isRecordChain_or_breaksWith file owner locator
  refine ⟨Nat.mod_eq_of_lt countable, ?_, ?_, ?_⟩
  · intro absent
    apply read_of_not_holds
    simp only [holds, Bool.and_eq_false_iff, bne_eq_false_iff_eq, decide_eq_false_iff_not, not_le]
    exact absent
  · intro nonzero le
    have present : file.holds locator = true := by simp [holds, nonzero, le]
    have ok_iff : ∀ bytes, file.read owner locator = .ok bytes ↔
        ∃ sectors, file.IsRecordChain owner locator sectors ∧
          bytes = (file.partsOf owner locator.byteLength 0 sectors).flatten := by
      intro bytes
      constructor
      · intro ok
        rcases decided with ⟨sectors, chain⟩ | ⟨sectors, error, breaks⟩
        · rw [read_of_isRecordChain present chain, Except.ok.injEq] at ok
          exact ⟨sectors, chain, ok.symm⟩
        · rw [read_of_breaksWith present breaks] at ok
          cases ok
      · rintro ⟨sectors, chain, rfl⟩
        exact read_of_isRecordChain present chain
    refine ⟨ok_iff, ?_, ?_⟩
    · intro bytes ok
      obtain ⟨sectors, chain, rfl⟩ := (ok_iff bytes).1 ok
      exact chain.length_parts
    · intro error
      constructor
      · intro failed
        rcases decided with ⟨sectors, chain⟩ | ⟨sectors, found, breaks⟩
        · rw [read_of_isRecordChain present chain] at failed
          cases failed
        · rw [read_of_breaksWith present breaks, Except.error.injEq] at failed
          exact ⟨sectors, failed ▸ breaks⟩
      · rintro ⟨sectors, breaks⟩
        exact read_of_breaksWith present breaks
  · intro failed
    cases present : file.holds locator with
    | false =>
      rw [read_of_not_holds present] at failed
      cases failed
    | true =>
      rcases decided with ⟨sectors, chain⟩ | ⟨sectors, error, breaks⟩
      · rw [read_of_isRecordChain present chain] at failed
        cases failed
      · rw [read_of_breaksWith present breaks, Except.error.injEq] at failed
        obtain ⟨before, next, -, -, fault⟩ := breaks.exists_trail
        exact fault.ne_unopenable failed

/-- A file with a record of two parts, of which the second one is in the sector before that of the first
one. -/
def backward : DataFile where
  bytes := (List.replicate 520 0 ++
    (Owner.encodeHeader ⟨2, 7⟩ 1 0 ++ List.replicate 512 30) ++
    (Owner.encodeHeader ⟨2, 7⟩ 0 1 ++ List.replicate 512 10)).toArray

theorem backward_headerAt :
    backward.headerAt ⟨2, 7⟩ 2 = ⟨7, 0, 1, 2⟩ ∧ backward.headerAt ⟨2, 7⟩ 1 = ⟨7, 1, 0, 2⟩ := by
  decide +kernel

/-- Both parts are in order, whatever comes behind them. -/
theorem backward_inOrder (length : Nat) :
    backward.PartInOrder ⟨2, 7⟩ length 0 2 ∧ backward.PartInOrder ⟨2, 7⟩ length 1 1 := by
  obtain ⟨first, second⟩ := backward_headerAt
  have size : backward.bytes.size = 1560 := by decide +kernel
  have count : backward.sectorCount = 3 := by decide +kernel
  have payload : Owner.payloadSize ⟨2, 7⟩ = 512 := by decide
  have header : Owner.headerSize ⟨2, 7⟩ = 8 := by decide
  have sector : Owner.sectorSize = 520 := rfl
  refine ⟨⟨by decide, by omega, ?_, ?_, ?_, ?_⟩, ⟨by decide, by omega, ?_, ?_, ?_, ?_⟩⟩ <;>
    simp [first, second, count]

theorem backward_isOpening : backward.IsOpening ⟨2, 7⟩ 2 [2, 1, 0] := by
  obtain ⟨first, second⟩ := backward_headerAt
  refine ⟨by simp, ?_⟩
  simp [first, second]

/-- The record is read along its link.  With a length that takes three parts, the third one is missed
where the second one says that nothing follows. -/
theorem read_backward :
    backward.bytes.size / 520 < 2 ^ 32 ∧
      backward.IsRecordChain ⟨2, 7⟩ ⟨2, 600⟩ [2, 1] ∧
      backward.read ⟨2, 7⟩ ⟨2, 600⟩ = .ok (List.replicate 512 10 ++ List.replicate 88 30) ∧
      backward.BreaksWith ⟨2, 7⟩ ⟨2, 1025⟩ [2, 1, 0] (.truncatedChain 2 7 1024 1025) ∧
      backward.read ⟨2, 7⟩ ⟨2, 1025⟩ = .error (.truncatedChain 2 7 1024 1025) := by
  have countable : backward.bytes.size / 520 < 2 ^ 32 := by decide +kernel
  have inside : 2 ≤ backward.sectorCount := by decide +kernel
  have chain : backward.IsRecordChain ⟨2, 7⟩ ⟨2, 600⟩ [2, 1] := by
    obtain ⟨first, second⟩ := backward_inOrder 600
    have opening : backward.IsOpening ⟨2, 7⟩ 2 ([2, 1] ++ [0]) := backward_isOpening
    refine ⟨by decide, opening.of_append, ?_⟩
    rintro (_ | _ | i) h
    · exact first
    · exact second
    · simp at h
  have breaks : backward.BreaksWith ⟨2, 7⟩ ⟨2, 1025⟩ [2, 1, 0] (.truncatedChain 2 7 1024 1025) := by
    obtain ⟨first, second⟩ := backward_inOrder 1025
    refine ⟨by decide, backward_isOpening, 2, rfl, ?_, .truncated rfl⟩
    rintro (_ | _ | j) before
    · exact first
    · exact second
    · omega
  have parts : List.replicate 512 10 ++ List.replicate 88 30 =
      (backward.partsOf ⟨2, 7⟩ 600 0 [2, 1]).flatten := by
    simp only [partsOf, payloadAt, backward, slice_toArray]
    decide +kernel
  have whole := (read_eq_iff_chain backward ⟨2, 7⟩ ⟨2, 600⟩ countable).2.2.1 (by decide) inside
  have longer := (read_eq_iff_chain backward ⟨2, 7⟩ ⟨2, 1025⟩ countable).2.2.1 (by decide) inside
  exact ⟨countable, chain, (whole.1 _).2 ⟨_, chain, parts⟩, breaks, (longer.2.2 _).2 ⟨_, breaks⟩⟩

end DataFile
end SectorVault
