import Mathlib
import SectorVault.Proofs.Store.Holding
import SectorVault.Store.Walk

/-!
# What a walk leaves in its buffer

A walk adds to its buffer what the parts of the record hold, in order, and nothing else; what the buffer
held before is neither changed nor looked at.  This goes for a walk that fails as well, and then it matters
in which order a sector is checked and its bytes are added.

A walk that has read `i` parts does with the next sector what reading part `i` does: it fails in the same
way, or it adds the same bytes and goes on to the same sector (`step_eq`).  The number of bytes read and
the number of the part, which the walk keeps for itself, are determined by `i`; the bytes are a whole
number of parts until the record is complete.  So a walk comes to what following the chain comes to,
behind the bytes that the buffer held before (`extend_eq_readInto`).

A sector only fails if bytes are missing, so the parts before it are whole: each of them is all that its
sector has behind the header (`BreaksWith.readInto_eq`).
-/

namespace SectorVault
namespace DataFile

variable {file : DataFile} {owner : Owner} {locator : Locator} {length i sector : Nat}
  {buffer : Bytes}

/-! ## One sector -/

/-- A header is refused if it names another group, another part or another archive. -/
theorem ne_header_iff {found : SectorHeader} {part : UInt16} :
    found ≠ owner.header part found.nextSector ↔
      found.owner ≠ owner.group ∨ found.part ≠ part ∨ found.archive ≠ owner.archive := by
  obtain ⟨group, number, next, archive⟩ := found
  simp only [Owner.header, ne_eq, SectorHeader.mk.injEq]
  tauto

/-- A walk that has read `i` parts reads part `i` next. -/
theorem step_eq (unread : i * owner.payloadSize < length) :
    file.step owner length ⟨buffer, i * owner.payloadSize, sector, UInt16.ofNat i⟩ =
      (file.readPart owner length i sector).map fun (bytes, next) =>
        ⟨buffer ++ bytes, min ((i + 1) * owner.payloadSize) length, next, UInt16.ofNat (i + 1)⟩ := by
  have read : i * owner.payloadSize + min (length - i * owner.payloadSize) owner.payloadSize =
      min ((i + 1) * owner.payloadSize) length := by
    rw [Nat.succ_mul]
    omega
  have part : UInt16.ofNat i + 1 = UInt16.ofNat (i + 1) := by simp
  unfold step readPart
  simp only [read, part, ← ne_header_iff]
  split
  · rfl
  · split
    · rfl
    · split
      · rfl
      · split <;> rfl

/-! ## Whole walks -/

section Finish

variable {walk next : Walk}

theorem finish_of_complete (complete : length ≤ walk.read) :
    file.finish owner length walk = (walk.buffer, none) := by
  rw [finish, dif_neg (Nat.not_lt.2 complete)]

theorem finish_of_ok (unread : walk.read < length) (passed : file.step owner length walk = .ok next) :
    file.finish owner length walk = file.finish owner length next := by
  rw [finish, dif_pos unread]
  split
  · next failed =>
    rw [passed] at failed
    cases failed
  · next passed' =>
    rw [passed] at passed'
    cases passed'
    rfl

theorem finish_of_error {error : SectorError} (unread : walk.read < length)
    (failed : file.step owner length walk = .error error) :
    file.finish owner length walk = (walk.buffer, some error) := by
  rw [finish, dif_pos unread]
  split
  · next failed' =>
    rw [failed] at failed'
    cases failed'
    rfl
  · next passed =>
    rw [failed] at passed
    cases passed

end Finish

/-- The parts that are already read stay in front of those that follow. -/
theorem followFrom_done (count i sector : Nat) (done : List Bytes) :
    file.followFrom owner length count i sector done =
      ⟨done.reverse ++ (file.followFrom owner length count i sector []).parts,
        (file.followFrom owner length count i sector []).failure⟩ := by
  induction count generalizing i sector done with
  | zero => simp [followFrom]
  | succ count ih =>
    unfold followFrom
    cases file.readPart owner length i sector with
    | error error => simp
    | ok part =>
      simp only
      rw [ih _ _ (part.1 :: done), ih _ _ [part.1]]
      simp

/-- With `count` parts to go, a walk comes to what following the chain for as many parts comes to. -/
theorem finish_eq_followFrom {count : Nat} (toGo : i + count = partCount owner length) :
    file.finish owner length
        ⟨buffer, min (i * owner.payloadSize) length, sector, UInt16.ofNat i⟩ =
      (buffer ++ (file.followFrom owner length count i sector []).bytes,
        (file.followFrom owner length count i sector []).failure) := by
  induction count generalizing i sector buffer with
  | zero =>
    have enough := length_le_partCount_mul owner length
    rw [← toGo, Nat.add_zero] at enough
    rw [finish_of_complete (by rw [min_eq_right enough])]
    simp [followFrom, ChainReading.bytes]
  | succ count ih =>
    have unread : i * owner.payloadSize < length := mul_lt_of_lt_partCount (by omega)
    have step := @step_eq file owner length i sector buffer unread
    rw [min_eq_left unread.le, followFrom]
    cases answer : file.readPart owner length i sector with
    | error error =>
      rw [answer] at step
      rw [finish_of_error unread step]
      simp [ChainReading.bytes]
    | ok part =>
      obtain ⟨bytes, next⟩ := part
      rw [answer] at step
      rw [finish_of_ok unread step, ih (by omega)]
      simp only
      rw [followFrom_done _ _ _ [bytes]]
      simp [ChainReading.bytes]

theorem extend_eq_readInto (file : DataFile) (owner : Owner) (locator : Locator) (buffer : Bytes) :
    file.extend owner locator buffer = file.readInto owner locator buffer := by
  unfold extend readInto follow
  split
  · have start := @finish_eq_followFrom file owner locator.byteLength 0 locator.startSector buffer
      (partCount owner locator.byteLength) (Nat.zero_add _)
    rwa [Nat.zero_mul, Nat.zero_min] at start
  · simp [ChainReading.bytes]

/-! ## Reads -/

theorem readInto_of_ok {bytes : Bytes} (read : file.read owner locator = .ok bytes) (buffer : Bytes) :
    file.readInto owner locator buffer = (buffer ++ bytes, none) := by
  simp only [DataFile.read] at read
  simp only [readInto]
  split at read
  · cases read
  · next complete =>
    cases read
    rw [complete]

theorem snd_readInto_of_error {error : SectorError}
    (read : file.read owner locator = .error error) (buffer : Bytes) :
    (file.readInto owner locator buffer).2 = some error := by
  simp only [DataFile.read] at read
  simp only [readInto]
  split at read
  · next failed =>
    cases read
    exact failed
  · cases read

theorem holds_of_error {error : SectorError} (read : file.read owner locator = .error error) :
    file.holds locator = true := by
  by_contra absent
  rw [read_of_not_holds (by simpa using absent)] at read
  cases read

/-- A record that is not read has a first part that is not in order. -/
theorem exists_breaksWith {error : SectorError} (read : file.read owner locator = .error error) :
    ∃ sectors failing, file.BreaksWith owner locator (sectors ++ [failing]) error := by
  have present := holds_of_error read
  rcases exists_isRecordChain_or_breaksWith file owner locator with
    ⟨sectors, chain⟩ | ⟨sectors, found, breaks⟩
  · rw [read_of_isRecordChain present chain] at read
    cases read
  · rw [read_of_breaksWith present breaks, Except.error.injEq] at read
    obtain ⟨before, failing, rfl⟩ := breaks.exists_failing
    exact ⟨before, failing, read ▸ breaks⟩

/-! ## Whole parts -/

namespace BreaksWith

variable {sectors : List Nat} {failing : Nat} {error : SectorError}

/-- The parts before the one at fault are whole. -/
theorem length_bodyAt (breaks : file.BreaksWith owner locator (sectors ++ [failing]) error) :
    ∀ sector ∈ sectors, (file.bodyAt owner sector).length = owner.payloadSize := by
  intro sector mem
  obtain ⟨trail, shorter, -⟩ := breaks.trail
  obtain ⟨k, inside, rfl⟩ := List.getElem_of_mem mem
  have inOrder := trail.inOrder k inside
  rw [Nat.zero_add] at inOrder
  have enough := inOrder.le_length_bodyAt
  have atMost : (file.bodyAt owner sectors[k]).length ≤ owner.payloadSize := length_bodyAt_le _
  -- behind the part there is at least the one at fault
  have behind := mul_lt_of_lt_partCount (Nat.lt_of_le_of_lt (Nat.succ_le_of_lt inside) shorter)
  rw [Nat.succ_mul] at behind
  omega

theorem length_flatten (breaks : file.BreaksWith owner locator (sectors ++ [failing]) error) :
    (sectors.map (file.bodyAt owner)).flatten.length = sectors.length * owner.payloadSize := by
  rw [length_flatten_blocks (List.forall_mem_map.2 breaks.length_bodyAt), List.length_map,
    Nat.mul_comm]

theorem length_flatten_lt (breaks : file.BreaksWith owner locator (sectors ++ [failing]) error) :
    (sectors.map (file.bodyAt owner)).flatten.length < locator.byteLength := by
  rw [breaks.length_flatten]
  exact mul_lt_of_lt_partCount breaks.trail.2.1

/-- What is added to the buffer before a sector fails. -/
theorem readInto_eq (breaks : file.BreaksWith owner locator (sectors ++ [failing]) error)
    (present : file.holds locator = true) (buffer : Bytes) :
    file.readInto owner locator buffer =
      (buffer ++ (sectors.map (file.bodyAt owner)).flatten, some error) := by
  obtain ⟨trail, shorter, fault⟩ := breaks.trail
  have walked := followFrom_of_broken trail shorter (by rwa [Nat.zero_add])
  have whole : (file.partsOf owner locator.byteLength 0 sectors).flatten =
      (sectors.map (file.bodyAt owner)).flatten := by
    rw [trail.flatten_partsOf, Nat.zero_mul, Nat.sub_zero]
    exact List.take_of_length_le breaks.length_flatten_lt.le
  simp [readInto, follow, present, walked, ChainReading.bytes, whole]

/-- A chain that ends too early is reported with the number of bytes that were added. -/
theorem read_eq_of_truncatedChain {archive : UInt8} {group : UInt32} {read length : Nat}
    (breaks : file.BreaksWith owner locator (sectors ++ [failing])
      (.truncatedChain archive group read length)) :
    (sectors.map (file.bodyAt owner)).flatten.length = read := by
  rw [breaks.length_flatten]
  cases breaks.trail.2.2
  rfl

end BreaksWith

/-! ## The buffer -/

/-- **Reading into a buffer only adds to it.**  What is added, and whether the record is read, does not depend
on what the buffer holds.  A record that is read is added as a whole.  If it is not read, the failure is the
one of reading it alone, and what is added is all that the sectors have which passed before the one that
failed; that is a whole number of parts and less than the record. -/
theorem extend_appends (file : DataFile) (owner : Owner) (locator : Locator) (buffer : Bytes) :
    (∃ added failure, ∀ other, file.extend owner locator other = (other ++ added, failure)) ∧
    ((file.extend owner locator buffer).2 = none ↔ ∃ bytes, file.read owner locator = .ok bytes) ∧
    (∀ bytes, file.read owner locator = .ok bytes →
      file.extend owner locator buffer = (buffer ++ bytes, none)) ∧
    (∀ error, (file.extend owner locator buffer).2 = some error ↔
      file.read owner locator = .error error) ∧
    (∀ error, file.read owner locator = .error error →
      ∃ passed failing, file.BreaksWith owner locator (passed ++ [failing]) error ∧
        let added := (passed.map (file.bodyAt owner)).flatten
        file.extend owner locator buffer = (buffer ++ added, some error) ∧
        (∀ sector ∈ passed, (file.bodyAt owner sector).length = owner.payloadSize) ∧
        added.length < locator.byteLength ∧
        (∀ archive group read length, error = .truncatedChain archive group read length →
          added.length = read)) := by
  simp only [extend_eq_readInto]
  refine ⟨⟨_, _, fun other => rfl⟩, ?_, fun bytes ok => readInto_of_ok ok buffer, ?_, ?_⟩
  · cases read : file.read owner locator with
    | ok bytes => simp [readInto_of_ok read]
    | error error => simp [snd_readInto_of_error read]
  · intro error
    cases read : file.read owner locator with
    | ok bytes => simp [readInto_of_ok read]
    | error found => simp [snd_readInto_of_error read]
  · intro error failed
    obtain ⟨passed, failing, breaks⟩ := exists_breaksWith failed
    refine ⟨passed, failing, breaks, breaks.readInto_eq (holds_of_error failed) buffer,
      breaks.length_bodyAt, breaks.length_flatten_lt, ?_⟩
    rintro archive group read length rfl
    exact breaks.read_eq_of_truncatedChain

/-- A file with a sector that points to none. -/
def ending : DataFile where
  bytes := (List.replicate 520 0 ++
    (Owner.encodeHeader ⟨2, 7⟩ 0 0 ++ List.replicate 512 10)).toArray

/-- Of a record of 600 bytes whose chain ends after its first part, 512 bytes are left in the buffer. -/
theorem extend_appends_ending :
    ending.read ⟨2, 7⟩ ⟨1, 600⟩ = .error (.truncatedChain 2 7 512 600) ∧
      ∃ added, ending.extend ⟨2, 7⟩ ⟨1, 600⟩ [1, 2, 3] =
          ([1, 2, 3] ++ added, some (.truncatedChain 2 7 512 600)) ∧
        added.length = 512 := by
  have failed : ending.read ⟨2, 7⟩ ⟨1, 600⟩ = .error (.truncatedChain 2 7 512 600) := by
    decide +kernel
  obtain ⟨-, -, -, -, leftover⟩ := extend_appends ending ⟨2, 7⟩ ⟨1, 600⟩ [1, 2, 3]
  obtain ⟨passed, failing, -, extended, -, -, told⟩ := leftover _ failed
  exact ⟨failed, _, extended, told _ _ _ _ rfl⟩

end DataFile
end SectorVault
