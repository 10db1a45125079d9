import Mathlib
import SectorVault.Proofs.Cache.History
import SectorVault.Proofs.Cache.Opening

/-!
# Which entries a checksum table keeps

A checksum table is meant to be indexed by the numbers of archives (`ChecksumTable.Indexed`): it is just
long enough for the greatest number, the entry at the number of an archive is that of its table, and all
others are zero.

It is built by placing one entry after another, and placing an entry cuts off whatever is behind it.  So
the entry of an archive is there in the end exactly if no smaller number comes after it (`Survives`), and
the last number alone decides the length.  If the store lists the archives in ascending order, as an opened
directory does, then all entries survive and the table is indexed (`indexed_ofCache_of_ascends`,
`indexed_ofCache_of_ofDirectory`).  For any order it is indexed exactly if nothing is lost but zeros that are
filled in again (`NothingLost`, `ofCache_indexed_iff`).
-/

namespace SectorVault
namespace ChecksumTable

/-! ## Placing entries -/

variable (entryOf : UInt8 → ChecksumEntry)

/-- The entries after those of some archives have been placed, from first to last. -/
def placeAll (numbers : List UInt8) (entries : List ChecksumEntry) : List ChecksumEntry :=
  numbers.foldl (fun entries number => place entries number.toNat (entryOf number)) entries

@[simp] theorem placeAll_append_singleton (numbers : List UInt8) (number : UInt8)
    (entries : List ChecksumEntry) :
    placeAll entryOf (numbers ++ [number]) entries =
      place (placeAll entryOf numbers entries) number.toNat (entryOf number) := by
  simp [placeAll]

variable {entryOf} {numbers archives : List UInt8}

@[simp] theorem length_place (entries : List ChecksumEntry) (number : Nat) (entry : ChecksumEntry) :
    (place entries number entry).length = number + 1 := by
  simp [place]
  omega

/-- The entry that is placed is the last one. -/
@[simp] theorem getElem?_place_self (entries : List ChecksumEntry) (number : Nat)
    (entry : ChecksumEntry) : (place entries number entry)[number]? = some entry := by
  have filled : (entries.take number ++
      List.replicate (number - entries.length) ChecksumEntry.zero).length = number := by
    simp
    omega
  rw [place, List.getElem?_append_right (by omega), filled, Nat.sub_self]
  rfl

/-- Before the entry that is placed, what was there remains, and the rest is zero. -/
theorem getElem?_place_of_lt (entries : List ChecksumEntry) (entry : ChecksumEntry) {i number : Nat}
    (before : i < number) :
    (place entries number entry)[i]? = some (entries[i]?.getD ChecksumEntry.zero) := by
  rw [place, List.getElem?_append_left (by simp; omega)]
  by_cases there : i < entries.length
  · rw [List.getElem?_append_left (by simp; omega), List.getElem?_take_of_lt before,
      List.getElem?_eq_getElem there]
    rfl
  · rw [List.getElem?_append_right (by simp; omega), List.getElem?_replicate_of_lt (by simp; omega),
      List.getElem?_eq_none (by omega)]
    rfl

/-! ## What survives -/

/-- A number is listed, and no smaller one is listed after it. -/
def Survives (numbers : List UInt8) (number : UInt8) : Prop :=
  ∃ before behind, numbers = before ++ number :: behind ∧ ∀ later ∈ behind, number ≤ later

theorem Survives.mem {number : UInt8} (survives : Survives numbers number) : number ∈ numbers := by
  obtain ⟨before, behind, rfl, -⟩ := survives
  simp

theorem not_survives_nil (number : UInt8) : ¬ Survives [] number :=
  fun survives => List.not_mem_nil survives.mem

/-- A number at the end survives, and lets those survive that are not greater. -/
theorem survives_append_singleton {number last : UInt8} :
    Survives (numbers ++ [last]) number ↔
      number = last ∨ number ≤ last ∧ Survives numbers number := by
  constructor
  · rintro ⟨before, behind, split, above⟩
    rcases List.eq_nil_or_concat' behind with rfl | ⟨behind, greatest, rfl⟩
    · obtain ⟨-, same⟩ := List.append_inj' split rfl
      simp_all
    · rw [← List.cons_append, ← List.append_assoc] at split
      obtain ⟨rfl, same⟩ := List.append_inj' split rfl
      obtain rfl : last = greatest := by simpa using same
      refine .inr ⟨above last (by simp), before, behind, rfl, fun later mem => above later ?_⟩
      simp [mem]
  · rintro (rfl | ⟨le, before, behind, rfl, above⟩)
    · exact ⟨numbers, [], rfl, by simp⟩
    · refine ⟨before, behind ++ [last], by simp, fun later mem => ?_⟩
      rcases List.mem_append.1 mem with mem | mem
      · exact above later mem
      · obtain rfl := List.mem_singleton.1 mem
        exact le

theorem survives_last (numbers : List UInt8) (last : UInt8) : Survives (numbers ++ [last]) last :=
  survives_append_singleton.2 (.inl rfl)

theorem le_of_survives {number last : UInt8} (survives : Survives (numbers ++ [last]) number) :
    number ≤ last := by
  rcases survives_append_singleton.1 survives with rfl | ⟨le, -⟩
  · exact UInt8.le_refl _
  · exact le

/-- If no number is greater than one behind it, all of them survive. -/
theorem survives_of_ascends (ascends : numbers.Pairwise (· ≤ ·)) {number : UInt8}
    (mem : number ∈ numbers) : Survives numbers number := by
  obtain ⟨before, behind, rfl⟩ := List.append_of_mem mem
  have ordered := (List.pairwise_append.1 ascends).2.1
  exact ⟨before, behind, rfl, (List.pairwise_cons.1 ordered).1⟩

theorem getElem?_placeAll_of_survives {number : UInt8} (survives : Survives numbers number) :
    (placeAll entryOf numbers [])[number.toNat]? = some (entryOf number) := by
  induction numbers using List.reverseRecOn with
  | nil => exact absurd survives (not_survives_nil number)
  | append_singleton numbers last ih =>
    rw [placeAll_append_singleton]
    rcases survives_append_singleton.1 survives with rfl | ⟨le, survives⟩
    · rw [getElem?_place_self]
    · by_cases same : number = last
      · rw [same, getElem?_place_self]
      · have before : number.toNat < last.toNat :=
          UInt8.lt_iff_toNat_lt.1 (UInt8.lt_of_le_of_ne le same)
        rw [getElem?_place_of_lt _ _ before, ih survives]
        rfl

theorem eq_zero_of_getElem?_placeAll {i : Nat} {entry : ChecksumEntry}
    (there : (placeAll entryOf numbers [])[i]? = some entry)
    (lost : ∀ number, Survives numbers number → number.toNat ≠ i) : entry = ChecksumEntry.zero := by
  induction numbers using List.reverseRecOn generalizing entry with
  | nil => simp [placeAll] at there
  | append_singleton numbers last ih =>
    rw [placeAll_append_singleton] at there
    have other : last.toNat ≠ i := lost last (survives_last numbers last)
    have inside : i < last.toNat + 1 := by
      obtain ⟨inside, -⟩ := List.getElem?_eq_some_iff.1 there
      rwa [length_place] at inside
    rw [getElem?_place_of_lt _ _ (by omega)] at there
    cases earlier : (placeAll entryOf numbers [])[i]? with
    | none =>
      rw [earlier] at there
      exact (Option.some.inj there).symm
    | some found =>
      rw [earlier] at there
      obtain rfl : found = entry := Option.some.inj there
      apply ih earlier
      intro number survives same
      have le : number ≤ last := UInt8.le_iff_toNat_le.2 (by omega)
      exact lost number (survives_append_singleton.2 (.inr ⟨le, survives⟩)) same

/-! ## Indexed tables -/

/-- Entries that are indexed by the numbers of archives. -/
structure Indexed (archives : List UInt8) (entryOf : UInt8 → ChecksumEntry)
    (entries : List ChecksumEntry) : Prop where
  /-- There are just as many entries as the greatest number takes. -/
  length_eq : entries.length = (archives.map fun number => number.toNat + 1).foldr max 0
  /-- The entry of an archive is at its number. -/
  listed : ∀ number ∈ archives, entries[number.toNat]? = some (entryOf number)
  /-- At all other numbers there are zeros. -/
  unlisted : ∀ i entry, entries[i]? = some entry → (∀ number ∈ archives, number.toNat ≠ i) →
    entry = ChecksumEntry.zero

theorem foldr_max_eq_of_greatest {greatest : UInt8} (mem : greatest ∈ archives)
    (above : ∀ number ∈ archives, number ≤ greatest) :
    (archives.map fun number => number.toNat + 1).foldr max 0 = greatest.toNat + 1 := by
  apply Nat.le_antisymm
  · refine List.max_le_of_forall_le _ _ fun length taken => ?_
    obtain ⟨number, listed, rfl⟩ := List.mem_map.1 taken
    have le := UInt8.le_iff_toNat_le.1 (above number listed)
    omega
  · exact List.le_max_of_le (List.mem_map.2 ⟨greatest, mem, rfl⟩) le_rfl

/-- No entry is lost but zeros that are filled in again, before an entry that survives. -/
def NothingLost (archives : List UInt8) (entryOf : UInt8 → ChecksumEntry) : Prop :=
  ∀ number ∈ archives, Survives archives number ∨
    entryOf number = ChecksumEntry.zero ∧ ∃ greater, Survives archives greater ∧ number < greater

/-- The entry of a number that does not survive is missed, unless it is one of zeros. -/
theorem nothingLost_of_indexed {earlier : List UInt8} {last : UInt8}
    (indexed : Indexed (earlier ++ [last]) entryOf (placeAll entryOf (earlier ++ [last]) [])) :
    NothingLost (earlier ++ [last]) entryOf := by
  intro number mem
  by_cases survives : Survives (earlier ++ [last]) number
  · exact .inl survives
  · have there := indexed.listed number mem
    refine .inr ⟨?_, last, survives_last earlier last, ?_⟩
    · apply eq_zero_of_getElem?_placeAll there
      intro other kept same
      exact survives (UInt8.toNat_inj.1 same ▸ kept)
    · -- the table ends with the entry of the last number, so all numbers are below it
      have other : number ≠ last := fun same => survives (same ▸ survives_last earlier last)
      obtain ⟨inside, -⟩ := List.getElem?_eq_some_iff.1 there
      rw [placeAll_append_singleton, length_place] at inside
      exact UInt8.lt_of_le_of_ne (UInt8.le_iff_toNat_le.2 (Nat.le_of_lt_succ inside)) other

theorem NothingLost.le_last {earlier : List UInt8} {last : UInt8}
    (kept : NothingLost (earlier ++ [last]) entryOf) {number : UInt8}
    (mem : number ∈ earlier ++ [last]) : number ≤ last := by
  rcases kept number mem with survives | ⟨-, greater, survives, lt⟩
  · exact le_of_survives survives
  · exact UInt8.le_trans (UInt8.le_of_lt lt) (le_of_survives survives)

theorem NothingLost.indexed {earlier : List UInt8} {last : UInt8}
    (kept : NothingLost (earlier ++ [last]) entryOf) :
    Indexed (earlier ++ [last]) entryOf (placeAll entryOf (earlier ++ [last]) []) := by
  have length : (placeAll entryOf (earlier ++ [last]) []).length = last.toNat + 1 := by simp
  refine ⟨?_, ?_, ?_⟩
  · rw [length, foldr_max_eq_of_greatest (survives_last earlier last).mem fun _ => kept.le_last]
  · intro number mem
    by_cases survives : Survives (earlier ++ [last]) number
    · exact getElem?_placeAll_of_survives survives
    · have zero := ((kept number mem).resolve_left survives).1
      have inside : number.toNat < (placeAll entryOf (earlier ++ [last]) []).length := by
        rw [length]
        exact Nat.lt_succ_of_le (UInt8.le_iff_toNat_le.1 (kept.le_last mem))
      have there := List.getElem?_eq_getElem inside
      rw [there, zero, Option.some.injEq]
      apply eq_zero_of_getElem?_placeAll there
      intro other kept same
      exact survives (UInt8.toNat_inj.1 same ▸ kept)
  · intro i entry there unlisted
    exact eq_zero_of_getElem?_placeAll there fun number survives => unlisted number survives.mem

/-- Placing gives an indexed table exactly if nothing is lost. -/
theorem indexed_placeAll_iff :
    Indexed archives entryOf (placeAll entryOf archives []) ↔ NothingLost archives entryOf := by
  rcases List.eq_nil_or_concat' archives with rfl | ⟨earlier, last, rfl⟩
  · exact ⟨fun _ => by simp [NothingLost], fun _ => ⟨rfl, by simp, by simp [placeAll]⟩⟩
  · exact ⟨nothingLost_of_indexed, NothingLost.indexed⟩

theorem nothingLost_of_ascends (ascends : archives.Pairwise (· ≤ ·)) :
    NothingLost archives entryOf :=
  fun _ mem => .inl (survives_of_ascends ascends mem)

end ChecksumTable

/-! ## Collecting the entries of a cache -/

namespace Cache

open ChecksumTable

variable {cache : Cache} {tables : UInt8 → ReferenceTable}

/-- What a checksum table says of an archive with a given table. -/
def listedEntry (tables : UInt8 → ReferenceTable) (number : UInt8) : ChecksumEntry :=
  ⟨(tables number).crc, (tables number).revision⟩

theorem collect_fst (sound : cache.Sound) {numbers : List UInt8}
    (load : ∀ number ∈ numbers, cache.loadTable number = .ok (tables number))
    (entries : List ChecksumEntry) :
    (collect numbers entries cache).1 = .ok (placeAll (listedEntry tables) numbers entries) := by
  induction numbers generalizing entries cache with
  | nil => rfl
  | cons number numbers ih =>
    have answer := (table_fst sound number).trans (load number (by simp))
    obtain ⟨-, soundAfter, forgetAfter⟩ := transparent_table number cache sound
    unfold collect
    rcases tabled : cache.table number with ⟨result, after⟩
    simp only [tabled] at answer soundAfter forgetAfter
    subst answer
    have loadAfter : ∀ other ∈ numbers, after.loadTable other = .ok (tables other) := by
      intro other mem
      rw [← loadTable_forget, forgetAfter, loadTable_forget]
      exact load other (by simp [mem])
    exact ih soundAfter loadAfter _

/-- The checksum table of a cache whose archives all load, whatever was asked before. -/
theorem ofCache_fst_after {store : Store} {options : Options}
    (opened : ofStore store options = .ok cache)
    (load : ∀ number ∈ cache.archives, (cache.table number).1 = .ok (tables number))
    (session : Session) :
    (ofCache (cache.after session)).1 = .ok ⟨placeAll (listedEntry tables) cache.archives []⟩ := by
  have sound := sound_of_ofStore opened
  have loads : ∀ number ∈ cache.archives, cache.loadTable number = .ok (tables number) := by
    intro number mem
    rw [← table_fst sound number]
    exact load number mem
  have collected := collect_fst sound loads []
  have same : (ofCache (cache.after session)).1 = (ofCache cache).1 :=
    perform_fst_after opened session .checksums
  rw [same]
  exact congrArg (Except.map ChecksumTable.mk) collected

theorem archives_ascend_of_ofDirectory {directory : Directory} {options : Options}
    (opened : ofDirectory directory options = .ok cache) :
    cache.archives.Pairwise (· < ·) ∧ ∃ store, ofStore store options = .ok cache := by
  unfold ofDirectory at opened
  obtain ⟨disk, -, opened⟩ := bind_eq_ok.1 opened
  refine ⟨?_, disk.toStore, opened⟩
  rw [archives_of_toStore opened]
  exact Directory.liveArchives_ascends disk.master

end Cache

namespace ChecksumTable

open Cache

variable {cache : Cache} {store : Store} {options : Options} {tables : UInt8 → ReferenceTable}

/-- A cache that lists its archives in ascending order has an indexed checksum table. -/
theorem indexed_ofCache_of_ascends (opened : ofStore store options = .ok cache)
    (load : ∀ number ∈ cache.archives, (cache.table number).1 = .ok (tables number))
    (ascends : cache.archives.Pairwise (· ≤ ·)) (session : Session) :
    ∃ table, (ofCache (cache.after session)).1 = .ok table ∧
      Indexed cache.archives (listedEntry tables) table.entries :=
  ⟨_, ofCache_fst_after opened load session,
    indexed_placeAll_iff.2 (nothingLost_of_ascends ascends)⟩

/-- The cache in a directory has an indexed checksum table, if all its archives load. -/
theorem indexed_ofCache_of_ofDirectory {directory : Directory}
    (opened : ofDirectory directory options = .ok cache)
    (load : ∀ number ∈ cache.archives, (cache.table number).1 = .ok (tables number))
    (session : Session) :
    ∃ table, (ofCache (cache.after session)).1 = .ok table ∧
      Indexed cache.archives (listedEntry tables) table.entries := by
  obtain ⟨ascends, store, opened⟩ := archives_ascend_of_ofDirectory opened
  exact indexed_ofCache_of_ascends opened load (ascends.imp UInt8.le_of_lt) session

/-- **When a checksum table is indexed by archives.**  A cache whose archives all load has a checksum table,
whatever was asked before, and whichever order and repetitions the archives are listed in.  It is indexed by
the numbers of archives exactly if no entry is lost: each of them survives, or is one of zeros before
another that survives. -/
theorem ofCache_indexed_iff (opened : ofStore store options = .ok cache)
    (load : ∀ number ∈ cache.archives, (cache.table number).1 = .ok (tables number))
    (session : Session) :
    ∃ table, (ofCache (cache.after session)).1 = .ok table ∧
      (Indexed cache.archives (listedEntry tables) table.entries ↔
        NothingLost cache.archives (listedEntry tables)) :=
  ⟨_, ofCache_fst_after opened load session, indexed_placeAll_iff⟩

/-- The stored form of an empty table. -/
def emptyTableBytes : Bytes := [0, 0, 0, 0, 4, 5, 0, 0, 0]

/-- A store of empty tables, which lists them in a given order. -/
def emptyTablesStore (listed : List UInt32) : Store where
  list _ := .ok listed
  read archive _ :=
    if archive = masterArchive then .ok emptyTableBytes else .error (.archiveNotFound archive)

/-- The empty table of an archive. -/
def emptyTable (number : UInt8) : ReferenceTable where
  archive := number
  crc := 609698396
  digest := whirlpool emptyTableBytes
  compression := .none
  protocol := .unversioned
  revision := 0
  flags := ⟨false, false, false, false⟩
  groups := #[]
  byName := ∅

theorem decode_emptyTableBytes :
    Container.decode emptyTableBytes none = .ok ⟨[5, 0, 0, 0], .none, -1, 609698396, 9⟩ := by
  decide +kernel

theorem loadTable_emptyTablesStore (listed : List UInt32) {number : UInt8}
    (mem : number ∈ archivesOf listed) :
    loadTable ⟨emptyTablesStore listed, {}, archivesOf listed, ∅⟩ number =
      .ok (emptyTable number) := by
  unfold loadTable readRaw emptyTablesStore
  have known : (archivesOf listed).contains number = true := List.contains_iff_mem.2 mem
  have filled : emptyTableBytes.isEmpty = false := rfl
  simp only [known, Bool.not_true, if_true, bind, Except.bind, Except.mapError, filled,
    decode_emptyTableBytes]
  rfl

theorem table_emptyTablesStore (listed : List UInt32) :
    ∀ number ∈ archivesOf listed,
      (Cache.table ⟨emptyTablesStore listed, {}, archivesOf listed, ∅⟩ number).1 =
        .ok (emptyTable number) := by
  intro number mem
  have sound := sound_forget ⟨emptyTablesStore listed, {}, archivesOf listed, ∅⟩
  exact (table_fst sound number).trans (loadTable_emptyTablesStore listed mem)

/-- In ascending order, repeated numbers included, nothing is lost. -/
theorem indexed_ofCache_of_ascending_numbers :
    ofStore (emptyTablesStore [0, 2, 2]) {} =
        .ok ⟨emptyTablesStore [0, 2, 2], {}, [0, 2, 2], ∅⟩ ∧
      ∃ table, (ofCache ⟨emptyTablesStore [0, 2, 2], {}, [0, 2, 2], ∅⟩).1 = .ok table ∧
        Indexed [0, 2, 2] (listedEntry emptyTable) table.entries := by
  have opened : ofStore (emptyTablesStore [0, 2, 2]) {} =
      .ok ⟨emptyTablesStore [0, 2, 2], {}, [0, 2, 2], ∅⟩ := rfl
  obtain ⟨table, answer, indexed⟩ :=
    ofCache_indexed_iff opened (table_emptyTablesStore [0, 2, 2]) []
  exact ⟨opened, table, answer, indexed.2 (nothingLost_of_ascends (by decide))⟩

/-- The order matters: if the archive 0 is listed after the archive 2, the entry of the latter is lost. -/
theorem not_indexed_ofCache_of_descending_numbers :
    ofStore (emptyTablesStore [2, 0]) {} = .ok ⟨emptyTablesStore [2, 0], {}, [2, 0], ∅⟩ ∧
      (∀ number ∈ [(2 : UInt8), 0],
        (Cache.table ⟨emptyTablesStore [2, 0], {}, [2, 0], ∅⟩ number).1 =
          .ok (emptyTable number)) ∧
      (ofCache ⟨emptyTablesStore [2, 0], {}, [2, 0], ∅⟩).1 = .ok ⟨[⟨609698396, 0⟩]⟩ ∧
      ¬ Indexed [2, 0] (listedEntry emptyTable) [⟨609698396, 0⟩] := by
  have opened : ofStore (emptyTablesStore [2, 0]) {} =
      .ok ⟨emptyTablesStore [2, 0], {}, [2, 0], ∅⟩ := rfl
  have load := table_emptyTablesStore [2, 0]
  refine ⟨opened, load, ofCache_fst_after opened load [], fun indexed => ?_⟩
  have length := indexed.length_eq
  simp at length

end ChecksumTable
end SectorVault
