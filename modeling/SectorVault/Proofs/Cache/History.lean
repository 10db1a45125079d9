import Mathlib
import SectorVault.Container.Seal
import SectorVault.Proofs.Archive.Memo
import SectorVault.Proofs.Cache.Opening
import SectorVault.Session

/-!
# The past of a cache does not show

A cache keeps the archives it has loaded, and each of them keeps the groups it has unpacked.  Both are
filled as a session goes on, and neither may show: whatever was asked before, an operation answers what
it would answer on a cache that was only just opened.

The invariant has two levels.  Every loaded archive is, but for its memo, the one that loading it would
give (`Sound`), and its memo is sound.  Loading looks at the store and the list of archives only, so
the invariant can be checked against a cache with nothing loaded (`forget`).  An operation is
*transparent* if it answers the same on a sound cache as on that one, keeps the cache sound, and leaves
the rest of it alone; a session of transparent operations is then followed by induction
(`after_sound`).

The main statement is `perform_after`.
-/

namespace SectorVault
namespace Cache

variable {cache : Cache} {number : UInt8}

/-! ## The invariant -/

/-- A cache with nothing loaded. -/
def forget (cache : Cache) : Cache := { cache with loaded := ∅ }

@[simp] theorem loadTable_forget (cache : Cache) : cache.forget.loadTable = cache.loadTable := rfl

/-- Every loaded archive is the one that loading gives, but for a sound memo. -/
def Sound (cache : Cache) : Prop :=
  ∀ (number : UInt8) (archive : Archive), cache.loaded[number]? = some archive →
    archive.MemoSound ∧ ∃ table, cache.loadTable number = .ok table ∧
      archive.forget = Archive.fresh number table cache.options

theorem sound_forget (cache : Cache) : cache.forget.Sound := by
  intro number archive h
  simp [forget] at h

/-- Keeping an archive that loading gives, with a sound memo, is sound. -/
theorem Sound.insert (sound : cache.Sound) {archive : Archive} {table : ReferenceTable}
    (loads : cache.loadTable number = .ok table) (memo : archive.MemoSound)
    (same : archive.forget = Archive.fresh number table cache.options) :
    Sound { cache with loaded := cache.loaded.insert number archive } := by
  intro other found entry
  simp only at entry
  rw [Std.TreeMap.getElem?_insert] at entry
  split at entry
  · rename_i equal
    obtain rfl := Std.LawfulEqCmp.eq_of_compare equal
    cases entry
    exact ⟨memo, table, loads, same⟩
  · exact sound other found entry

/-! ## Archives -/

theorem archive_of_error (sound : cache.Sound) {error : CacheError}
    (fails : cache.loadTable number = .error error) :
    cache.archive number = (.error error, cache) := by
  unfold Cache.archive
  split
  · rename_i archive entry
    obtain ⟨-, table, loads, -⟩ := sound number archive entry
    rw [loads] at fails
    cases fails
  · rw [fails]

/-- Whether it is loaded or not, an archive is the one that loading gives, but for a sound memo. -/
theorem archive_of_ok (sound : cache.Sound) {table : ReferenceTable}
    (loads : cache.loadTable number = .ok table) :
    ∃ archive after, cache.archive number = (.ok archive, after) ∧ archive.MemoSound ∧
      archive.forget = Archive.fresh number table cache.options ∧
      after.Sound ∧ after.forget = cache.forget := by
  unfold Cache.archive
  split
  · rename_i archive entry
    obtain ⟨memo, loaded, loads', same⟩ := sound number archive entry
    obtain rfl : table = loaded := by
      rw [loads] at loads'
      exact Except.ok.inj loads'
    exact ⟨archive, cache, rfl, memo, same, sound, rfl⟩
  · rw [loads]
    have memo := Archive.memoSound_fresh number table cache.options
    exact ⟨_, _, rfl, memo, rfl, sound.insert loads memo rfl, rfl⟩

/-- As long as an archive is not loaded, an operation of it is performed on what loading gives. -/
theorem onArchive_fst_of_unloaded {α : Type} (unloaded : cache.loaded[number]? = none)
    (operation : Archive → Except ArchiveError α × Archive) :
    (cache.onArchive number operation).1 = (cache.loadTable number).bind fun table =>
      (operation (Archive.fresh number table cache.options)).1.mapError .archive := by
  unfold Cache.onArchive Cache.archive
  rw [unloaded]
  cases cache.loadTable number <;> rfl

/-! ## Transparent operations -/

/-- What was loaded before does not show in what an operation answers, and the operation keeps the
cache sound. -/
def Transparent {β : Type} (operation : Cache → β × Cache) : Prop :=
  ∀ cache : Cache, cache.Sound →
    (operation cache).1 = (operation cache.forget).1 ∧
      (operation cache).2.Sound ∧ (operation cache).2.forget = cache.forget

theorem transparent_onArchive {α : Type} (number : UInt8)
    {operation : Archive → Except ArchiveError α × Archive}
    (transparent : Archive.Transparent operation) :
    Transparent fun cache => cache.onArchive number operation := by
  intro cache sound
  beta_reduce
  unfold onArchive
  cases loads : cache.loadTable number with
  | error error =>
    rw [archive_of_error sound loads, archive_of_error (sound_forget cache) loads]
    exact ⟨rfl, sound, rfl⟩
  | ok table =>
    obtain ⟨archive, after, eq, memo, same, soundAfter, forgetAfter⟩ := archive_of_ok sound loads
    obtain ⟨archive', after', eq', memo', same', -⟩ :=
      archive_of_ok (sound_forget cache) loads
    obtain ⟨answer, keeps, remains⟩ := transparent archive memo
    obtain ⟨answer', -⟩ := transparent archive' memo'
    have options : after.forget.options = cache.forget.options := by rw [forgetAfter]
    have loadsAfter : after.loadTable number = .ok table := by
      rw [← loadTable_forget, forgetAfter, loadTable_forget, loads]
    rw [eq, eq']
    refine ⟨?_, soundAfter.insert loadsAfter keeps ?_, forgetAfter⟩
    · simp only [answer, answer', same, same', forget]
    · rw [remains, same]
      exact congrArg (Archive.fresh number table) options.symm

/-- Whether it is loaded or not, the table of an archive is the one that loading gives. -/
theorem table_fst (sound : cache.Sound) (number : UInt8) :
    (cache.table number).1 = cache.loadTable number := by
  unfold Cache.table
  cases loads : cache.loadTable number with
  | error error =>
    rw [archive_of_error sound loads]
    rfl
  | ok table =>
    obtain ⟨archive, after, eq, -, same, -⟩ := archive_of_ok sound loads
    have own : archive.table = table := congrArg Archive.table same
    rw [eq, ← own]
    rfl

theorem transparent_table (number : UInt8) :
    Transparent fun cache => cache.table number := by
  intro cache sound
  beta_reduce
  refine ⟨?_, ?_⟩
  · rw [table_fst sound, table_fst (sound_forget cache), loadTable_forget]
  · unfold table
    cases loads : cache.loadTable number with
    | error error =>
      rw [archive_of_error sound loads]
      exact ⟨sound, rfl⟩
    | ok table =>
      obtain ⟨archive, after, eq, -, -, soundAfter, forgetAfter⟩ := archive_of_ok sound loads
      rw [eq]
      exact ⟨soundAfter, forgetAfter⟩

/-- An operation that looks at the store only. -/
theorem transparent_of_store {β : Type} (answer : Cache → β)
    (blind : ∀ cache, answer cache.forget = answer cache) :
    Transparent fun cache => (answer cache, cache) :=
  fun cache sound => ⟨(blind cache).symm, sound, rfl⟩

theorem transparent_collect (numbers : List UInt8) (entries : List ChecksumEntry) :
    Transparent fun cache => ChecksumTable.collect numbers entries cache := by
  induction numbers generalizing entries with
  | nil => exact fun cache sound => ⟨rfl, sound, rfl⟩
  | cons number numbers ih =>
    intro cache sound
    beta_reduce
    obtain ⟨answer, soundAfter, forgetAfter⟩ := transparent_table number cache sound
    obtain ⟨-, soundAfter', forgetAfter'⟩ :=
      transparent_table number cache.forget (sound_forget cache)
    dsimp only at answer soundAfter forgetAfter soundAfter' forgetAfter'
    unfold ChecksumTable.collect
    rcases tabled : cache.table number with ⟨result, after⟩
    rcases tabled' : cache.forget.table number with ⟨result', after'⟩
    rw [tabled, tabled'] at answer
    rw [tabled] at soundAfter forgetAfter
    rw [tabled'] at soundAfter' forgetAfter'
    obtain rfl : result = result' := answer
    cases result with
    | error error => exact ⟨rfl, soundAfter, forgetAfter⟩
    | ok table =>
      obtain ⟨rest, soundRest, forgetRest⟩ := ih
        (ChecksumTable.place entries number.toNat ⟨table.crc, table.revision⟩) after soundAfter
      obtain ⟨rest', -⟩ := ih
        (ChecksumTable.place entries number.toNat ⟨table.crc, table.revision⟩) after' soundAfter'
      refine ⟨?_, soundRest, forgetRest.trans forgetAfter⟩
      rw [forgetAfter] at rest
      rw [forgetAfter'] at rest'
      exact rest.trans rest'.symm

/-! ## Sessions -/

theorem Operation.transparent {α : Type} (operation : Operation α) :
    Transparent operation.perform := by
  cases operation with
  | ask number question =>
    intro cache sound
    obtain ⟨answer, kept⟩ := transparent_table number cache sound
    exact ⟨congrArg (Except.map question) answer, kept⟩
  | read number group file key =>
    exact transparent_onArchive number (Archive.transparent_read group file key)
  | readNamed number name file key =>
    exact transparent_onArchive number (Archive.transparent_readHashed (nameHash name) file key)
  | readEntry number group file entry count key =>
    exact transparent_onArchive number
      (Archive.transparent_readEntry group file entry count key)
  | readRaw archive group =>
    exact transparent_of_store (fun cache => cache.readRaw archive group) fun _ => rfl
  | readBootstrap =>
    exact transparent_of_store (fun cache => cache.readBootstrap) fun _ => rfl
  | checksums =>
    intro cache sound
    obtain ⟨answer, kept⟩ := transparent_collect cache.archives [] cache sound
    exact ⟨congrArg (Except.map ChecksumTable.mk) answer, kept⟩

theorem after_sound (sound : cache.Sound) (session : Session) :
    (cache.after session).Sound ∧ (cache.after session).forget = cache.forget := by
  induction session generalizing cache with
  | nil => exact ⟨sound, rfl⟩
  | cons step session ih =>
    obtain ⟨α, operation⟩ := step
    obtain ⟨-, soundAfter, forgetAfter⟩ := operation.transparent cache sound
    obtain ⟨soundRest, forgetRest⟩ := ih soundAfter
    exact ⟨soundRest, forgetRest.trans forgetAfter⟩

/-- A cache that was just opened has nothing loaded. -/
theorem forget_of_ofStore {store : Store} {options : Options}
    (opened : ofStore store options = .ok cache) : cache.forget = cache := by
  obtain ⟨groups, -, rfl⟩ := ofStore_eq_ok_iff.1 opened
  rfl

theorem sound_of_ofStore {store : Store} {options : Options}
    (opened : ofStore store options = .ok cache) : cache.Sound := by
  rw [← forget_of_ofStore opened]
  exact sound_forget cache

/-- What an operation answers does not depend on the session before it. -/
theorem perform_fst_after {store : Store} {options : Options}
    (opened : ofStore store options = .ok cache) (session : Session) {α : Type}
    (operation : Operation α) :
    (operation.perform (cache.after session)).1 = (operation.perform cache).1 := by
  obtain ⟨soundAfter, forgetAfter⟩ := after_sound (sound_of_ofStore opened) session
  obtain ⟨answer, -⟩ := operation.transparent _ soundAfter
  rw [answer, forgetAfter, forget_of_ofStore opened]

theorem after_append (session session' : Session) :
    cache.after (session ++ session') = (cache.after session).after session' := by
  induction session generalizing cache with
  | nil => rfl
  | cons step session ih => exact ih

/-- **The past of a cache does not show.**  After any session on a cache that was opened over a store,
an operation answers what it answers on the cache as it was opened.  So of two operations each answers
the same whichever comes first, and an operation that is left out of a session, because it failed or
for any other reason, is not missed by any later one. -/
theorem perform_after {store : Store} {options : Options}
    (opened : ofStore store options = .ok cache) (session rest : Session) {α β : Type}
    (operation : Operation α) (other : Operation β) :
    (operation.perform (cache.after session)).1 = (operation.perform cache).1 ∧
      (operation.perform (other.perform (cache.after session)).2).1 =
        (operation.perform (cache.after session)).1 ∧
      (other.perform (operation.perform (cache.after session)).2).1 =
        (other.perform (cache.after session)).1 ∧
      (operation.perform (cache.after (session ++ ⟨β, other⟩ :: rest))).1 =
        (operation.perform (cache.after (session ++ rest))).1 := by
  have always : ∀ session {γ : Type} (operation : Operation γ),
      (operation.perform (cache.after session)).1 = (operation.perform cache).1 :=
    fun session _ operation => perform_fst_after opened session operation
  have performed : ∀ {γ : Type} (operation : Operation γ),
      (operation.perform (cache.after session)).2 = cache.after (session ++ [⟨γ, operation⟩]) := by
    intro γ operation
    rw [after_append]
    rfl
  refine ⟨always session operation, ?_, ?_, ?_⟩
  · rw [performed other, always, always]
  · rw [performed operation, always, always]
  · rw [always, always]

/-! ## A session under two keys -/

def keyedKey : Key := ⟨1, 2, 3, 4⟩

def keyedBytes : Bytes := [10, 20, 30, 40, 50, 60, 70, 80]

/-- A store with one archive of two groups, each with one file, and the first one under a key. -/
def keyedStore : Store where
  list _ := .ok [3]
  read archive group :=
    if archive = masterArchive ∧ group = 3 then
      .ok ([0, 0, 0, 0, 32, 5, 0, 0, 2, 0, 7, 0, 1] ++ List.replicate 16 0 ++
        [0, 1, 0, 1, 0, 0, 0, 0])
    else if archive = 3 ∧ group = 7 then .ok (Container.sealPlain keyedBytes (some keyedKey))
    else if archive = 3 ∧ group = 8 then .ok (Container.sealPlain [90] none)
    else .error (.archiveNotFound archive)

/-- A cache over the store that remembers one group at a time. -/
def keyedCache : Cache := ⟨keyedStore, { unpackedCacheSize := 1 }, [3], ∅⟩

/-- The group under the key is read with the key and without it, then the other group, and then a file and
a group that are not there. -/
def keyedSession : Session :=
  [⟨_, .read 3 7 0 (some keyedKey)⟩, ⟨_, .read 3 7 0 none⟩, ⟨_, .read 3 8 0 none⟩,
    ⟨_, .read 3 8 1 none⟩, ⟨_, .read 3 9 0 none⟩]

/-- Of the session only the group that was read last is remembered, and no reading shows another one: with
the key the file is in the clear, without it it is enciphered, in whichever order they come. -/
theorem perform_after_keyed :
    ofStore keyedStore { unpackedCacheSize := 1 } = .ok keyedCache ∧
      ((keyedCache.after keyedSession).loaded[(3 : UInt8)]?.map fun archive => archive.memo.keys) =
        some [8] ∧
      let clear := Operation.read 3 7 0 (some keyedKey)
      let garbled := Operation.read 3 7 0 none
      let cache := keyedCache.after keyedSession
      (clear.perform cache).1 = .ok keyedBytes ∧
        (clear.perform (garbled.perform cache).2).1 = .ok keyedBytes ∧
        (garbled.perform (clear.perform cache).2).1 = .ok (Xtea.encipher keyedKey keyedBytes) := by
  have opened : ofStore keyedStore { unpackedCacheSize := 1 } = .ok keyedCache := rfl
  have clear : ((Operation.read 3 7 0 (some keyedKey)).perform keyedCache).1 = .ok keyedBytes := by
    decide +kernel
  have garbled : ((Operation.read 3 7 0 none).perform keyedCache).1 =
      .ok (Xtea.encipher keyedKey keyedBytes) := by
    decide +kernel
  have remembered : ((keyedCache.after keyedSession).loaded[(3 : UInt8)]?.map fun archive =>
      archive.memo.keys) = some [8] := by
    decide +kernel
  obtain ⟨still, behind, -, -⟩ := perform_after opened keyedSession [] (.read 3 7 0 (some keyedKey))
    (.read 3 7 0 none)
  obtain ⟨still', behind', -, -⟩ := perform_after opened keyedSession [] (.read 3 7 0 none)
    (.read 3 7 0 (some keyedKey))
  refine ⟨opened, remembered, still.trans clear, ?_, ?_⟩
  · exact behind.trans (still.trans clear)
  · exact behind'.trans (still'.trans garbled)

end Cache
end SectorVault
