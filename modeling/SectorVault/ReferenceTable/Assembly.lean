import SectorVault.ReferenceTable.Columns

/-!
# Assembling reference tables

A table as it is read says nothing of its own stored form, and its groups have no bytes.  Assembling
it fills both in: the former from the container that the table came in, the latter from a source that
is asked for each group in turn, in the order of ordinals.  The source may have a state, and may
fail; the first failure ends the assembly.  If the table does not even read, the source is not asked.
-/

namespace SectorVault

namespace ReferenceTable

/-- Fetches the stored bytes of every group in turn from a source that has a state; the first
failure ends it.  `done` holds the groups already fetched, the last one first. -/
def fetchFrom {σ ε : Type} (source : Nat → UInt32 → σ → Except ε Bytes × σ) :
    List Group → List Group → σ → Except ε (List Group) × σ
  | [], done, state => (.ok done.reverse, state)
  | group :: groups, done, state =>
    match source group.ordinal group.id state with
    | (.ok raw, state) => fetchFrom source groups ({ group with raw := raw } :: done) state
    | (.error error, state) => (.error error, state)

/-- The table of an archive, from the container it is stored in and the digest of its stored form,
with the stored bytes of every group.  The source is asked for each group by ordinal and id; `lift`
turns the failures of reading into those of the source. -/
def assemble {σ ε : Type} (archive : UInt8) (container : Container) (digest : Digest)
    (lift : TableError → ε) (source : Nat → UInt32 → σ → Except ε Bytes × σ) (state : σ) :
    Except ε ReferenceTable × σ :=
  match read container.data with
  | .error error => (.error (lift error), state)
  | .ok table =>
    match fetchFrom source table.groups.toList [] state with
    | (.error error, state) => (.error error, state)
    | (.ok groups, state) =>
      (.ok { table.withGroups groups.toArray with
        archive := archive
        crc := container.crc
        digest := digest
        compression := container.compression }, state)

end ReferenceTable

end SectorVault
