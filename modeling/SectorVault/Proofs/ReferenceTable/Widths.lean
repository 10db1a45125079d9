import Mathlib
import SectorVault.Proofs.ReferenceTable.Extent

/-!
# Columns of fixed width

Between the ids of the groups and the numbers of their files, a table holds the same number of bytes for
every group, and that number depends on the flags only (`TableFlags.rowSize`).  These columns can hold
anything.  They are read if there are enough bytes, and then exactly so many are taken (`TakesExactly`);
otherwise the table is truncated.  Like other properties of readers this one adds up along the columns.

`fixedColumns` is these columns in a row, and `readGroups_eq` puts it back between the others.
-/

namespace SectorVault

/-! ## Readers that take a fixed number of bytes -/

/-- A reader takes so many bytes, whatever they are, and nothing else can be wrong with them. -/
def TakesExactly {α : Type} (width : Nat) (reader : TableReader α) (P : α → Prop) : Prop :=
  ∀ bytes, (bytes.length < width ∧ reader bytes = .error .truncated) ∨
    (width ≤ bytes.length ∧ ∃ a, reader bytes = .ok (a, bytes.drop width) ∧ P a)

namespace TakesExactly

variable {α β : Type} {reader : TableReader α} {width : Nat} {P : α → Prop}

theorem pure {a : α} (h : P a) : TakesExactly 0 (Pure.pure a : TableReader α) P :=
  fun _ => .inr ⟨Nat.zero_le _, a, rfl, h⟩

/-- What a reader ensures it also ensures of the bytes that it takes. -/
theorem of_ensures (takes : TakesExactly width reader fun _ => True) (ensures : Ensures reader P) :
    TakesExactly width reader P := by
  intro bytes
  rcases takes bytes with short | ⟨enough, a, read, -⟩
  · exact .inl short
  · exact .inr ⟨enough, a, read, ensures bytes a _ read⟩

theorem bind {width' : Nat} {next : α → TableReader β} {R : β → Prop}
    (first : TakesExactly width reader P) (second : ∀ a, P a → TakesExactly width' (next a) R) :
    TakesExactly (width + width') (reader >>= next) R := by
  intro bytes
  rcases first bytes with ⟨short, lacks⟩ | ⟨enough, a, read, h⟩
  · refine .inl ⟨by omega, ?_⟩
    rw [TableReader.bind_apply, lacks]
    rfl
  have behind : (bytes.drop width).length = bytes.length - width := List.length_drop
  rcases second a h (bytes.drop width) with ⟨short, lacks⟩ | ⟨enough', b, read', h'⟩
  · refine .inl ⟨by omega, ?_⟩
    rw [TableReader.bind_apply, read]
    exact lacks
  · refine .inr ⟨by omega, b, ?_, h'⟩
    rw [TableReader.bind_apply, read, ← List.drop_drop]
    exact read'

theorem map (takes : TakesExactly width reader P) (f : α → β) :
    TakesExactly width (do return f (← reader)) fun _ => True :=
  takes.bind fun _ _ => .pure trivial

/-- A reader that runs for every element of a list takes what it takes for each of them. -/
theorem each {as : List α} {read : α → TableReader β} {width : α → Nat}
    (takes : ∀ a ∈ as, TakesExactly (width a) (read a) fun _ => True) :
    TakesExactly (as.map width).sum (TableReader.each as read) fun _ => True := by
  have from_done : ∀ (as : List α) (done : List β),
      (∀ a ∈ as, TakesExactly (width a) (read a) fun _ => True) →
      TakesExactly (as.map width).sum (TableReader.eachFrom read as done : TableReader (List β))
        fun _ => True := by
    intro as
    induction as with
    | nil => exact fun done _ => .pure trivial
    | cons a as ih =>
      intro done takes
      rw [TableReader.eachFrom_cons, List.map_cons, List.sum_cons]
      exact (takes a (by simp)).bind fun b _ => ih (b :: done) fun a mem => takes a (by simp [mem])
  exact from_done as [] takes

end TakesExactly

namespace TableReader

theorem takesExactly_word : TakesExactly 4 word fun _ => True := by
  rintro (_ | ⟨b0, _ | ⟨b1, _ | ⟨b2, _ | ⟨b3, rest⟩⟩⟩⟩)
  iterate 4 exact .inl ⟨by simp, rfl⟩
  exact .inr ⟨by simp, _, rfl, trivial⟩

theorem takesExactly_signed : TakesExactly 4 signed fun _ => True :=
  takesExactly_word.map UInt32.toInt32

end TableReader

/-! ## Columns -/

/-- The number of bytes that a table has for each group between the ids of the groups and the numbers of
files. -/
def TableFlags.rowSize (flags : TableFlags) : Nat :=
  (if flags.names then 4 else 0) + 4 + (if flags.uncompressedCrcs then 4 else 0) +
    (if flags.digests then 64 else 0) + (if flags.lengths then 8 else 0) + 4

namespace ReferenceTable

theorem takesExactly_takeDigest : TakesExactly 64 takeDigest fun _ => True := by
  intro bytes
  by_cases enough : (bytes.take 64).length = 64
  · refine .inr ⟨?_, _, dif_pos enough, trivial⟩
    rw [List.length_take] at enough
    omega
  · refine .inl ⟨?_, dif_neg enough⟩
    rw [List.length_take] at enough
    omega

theorem takesExactly_lengths :
    TakesExactly 8 (do return (← TableReader.word, ← TableReader.word)) fun _ => True :=
  TableReader.takesExactly_word.bind fun stored _ =>
    TableReader.takesExactly_word.map fun plain => (stored, plain)

variable {α : Type} {width : Nat} {read : TableReader α} {groups current : List Group}

/-- Groups that have been filled in further. -/
def Refills (groups filled : List Group) : Prop := filled.map frame = groups.map frame

theorem takesExactly_column (takes : TakesExactly width read fun _ => True) {enter : Group → α → Group}
    (blind : ∀ group a, frame (enter group a) = frame group) (refills : Refills groups current) :
    TakesExactly (groups.length * width) (column read enter current) (Refills groups) := by
  have each : TakesExactly (current.map fun _ => width).sum (column read enter current) fun _ => True :=
    TakesExactly.each fun group _ => takes.map (enter group)
  have length : current.length = groups.length := by simpa using congrArg List.length refills
  rw [List.map_const', List.sum_replicate, smul_eq_mul, length] at each
  exact each.of_ensures ((ensures_column read blind).mono fun _ same => same.trans refills)

theorem takesExactly_columnIf (takes : TakesExactly width read fun _ => True) (present : Bool)
    {enter : Group → α → Group} (blind : ∀ group a, frame (enter group a) = frame group)
    (refills : Refills groups current) :
    TakesExactly (groups.length * if present then width else 0)
      (columnIf present read enter current) (Refills groups) := by
  cases present with
  | false => exact .pure refills
  | true => exact takesExactly_column takes blind refills

/-- The columns between the ids of the groups and the numbers of files. -/
def fixedColumns (flags : TableFlags) (groups : List Group) : TableReader (List Group) := do
  let groups ← columnIf flags.names TableReader.signed
    (fun group hash => { group with nameHash := hash }) groups
  let groups ← column TableReader.word
    (fun group crc => { group with crc := crc }) groups
  let groups ← columnIf flags.uncompressedCrcs TableReader.word
    (fun group crc => { group with uncompressedCrc := crc }) groups
  let groups ← columnIf flags.digests takeDigest
    (fun group digest => { group with digest := some digest }) groups
  let groups ← columnIf flags.lengths (do return (← TableReader.word, ← TableReader.word))
    (fun group (stored, plain) => { group with length := stored, uncompressedLength := plain })
    groups
  column TableReader.signed (fun group revision => { group with revision := revision }) groups

theorem takesExactly_fixedColumns (flags : TableFlags) (groups : List Group) :
    TakesExactly (groups.length * flags.rowSize) (fixedColumns flags groups) (Refills groups) := by
  have word := TableReader.takesExactly_word
  have signed := TableReader.takesExactly_signed
  unfold TableFlags.rowSize
  simp only [Nat.mul_add, Nat.add_assoc]
  refine (takesExactly_columnIf signed flags.names (by intros; rfl) rfl).bind fun named names => ?_
  refine (takesExactly_column word (by intros; rfl) names).bind fun summed crcs => ?_
  refine (takesExactly_columnIf word _ (by intros; rfl) crcs).bind fun plain plains => ?_
  refine (takesExactly_columnIf takesExactly_takeDigest _ (by intros; rfl) plains).bind
    fun digested digests => ?_
  refine (takesExactly_columnIf takesExactly_lengths _ (by intros; rfl) digests).bind
    fun measured lengths => ?_
  exact takesExactly_column signed (by intros; rfl) lengths

/-- The columns of a table in four parts. -/
theorem readGroups_eq (protocol : Protocol) (flags : TableFlags) (count : Nat) :
    readGroups protocol flags count =
      (do
        let ids ← groupIds protocol count
        let groups ← fixedColumns flags
          (ids.zipIdx.map fun (id, ordinal) => Group.blank ordinal id)
        let groups ← fileColumn protocol groups
        if flags.names then TableReader.each groups fileNames else pure groups) := by
  simp only [readGroups, fixedColumns, bind_assoc]

end ReferenceTable

end SectorVault
