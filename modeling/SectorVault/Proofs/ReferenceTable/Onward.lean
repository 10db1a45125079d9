import Mathlib
import SectorVault.Proofs.Outcomes
import SectorVault.Proofs.ReferenceTable.Accepted
import SectorVault.Proofs.ReferenceTable.RoundTrip

/-!
# Readers that do not look behind what they take

Nothing in a reference table says how long it is, and yet no table is taken for another one because bytes
are missing at its end or follow it.  The reason is that a reader only ever looks at the bytes it takes.
What it reads does not change with what follows, and what it objects to, other than a lack of bytes, it
would object to with more bytes as well: a reader is *onward* (`Onward`).  Nothing else is needed for the
front of a table to be reported as cut off (`Onward.truncated`): had the reader come to anything else on the
front, it would have come to the same on the whole.

Readers that run one after another are onward if each of them is (`Onward.bind`), so the bytes themselves
come up only with the fields (`AcceptsAny`): a field that is there in full is always read, and how many
bytes that takes depends on those bytes alone.
-/

namespace SectorVault

/-! ## Readers that do not look behind what they take -/

/-- A reader does not look behind the bytes it takes. -/
structure Onward {α : Type} (reader : TableReader α) : Prop where
  /-- What is read is read off a front, whatever follows it. -/
  reads : ∀ {bytes a rest}, reader bytes = .ok (a, rest) →
    ∃ taken, bytes = taken ++ rest ∧ Reads reader taken a
  /-- A failure for any other reason than a lack of bytes is a failure whatever follows. -/
  fails : ∀ {bytes error}, reader bytes = .error error → error ≠ .truncated →
    ∀ more, reader (bytes ++ more) = .error error

namespace Onward

variable {α β : Type} {reader : TableReader α}

/-- Short of the bytes it needs, a reader reports just that. -/
theorem truncated (onward : Onward reader) {taken : Bytes} {a : α} (reads : Reads reader taken a)
    {m : Nat} (short : m < taken.length) : reader (taken.take m) = .error .truncated := by
  have whole : reader taken = .ok (a, []) := by simpa using reads []
  have missing : taken.drop m ≠ [] := by
    intro none
    have := List.drop_eq_nil_iff.1 none
    omega
  have parts : taken.take m ++ taken.drop m = taken := List.take_append_drop m taken
  cases front : reader (taken.take m) with
  | ok outcome =>
    -- what is left behind the front would also be left behind the whole
    obtain ⟨b, rest⟩ := outcome
    obtain ⟨start, split, readsStart⟩ := onward.reads front
    have again := readsStart (rest ++ taken.drop m)
    rw [← List.append_assoc, ← split, parts, whole] at again
    have left : [] = rest ++ taken.drop m := congrArg Prod.snd (Except.ok.inj again)
    exact absurd (List.append_eq_nil_iff.1 left.symm).2 missing
  | error error =>
    by_cases reason : error = .truncated
    · rw [reason]
    · have again := onward.fails front reason (taken.drop m)
      rw [parts, whole] at again
      cases again

theorem pure (a : α) : Onward (Pure.pure a : TableReader α) where
  reads := by
    rintro bytes b rest ⟨⟩
    exact ⟨[], rfl, Reads.pure a⟩
  fails := nofun

/-- A reader that fails without looking at the bytes. -/
theorem failure (error : TableError) : Onward (fun _ => .error error : TableReader α) where
  reads := nofun
  fails := by
    rintro bytes _ ⟨⟩ _ more
    rfl

theorem bind {next : α → TableReader β} (first : Onward reader) (second : ∀ a, Onward (next a)) :
    Onward (reader >>= next) := by
  constructor
  · intro bytes b rest read
    rw [TableReader.bind_apply] at read
    obtain ⟨⟨a, between⟩, readFirst, readSecond⟩ := bind_eq_ok.1 read
    obtain ⟨taken, rfl, reads⟩ := first.reads readFirst
    obtain ⟨taken', rfl, reads'⟩ := (second a).reads readSecond
    exact ⟨taken ++ taken', (List.append_assoc _ _ _).symm, reads.bind reads'⟩
  · intro bytes error read reason more
    rw [TableReader.bind_apply] at read ⊢
    cases readFirst : reader bytes with
    | error found =>
      rw [readFirst] at read
      obtain rfl : found = error := Except.error.inj read
      rw [first.fails readFirst reason more]
      rfl
    | ok outcome =>
      obtain ⟨a, between⟩ := outcome
      obtain ⟨taken, rfl, reads⟩ := first.reads readFirst
      rw [readFirst] at read
      rw [List.append_assoc, reads]
      exact (second a).fails read reason more

theorem map (onward : Onward reader) (f : α → β) : Onward (do return f (← reader)) :=
  onward.bind fun a => .pure (f a)

end Onward

namespace TableReader

variable {α β : Type}

theorem eachFrom_cons (read : α → TableReader β) (a : α) (as : List α) (done : List β) :
    eachFrom read (a :: as) done =
      ((read a >>= fun b => eachFrom read as (b :: done)) : TableReader (List β)) := by
  funext bytes
  rw [bind_apply, eachFrom]
  cases read a bytes <;> rfl

theorem onward_each {as : List α} {read : α → TableReader β} (onward : ∀ a, Onward (read a)) :
    Onward (each as read) := by
  have from_done : ∀ done, Onward (eachFrom read as done : TableReader (List β)) := by
    induction as with
    | nil => exact fun done => .pure done.reverse
    | cons a as ih =>
      intro done
      rw [eachFrom_cons]
      exact (onward a).bind fun b => ih (b :: done)
  exact from_done []

end TableReader

/-! ## Fields -/

/-- A reader that accepts any bytes if only there are enough of them, and takes at least so many. -/
def AcceptsAny {α : Type} (least : Nat) (reader : TableReader α) : Prop :=
  ∀ bytes, reader bytes = .error .truncated ∨
    ∃ front rest a, bytes = front ++ rest ∧ least ≤ front.length ∧ Reads reader front a

namespace AcceptsAny

variable {α β : Type} {least : Nat} {reader : TableReader α}

/-- What is read is read off a front that is long enough. -/
theorem exists_front (accepts : AcceptsAny least reader) {bytes rest : Bytes} {a : α}
    (read : reader bytes = .ok (a, rest)) :
    ∃ front, bytes = front ++ rest ∧ least ≤ front.length ∧ Reads reader front a := by
  rcases accepts bytes with lacks | ⟨front, behind, b, rfl, length, reads⟩
  · rw [lacks] at read
    cases read
  · rw [reads] at read
    cases read
    exact ⟨front, rfl, length, reads⟩

theorem onward (accepts : AcceptsAny least reader) : Onward reader where
  reads := by
    intro bytes a rest read
    obtain ⟨front, split, -, reads⟩ := accepts.exists_front read
    exact ⟨front, split, reads⟩
  fails := by
    intro bytes error read reason
    rcases accepts bytes with lacks | ⟨front, behind, b, rfl, -, reads⟩
    · rw [lacks] at read
      exact absurd (Except.error.inj read).symm reason
    · rw [reads] at read
      cases read

theorem mono (accepts : AcceptsAny least reader) {fewer : Nat} (le : fewer ≤ least) :
    AcceptsAny fewer reader := by
  intro bytes
  rcases accepts bytes with lacks | ⟨front, rest, a, split, length, reads⟩
  · exact .inl lacks
  · exact .inr ⟨front, rest, a, split, le.trans length, reads⟩

theorem bind {least' : Nat} {next : α → TableReader β} (first : AcceptsAny least reader)
    (second : ∀ a, AcceptsAny least' (next a)) : AcceptsAny (least + least') (reader >>= next) := by
  intro bytes
  rcases first bytes with lacks | ⟨front, between, a, rfl, length, reads⟩
  · rw [TableReader.bind_apply, lacks]
    exact .inl rfl
  rcases second a between with lacks | ⟨front', rest, b, rfl, length', reads'⟩
  · rw [TableReader.bind_apply, reads]
    exact .inl lacks
  · refine .inr ⟨front ++ front', rest, b, (List.append_assoc _ _ _).symm, ?_, reads.bind reads'⟩
    rw [List.length_append]
    omega

theorem map (accepts : AcceptsAny least reader) (f : α → β) :
    AcceptsAny least (do return f (← reader)) :=
  accepts.bind fun a rest => .inr ⟨[], rest, f a, rfl, le_rfl, Reads.pure (f a)⟩

end AcceptsAny

namespace TableReader

theorem acceptsAny_byte : AcceptsAny 1 byte := by
  rintro (_ | ⟨b, rest⟩)
  · exact .inl rfl
  · exact .inr ⟨[b], rest, b, rfl, le_rfl, reads_byte b⟩

theorem acceptsAny_short : AcceptsAny 2 short := by
  rintro (_ | ⟨b0, _ | ⟨b1, rest⟩⟩)
  · exact .inl rfl
  · exact .inl rfl
  · exact .inr ⟨[b0, b1], rest, _, rfl, le_rfl, fun _ => rfl⟩

theorem acceptsAny_word : AcceptsAny 4 word := by
  rintro (_ | ⟨b0, _ | ⟨b1, _ | ⟨b2, _ | ⟨b3, rest⟩⟩⟩⟩)
  iterate 4 exact .inl rfl
  exact .inr ⟨[b0, b1, b2, b3], rest, _, rfl, le_rfl, reads_word_of_length rfl⟩

theorem acceptsAny_signed : AcceptsAny 4 signed := acceptsAny_word.map UInt32.toInt32

end TableReader

namespace Protocol

/-- The first byte of a field of variable width decides which field of fixed width it is. -/
theorem exists_variableField_eq (b : UInt8) : ∃ reader, AcceptsAny 2 reader ∧
    ∀ bytes, variableField (b :: bytes) = reader (b :: bytes) := by
  by_cases narrow : b &&& 0x80 = 0
  · exact ⟨TableReader.short, TableReader.acceptsAny_short, fun _ => if_pos narrow⟩
  · have wide : AcceptsAny 4 (TableReader.word.map fun w => (w &&& 0x7FFFFFFF).toNat) :=
      TableReader.acceptsAny_word.map fun w => (w &&& 0x7FFFFFFF).toNat
    exact ⟨_, wide.mono (by decide), fun _ => if_neg narrow⟩

theorem acceptsAny_variableField : AcceptsAny 2 variableField := by
  rintro (_ | ⟨b, bytes⟩)
  · exact .inl rfl
  obtain ⟨reader, accepts, same⟩ := exists_variableField_eq b
  rcases accepts (b :: bytes) with lacks | ⟨front, rest, n, split, length, reads⟩
  · exact .inl ((same bytes).trans lacks)
  · -- the front has at least two bytes, so it starts with the byte that decides
    rcases front with _ | ⟨first, front⟩
    · simp at length
    obtain rfl : b = first := (List.cons.inj split).1
    exact .inr ⟨b :: front, rest, n, split, length,
      fun rest => (same (front ++ rest)).trans (reads rest)⟩

theorem acceptsAny_field : ∀ protocol : Protocol, AcceptsAny 2 protocol.field
  | .unversioned | .versioned => TableReader.acceptsAny_short
  | .variableWidth => acceptsAny_variableField

/-- A number that is no protocol's is refused, whatever follows it. -/
theorem onward_ofNumber (number : UInt8) :
    Onward (liftM (ofNumber number) : TableReader Protocol) := by
  cases known : ofNumber number with
  | ok protocol => exact .pure protocol
  | error error => exact .failure error

end Protocol

namespace ReferenceTable

theorem acceptsAny_takeDigest : AcceptsAny 64 takeDigest := by
  intro bytes
  by_cases enough : (bytes.take 64).length = 64
  · have reads := reads_takeDigest ⟨(bytes.take 64).toArray, by simpa using enough⟩
    exact .inr ⟨_, bytes.drop 64, _, (List.take_append_drop 64 bytes).symm, enough.ge, reads⟩
  · exact .inl (dif_neg enough)

theorem acceptsAny_lengths :
    AcceptsAny 8 (do return (← TableReader.word, ← TableReader.word)) :=
  TableReader.acceptsAny_word.bind fun stored =>
    TableReader.acceptsAny_word.map fun plain => (stored, plain)

/-! ## Columns -/

variable {protocol : Protocol}

theorem onward_idsFrom (step count ordinal last : Nat) (done : List UInt32) :
    Onward (idsFrom protocol step count ordinal last done : TableReader (List UInt32)) := by
  induction count generalizing ordinal last done with
  | zero => exact .pure done.reverse
  | succ count ih =>
    rw [idsFrom_succ]
    refine protocol.acceptsAny_field.onward.bind fun difference => ?_
    split
    · exact ih _ _ _
    · exact .failure _

theorem onward_column {α : Type} {read : TableReader α} (onward : Onward read)
    (enter : Group → α → Group) (groups : List Group) : Onward (column read enter groups) :=
  TableReader.onward_each fun group => onward.map (enter group)

theorem onward_columnIf {α : Type} {read : TableReader α} (onward : Onward read) (present : Bool)
    (enter : Group → α → Group) (groups : List Group) :
    Onward (columnIf present read enter groups) := by
  cases present with
  | false => exact .pure groups
  | true => exact onward_column onward enter groups

theorem onward_fileColumn (groups : List Group) : Onward (fileColumn protocol groups) := by
  refine (TableReader.onward_each fun _ => protocol.acceptsAny_field.onward).bind fun counts => ?_
  refine TableReader.onward_each fun item => ?_
  exact (onward_idsFrom 0 item.2 item.1.ordinal 0 []).map _

theorem onward_fileNames (group : Group) : Onward (fileNames group) := by
  refine Onward.map ?_ _
  exact TableReader.onward_each fun file => TableReader.acceptsAny_signed.onward.map _

theorem onward_readGroups (flags : TableFlags) (count : Nat) :
    Onward (readGroups protocol flags count) := by
  have word := TableReader.acceptsAny_word.onward
  have signed := TableReader.acceptsAny_signed.onward
  refine (onward_idsFrom 1 count 0 0 []).bind fun ids => ?_
  refine (onward_columnIf signed flags.names _ _).bind fun named => ?_
  refine (onward_column word _ _).bind fun summed => ?_
  refine (onward_columnIf word flags.uncompressedCrcs _ _).bind fun plain => ?_
  refine (onward_columnIf acceptsAny_takeDigest.onward flags.digests _ _).bind fun digested => ?_
  refine (onward_columnIf acceptsAny_lengths.onward flags.lengths _ _).bind fun measured => ?_
  refine (onward_column signed _ _).bind fun revised => ?_
  refine (onward_fileColumn _).bind fun listed => ?_
  split
  · exact TableReader.onward_each onward_fileNames
  · exact .pure listed

theorem onward_tableRevision (protocol : Protocol) : Onward (tableRevision protocol) := by
  unfold tableRevision
  split
  · exact TableReader.acceptsAny_signed.onward
  · exact .pure 0

theorem onward_reader : Onward reader := by
  refine TableReader.acceptsAny_byte.onward.bind fun number => ?_
  refine (Protocol.onward_ofNumber number).bind fun protocol => ?_
  refine (onward_tableRevision protocol).bind fun revision => ?_
  refine TableReader.acceptsAny_byte.onward.bind fun flags => ?_
  refine protocol.acceptsAny_field.onward.bind fun count => ?_
  exact (onward_readGroups _ count).map _

end ReferenceTable

end SectorVault
