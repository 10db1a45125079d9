import Mathlib
import SectorVault.Group
import SectorVault.Proofs.Outcomes

/-!
# What unpacking a group comes to

A group unpacks if three things go well one after another: its stored bytes are opened, the check finds
nothing wrong, and the data splits (`unpackWith_eq_ok_iff`).  Stored bytes are opened as a container or
as they are, and the check is told which.  Otherwise what is reported is the failure of the first of the
three that fails (`unpackWith_eq_error_iff`), and a failure of a container can only be that of the first
one (`split_ne_container`).
-/

namespace SectorVault

variable {bytes : Bytes} {key : Option Key}

theorem openStored_eq_some_iff {container : Container} :
    openStored bytes key = .ok (some container) ↔ Container.decode bytes key = .ok container := by
  unfold openStored
  cases Container.decode bytes key with
  | ok decoded => simp
  | error error =>
    simp only [reduceCtorEq, iff_false]
    split <;> simp

theorem openStored_eq_error_iff {error : GroupError} :
    openStored bytes key = .error error ↔ ∃ cause, Container.decode bytes key = .error cause ∧
      cause.rejectsEnvelope = false ∧ error = .container cause := by
  unfold openStored
  cases Container.decode bytes key with
  | ok decoded => simp
  | error cause =>
    simp only [Except.error.injEq, exists_eq_left']
    cases cause.rejectsEnvelope with
    | true => simp
    | false => simp only [Bool.false_eq_true, if_false, Except.error.injEq, true_and, eq_comm]

/-! ## Splitting -/

namespace Splitter

variable {overflow : Overflow} {cause : ContainerError}

theorem sumOrEnd_ne_container {α : Type} (sum : Option α) : sumOrEnd sum ≠ .error (.container cause) := by
  cases sum <;> nofun

theorem reserve_ne_container (count : UInt64) (itemSize : Nat) :
    reserve count itemSize ≠ .error (.container cause) := by
  unfold reserve
  split <;> nofun

section Walk

variable {σ : Type} {visit : Nat → Int64 → σ → Except GroupError σ}
  (visits : ∀ ordinal length state, visit ordinal length state ≠ .error (.container cause))

include visits

theorem walkRow_ne_container (count ordinal : Nat) (sum : Int64) (state : σ) (table : Bytes) :
    walkRow overflow visit count ordinal sum state table ≠ .error (.container cause) := by
  fun_induction walkRow overflow visit count ordinal sum state table with
  | case1 => nofun
  | case2 sum state count ordinal b0 b1 b2 b3 table ih =>
    intro fails
    rcases bind_eq_error.1 fails with adds | ⟨length, -, fails⟩
    · exact sumOrEnd_ne_container _ adds
    rcases bind_eq_error.1 fails with visited | ⟨next, -, rest⟩
    · exact visits _ _ _ visited
    · exact ih length next rest
  | case3 => nofun

theorem walkRows_ne_container (fileCount rows : Nat) (state : σ) (table : Bytes) :
    walkRows overflow visit fileCount rows state table ≠ .error (.container cause) := by
  induction rows generalizing state table with
  | zero => nofun
  | succ rows ih =>
    intro fails
    rcases bind_eq_error.1 fails with row | ⟨⟨next, rest⟩, -, others⟩
    · exact walkRow_ne_container visits _ _ _ _ _ row
    · exact ih next rest others

end Walk

theorem addSize_ne_container (ordinal : Nat) (length : Int64) (sizes : Array UInt64) :
    addSize overflow ordinal length sizes ≠ .error (.container cause) := by
  intro fails
  unfold addSize at fails
  split at fails
  · cases fails
  rcases bind_eq_error.1 fails with adds | ⟨_, -, ⟨⟩⟩
  exact sumOrEnd_ne_container _ adds

theorem copyChunk_ne_container (bundle : Array UInt8) (ordinal : Nat) (length : Int64) (copied : Copied) :
    copyChunk overflow bundle ordinal length copied ≠ .error (.container cause) := by
  intro fails
  rcases bind_eq_error.1 fails with adds | ⟨stop, -, cut⟩
  · exact sumOrEnd_ne_container _ adds
  · split at cut <;> cases cut

theorem contentsUnder_ne_container (bundle : Bytes) (chunks : UInt8) (fileCount : UInt64) :
    contentsUnder overflow bundle chunks fileCount ≠ .error (.container cause) := by
  intro fails
  unfold contentsUnder at fails
  split at fails
  · cases fails
  rcases bind_eq_error.1 fails with asks | ⟨_, -, fails⟩
  · exact reserve_ne_container _ _ asks
  rcases bind_eq_error.1 fails with first | ⟨sizes, -, fails⟩
  · exact walkRows_ne_container addSize_ne_container _ _ _ _ first
  rcases bind_eq_error.1 fails with adds | ⟨needed, -, fails⟩
  · exact sumOrEnd_ne_container _ adds
  split at fails
  · cases fails
  rcases bind_eq_error.1 fails with asks | ⟨_, -, fails⟩
  · exact reserve_ne_container _ _ asks
  split at fails
  · cases fails
  rcases bind_eq_error.1 fails with second | ⟨_, -, ⟨⟩⟩
  exact walkRows_ne_container (copyChunk_ne_container _) _ _ _ _ second

theorem split_ne_container (bundle : Bytes) (ids : Array UInt32) (nameHashes : Array Int32)
    (fileCount : UInt64) : split bundle ids nameHashes fileCount ≠ .error (.container cause) := by
  intro fails
  unfold split splitUnder at fails
  split at fails
  · cases fails
  split at fails
  · cases fails
  rcases bind_eq_error.1 fails with contents | ⟨_, -, ⟨⟩⟩
  exact contentsUnder_ne_container _ _ _ contents

end Splitter

namespace Group

variable {ε : Type} {group : Group} {lift : GroupError → ε}
  {verify : Option Container → Bytes → Except ε Unit} {unpacked : Unpacked}

/-- The data that the stored bytes of a group stand for, once they are opened. -/
def dataOf (group : Group) : Option Container → Bytes
  | some container => container.data
  | none => group.raw

/-- Unpacking a group as its three steps. -/
theorem unpackWith_eq :
    group.unpackWith key lift verify =
      ((openStored group.raw key).mapError lift).bind fun container =>
        (verify container (group.dataOf container)).bind fun _ =>
          ((group.split (group.dataOf container)).mapError lift).bind fun files =>
            .ok ⟨group.id, key, files⟩ := rfl

theorem unpackWith_eq_ok_iff :
    group.unpackWith key lift verify = .ok unpacked ↔
      ∃ container files, openStored group.raw key = .ok container ∧
        verify container (group.dataOf container) = .ok () ∧
        group.split (group.dataOf container) = .ok files ∧ unpacked = ⟨group.id, key, files⟩ := by
  simp only [unpackWith_eq, bind_eq_ok, mapError_eq_ok, Except.ok.injEq]
  constructor
  · rintro ⟨container, opened, ⟨⟩, verified, files, split, rfl⟩
    exact ⟨container, files, opened, verified, split, rfl⟩
  · rintro ⟨container, files, opened, verified, split, rfl⟩
    exact ⟨container, opened, (), verified, files, split, rfl⟩

theorem unpackWith_eq_error_iff {error : ε} :
    group.unpackWith key lift verify = .error error ↔
      (∃ cause, openStored group.raw key = .error cause ∧ lift cause = error) ∨
      ∃ container, openStored group.raw key = .ok container ∧
        (verify container (group.dataOf container) = .error error ∨
          verify container (group.dataOf container) = .ok () ∧
            ∃ cause, group.split (group.dataOf container) = .error cause ∧ lift cause = error) := by
  simp only [unpackWith_eq, bind_eq_error, mapError_eq_ok, mapError_eq_error, reduceCtorEq, and_false,
    exists_false, or_false]
  refine or_congr_right (exists_congr fun container => and_congr_right fun _ => ?_)
  constructor
  · rintro (fails | ⟨⟨⟩, passes, split⟩)
    · exact .inl fails
    · exact .inr ⟨passes, split⟩
  · rintro (fails | ⟨passes, split⟩)
    · exact .inl fails
    · exact .inr ⟨(), passes, split⟩

theorem unpack_eq_ok_iff :
    group.unpack key = .ok unpacked ↔
      ∃ container files, openStored group.raw key = .ok container ∧
        group.split (group.dataOf container) = .ok files ∧ unpacked = ⟨group.id, key, files⟩ := by
  simp [unpack, unpackWith_eq_ok_iff]

theorem file_eq_ok_iff {id : UInt32} {file : File} :
    group.file id key = .ok file ↔
      ∃ unpacked, group.unpack key = .ok unpacked ∧ unpacked.file? id = some file := by
  unfold Group.file
  simp only [bind, Except.bind]
  cases group.unpack key with
  | error error => simp
  | ok unpacked =>
    cases found : unpacked.file? id <;> simp [found, pure, Except.pure, throw, throwThe, MonadExceptOf.throw]

end Group

end SectorVault
