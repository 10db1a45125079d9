import Mathlib
import SectorVault.Proofs.ReferenceTable.Scanning

/-!
# What assembling asks its source for

A source may have a state, so it is not a function of what it is asked for, and it matters how often it is
asked, for what and in which order.  To say what that is, let the source keep account of its calls
(`recording`).  This changes nothing for the assembly, which has no way of looking at the state
(`fetchFrom_recording`).

Fetching the groups of a table ends in one of two ways (`Fetching`).  Either every group has been asked for
and has been answered with bytes, which are now its own; or some groups have been answered, the next one
has not, and nothing has been asked for since.  In both cases the groups have been asked for from first to
last.  That is all there is to know; how the calls relate to the groups, which call fails, and what the
groups are afterwards is read off it.

A failing call is the last one that is made, and this may be the call for the last group.  So it can be seen
from the answers whether the assembly has failed, but not from the number of calls alone.
-/

namespace SectorVault
namespace ReferenceTable

variable {σ ε : Type} {source : Nat → UInt32 → σ → Except ε Bytes × σ} {groups : List Group}

/-! ## Calls -/

/-- A call of a source. -/
structure Call (ε : Type) where
  /-- The ordinal of the group that the source is asked for. -/
  ordinal : Nat
  /-- The id of the group that the source is asked for. -/
  id : UInt32
  /-- What the source answers. -/
  answer : Except ε Bytes

namespace Call

/-- What the source is asked for. -/
def request (call : Call ε) : Nat × UInt32 := (call.ordinal, call.id)

/-- The call for a group that is answered with bytes. -/
def answered (answer : Group × Bytes) : Call ε :=
  ⟨answer.1.ordinal, answer.1.id, .ok answer.2⟩

/-- The call for a group that fails. -/
def failed (group : Group) (error : ε) : Call ε := ⟨group.ordinal, group.id, .error error⟩

@[simp] theorem request_answered (answer : Group × Bytes) :
    (answered answer : Call ε).request = frame answer.1 := rfl

@[simp] theorem request_failed (group : Group) (error : ε) :
    (failed group error).request = frame group := rfl

/-- The call is answered with bytes. -/
def Succeeds (call : Call ε) : Prop := ∃ raw, call.answer = .ok raw

theorem succeeds_answered (answer : Group × Bytes) : (answered answer : Call ε).Succeeds :=
  ⟨answer.2, rfl⟩

theorem not_succeeds_failed (group : Group) (error : ε) : ¬ (failed group error).Succeeds := by
  rintro ⟨raw, answer⟩
  cases answer

end Call

/-- A source that keeps account of its calls, the last one last. -/
def recording (source : Nat → UInt32 → σ → Except ε Bytes × σ) (ordinal : Nat) (id : UInt32)
    (kept : σ × List (Call ε)) : Except ε Bytes × (σ × List (Call ε)) :=
  let (answer, state) := source ordinal id kept.1
  (answer, (state, kept.2 ++ [⟨ordinal, id, answer⟩]))

/-- A group with its stored bytes. -/
def stored (answer : Group × Bytes) : Group := { answer.1 with raw := answer.2 }

/-! ## Fetching -/

/-- The calls that fetching some groups makes, and what it comes to. -/
inductive Fetching (groups : List Group) : List (Call ε) → Except ε (List Group) → Prop
  /-- Every group is answered. -/
  | complete (answers : List (Group × Bytes)) (all : answers.map Prod.fst = groups) :
      Fetching groups (answers.map Call.answered) (.ok (answers.map stored))
  /-- The groups before one that fails are answered. -/
  | broken (answers : List (Group × Bytes)) (group : Group) (behind : List Group) (error : ε)
      (some_group : answers.map Prod.fst ++ group :: behind = groups) :
      Fetching groups (answers.map Call.answered ++ [Call.failed group error]) (.error error)

theorem Fetching.cons {calls : List (Call ε)} {outcome : Except ε (List Group)}
    (fetching : Fetching groups calls outcome) (group : Group) (raw : Bytes) :
    Fetching (group :: groups) (Call.answered (group, raw) :: calls)
      (outcome.map (stored (group, raw) :: ·)) := by
  cases fetching with
  | complete answers all => exact .complete ((group, raw) :: answers) (by simp [all])
  | broken answers failing behind error some_group =>
    exact .broken ((group, raw) :: answers) failing behind error (by simp [some_group])

/-- Keeping account of the calls does not change what fetching comes to. -/
theorem fetchFrom_recording (source : Nat → UInt32 → σ → Except ε Bytes × σ)
    (groups done : List Group) (state : σ) (before : List (Call ε)) :
    ∃ calls outcome after, Fetching groups calls outcome ∧
      fetchFrom source groups done state = (outcome.map (done.reverse ++ ·), after) ∧
      fetchFrom (recording source) groups done (state, before) =
        (outcome.map (done.reverse ++ ·), (after, before ++ calls)) := by
  induction groups generalizing done state before with
  | nil => exact ⟨[], .ok [], state, .complete [] rfl, by simp [fetchFrom, Except.map],
      by simp [fetchFrom, Except.map]⟩
  | cons group groups ih =>
    unfold fetchFrom recording
    obtain ⟨answer, next⟩ := source group.ordinal group.id state
    cases answer with
    | error error =>
      exact ⟨[Call.failed group error], .error error, next, .broken [] group groups error rfl, rfl, rfl⟩
    | ok raw =>
      obtain ⟨calls, outcome, after, fetching, plain, recorded⟩ :=
        ih ({ group with raw := raw } :: done) next (before ++ [Call.answered (group, raw)])
      have behind : outcome.map (({ group with raw := raw } :: done).reverse ++ ·) =
          (outcome.map (stored (group, raw) :: ·)).map (done.reverse ++ ·) := by
        cases outcome <;> simp [Except.map, stored]
      rw [behind] at plain recorded
      refine ⟨_, _, after, fetching.cons group raw, plain, recorded.trans ?_⟩
      rw [List.append_assoc, List.singleton_append]

namespace Fetching

variable {calls : List (Call ε)} {outcome : Except ε (List Group)}

/-- The groups are asked for from first to last. -/
theorem requests (fetching : Fetching groups calls outcome) :
    calls.map Call.request <+: groups.map frame := by
  cases fetching with
  | complete answers all => exact ⟨[], by simp [← all, Function.comp_def]⟩
  | broken answers failing behind error some_group =>
    exact ⟨behind.map frame, by simp [← some_group, Function.comp_def]⟩

theorem exists_ok_iff (fetching : Fetching groups calls outcome) :
    (∃ fetched, outcome = .ok fetched) ↔ ∀ call ∈ calls, call.Succeeds := by
  cases fetching with
  | complete answers all =>
    exact ⟨fun _ => List.forall_mem_map.2 fun answer _ => Call.succeeds_answered answer,
      fun _ => ⟨_, rfl⟩⟩
  | broken answers failing behind error some_group =>
    have fails := Call.not_succeeds_failed failing error
    simp [or_imp, forall_and, fails]

/-- Every group is asked for exactly if no call fails before the one for the last group. -/
theorem requests_eq_iff (fetching : Fetching groups calls outcome) (inOrder : InOrder groups) :
    calls.map Call.request = groups.map frame ↔
      ∀ call ∈ calls, call.Succeeds ∨ call.ordinal + 1 = groups.length := by
  cases fetching with
  | complete answers all =>
    refine iff_of_true (by simp [← all, Function.comp_def]) (List.forall_mem_map.2 fun answer _ => ?_)
    exact .inl (Call.succeeds_answered answer)
  | broken answers failing behind error some_group =>
    subst some_group
    have before : ∀ call ∈ answers.map (Call.answered (ε := ε)), call.Succeeds ∨
        call.ordinal + 1 = (answers.map Prod.fst ++ failing :: behind).length :=
      List.forall_mem_map.2 fun answer _ => .inl (Call.succeeds_answered answer)
    have place : failing.ordinal = answers.length := by simpa using inOrder.ordinal_of_append
    have last : (Call.failed failing error).ordinal + 1 =
        (answers.map Prod.fst ++ failing :: behind).length ↔ behind = [] := by
      rw [← List.length_eq_zero_iff, List.length_append, List.length_map, List.length_cons, ← place]
      change failing.ordinal + 1 = failing.ordinal + (behind.length + 1) ↔ behind.length = 0
      omega
    rw [List.forall_mem_append, and_iff_right before, List.forall_mem_singleton,
      or_iff_right (Call.not_succeeds_failed failing error), last]
    simp [Function.comp_def]

/-- A call that fails is the last one, and its failure is what fetching comes to. -/
theorem eq_nil_of_fails (fetching : Fetching groups calls outcome) {before behind : List (Call ε)}
    {call : Call ε} {error : ε} (split : calls = before ++ call :: behind)
    (fails : call.answer = .error error) : behind = [] ∧ outcome = .error error := by
  have unanswered : ∀ answers : List (Group × Bytes), call ∉ answers.map Call.answered := by
    intro answers mem
    obtain ⟨answer, -, rfl⟩ := List.mem_map.1 mem
    cases fails
  cases fetching with
  | complete answers all => exact absurd (by simp [split]) (unanswered answers)
  | broken answers failing behind' found some_group =>
    rcases behind.eq_nil_or_concat' with rfl | ⟨others, last, rfl⟩
    · obtain ⟨-, same⟩ := List.append_inj' split rfl
      obtain rfl := List.cons.inj same |>.1
      cases fails
      exact ⟨rfl, rfl⟩
    · rw [← List.cons_append, ← List.append_assoc] at split
      obtain ⟨same, -⟩ := List.append_inj' split rfl
      exact absurd (by simp [same]) (unanswered answers)

/-- Every group has the bytes that the call for it was answered with. -/
theorem getElem?_fetched {fetched : List Group} (fetching : Fetching groups calls (.ok fetched))
    {i : Nat} {group : Group} (found : groups[i]? = some group) :
    ∃ call raw, calls[i]? = some call ∧ call.answer = .ok raw ∧
      fetched[i]? = some { group with raw := raw } := by
  cases fetching with
  | complete answers all =>
    subst all
    rw [List.getElem?_map, Option.map_eq_some_iff] at found
    obtain ⟨⟨listed, raw⟩, answer, rfl⟩ := found
    exact ⟨Call.answered (listed, raw), raw, by simp [answer], rfl, by simp [answer, stored]⟩

end Fetching

/-! ## Tables that list the same groups -/

/-- Two tables list the same groups under the same names, whatever bytes are stored of the groups. -/
structure ListsAlike (table listed : ReferenceTable) : Prop where
  groups : table.groups.toList.map unstored = listed.groups.toList.map unstored
  names : table.byName = listed.byName

/-- Looking groups up in a table finds the groups that another one lists, whatever is stored of them. -/
structure LooksUpAs (table listed : ReferenceTable) : Prop where
  size : table.size = listed.size
  ids : table.ids = listed.ids
  capacity : table.capacity = listed.capacity
  group : ∀ id, (table.group? id).map unstored = (listed.group? id).map unstored
  groupHashed : ∀ hash,
    (table.groupHashed? hash).map unstored = (listed.groupHashed? hash).map unstored
  groupNamed : ∀ name,
    (table.groupNamed? name).map unstored = (listed.groupNamed? name).map unstored
  groupAt : ∀ ordinal,
    (table.groupAt? ordinal).map unstored = (listed.groupAt? ordinal).map unstored

namespace ListsAlike

variable {table listed : ReferenceTable}

theorem groupAt? (alike : ListsAlike table listed) (ordinal : Nat) :
    (table.groupAt? ordinal).map unstored = (listed.groupAt? ordinal).map unstored := by
  have same := congrArg (fun groups => groups[ordinal]?) alike.groups
  simpa [ReferenceTable.groupAt?] using same

theorem groupHashed? (alike : ListsAlike table listed) (hash : Int32) :
    (table.groupHashed? hash).map unstored = (listed.groupHashed? hash).map unstored := by
  unfold ReferenceTable.groupHashed?
  rw [alike.names]
  cases listed.byName[hash]? with
  | none => rfl
  | some ordinal => exact alike.groupAt? ordinal

/-- Looking for an id looks at no stored bytes. -/
theorem map_find?_id (groups : List Group) (id : UInt32) :
    (groups.find? fun group => group.id == id).map unstored =
      (groups.map unstored).find? fun group => group.id == id := by
  rw [List.find?_map]
  rfl

theorem group? (alike : ListsAlike table listed) (inOrder : InOrder listed.groups.toList)
    (id : UInt32) : (table.group? id).map unstored = (listed.group? id).map unstored := by
  have frames := congrArg (List.map frame) alike.groups
  simp only [List.map_map] at frames
  have ascend := (inOrder.of_frames frames).ascend
  rw [group?_eq_find? ascend, group?_eq_find? inOrder.ascend, map_find?_id, map_find?_id, alike.groups]

theorem size_eq (alike : ListsAlike table listed) : table.size = listed.size := by
  have same := congrArg List.length alike.groups
  simpa [size] using same

theorem ids_eq (alike : ListsAlike table listed) : table.ids = listed.ids := by
  have same := congrArg (List.map Group.id) alike.groups
  simp only [List.map_map] at same
  refine Array.toList_inj.1 ?_
  rw [table.ids_eq, listed.ids_eq, Array.toList_map, Array.toList_map]
  exact same

theorem looksUpAs (alike : ListsAlike table listed) (inOrder : InOrder listed.groups.toList) :
    LooksUpAs table listed where
  size := alike.size_eq
  ids := alike.ids_eq
  capacity := by rw [capacity, alike.ids_eq, ← capacity]
  group := alike.group? inOrder
  groupHashed := alike.groupHashed?
  groupNamed name := alike.groupHashed? (nameHash name)
  groupAt := alike.groupAt?

end ListsAlike

/-! ## Assembling -/

/-- A table with what assembling fills in. -/
def filled (listed : ReferenceTable) (archive : UInt8) (container : Container) (digest : Digest)
    (groups : List Group) : ReferenceTable :=
  { listed.withGroups groups.toArray with
    archive := archive
    crc := container.crc
    digest := digest
    compression := container.compression }

/-- The calls that assembling a table makes. -/
def callsOf (archive : UInt8) (container : Container) (digest : Digest) (lift : TableError → ε)
    (source : Nat → UInt32 → σ → Except ε Bytes × σ) (state : σ) : List (Call ε) :=
  (assemble archive container digest lift (recording source) (state, [])).2.2

variable {archive : UInt8} {container : Container} {digest : Digest} {lift : TableError → ε}

theorem assemble_of_error {error : TableError} (rejected : read container.data = .error error)
    (source : Nat → UInt32 → σ → Except ε Bytes × σ) (state : σ) :
    assemble archive container digest lift source state = (.error (lift error), state) := by
  unfold assemble
  rw [rejected]

/-- Assembling a table that reads is fetching its groups. -/
theorem assemble_of_ok {listed : ReferenceTable} (accepted : read container.data = .ok listed)
    (source : Nat → UInt32 → σ → Except ε Bytes × σ) (state : σ) :
    assemble archive container digest lift source state =
      ((fetchFrom source listed.groups.toList [] state).1.map
        (filled listed archive container digest),
        (fetchFrom source listed.groups.toList [] state).2) := by
  unfold assemble
  rw [accepted]
  simp only
  split
  · next error after fetched => rw [fetched]; rfl
  · next groups after fetched => rw [fetched]; rfl

/-- The calls that are made for a table that reads, and what assembling it comes to. -/
theorem exists_fetching {listed : ReferenceTable} (accepted : read container.data = .ok listed)
    (source : Nat → UInt32 → σ → Except ε Bytes × σ) (state : σ) :
    ∃ outcome after,
      Fetching listed.groups.toList (callsOf archive container digest lift source state) outcome ∧
      assemble archive container digest lift source state =
        (outcome.map (filled listed archive container digest), after) ∧
      assemble archive container digest lift (recording source) (state, []) =
        (outcome.map (filled listed archive container digest),
          (after, callsOf archive container digest lift source state)) := by
  obtain ⟨calls, outcome, after, fetching, plain, recorded⟩ :=
    fetchFrom_recording source listed.groups.toList [] state []
  have nothing : outcome.map (([] : List Group).reverse ++ ·) = outcome := by
    cases outcome <;> rfl
  rw [nothing] at plain recorded
  have recorded' : assemble archive container digest lift (recording source) (state, []) =
      (outcome.map (filled listed archive container digest), (after, calls)) := by
    rw [assemble_of_ok accepted, recorded]
    rfl
  have made : callsOf archive container digest lift source state = calls := by
    rw [callsOf, recorded']
  rw [made]
  exact ⟨outcome, after, fetching, by rw [assemble_of_ok accepted, plain], recorded'⟩

/-- The groups of a table are asked for by their places. -/
theorem InOrder.map_frame (inOrder : InOrder groups) :
    groups.map frame = groups.zipIdx.map fun (group, ordinal) => (ordinal, group.id) := by
  refine List.ext_getElem (by simp) fun i h _ => ?_
  rw [List.length_map] at h
  simp [frame, inOrder.ordinal_getElem h]

theorem map_unstored_stored (answers : List (Group × Bytes)) :
    (answers.map stored).map unstored = (answers.map Prod.fst).map unstored := by
  simp [stored, unstored]

/-- What is fetched are the groups that were asked for, whatever their bytes. -/
theorem Fetching.map_unstored {fetched : List Group} {calls : List (Call ε)}
    (fetching : Fetching groups calls (.ok fetched)) : fetched.map unstored = groups.map unstored := by
  cases fetching with
  | complete answers all => rw [map_unstored_stored, all]

/-- **Assembling is ordered and all or nothing.**  That the calls are recorded makes no difference.  If the
table does not read, that is the failure, and the source is not asked.  Otherwise the source is asked for the
groups by ordinal and id, from first to last; for all of them exactly if no call fails before the one for the
last group.  A call that fails is the last one, and its failure is what assembling comes to, so a table is
assembled exactly if no call fails.  Each of its groups then has the bytes that the call for it was answered
with; its archive and digest are those given, its checksum and compression those of the container; and
everything else, and every group that can be looked up, is as in the table that was read. -/
theorem assemble_calls (archive : UInt8) (container : Container) (digest : Digest)
    (lift : TableError → ε) (source : Nat → UInt32 → σ → Except ε Bytes × σ) (state : σ) :
    let outcome := (assemble archive container digest lift source state).1
    let calls := callsOf archive container digest lift source state
    assemble archive container digest lift (recording source) (state, []) =
      (outcome, ((assemble archive container digest lift source state).2, calls)) ∧
    (∀ error, read container.data = .error error → outcome = .error (lift error) ∧ calls = []) ∧
    (∀ listed, read container.data = .ok listed →
      let requests := listed.groups.toList.zipIdx.map fun (group, ordinal) => (ordinal, group.id)
      calls.map Call.request <+: requests ∧
      (calls.map Call.request = requests ↔
        ∀ call ∈ calls, call.Succeeds ∨ call.ordinal + 1 = listed.groups.size) ∧
      (∀ before call behind error, calls = before ++ call :: behind → call.answer = .error error →
        behind = [] ∧ outcome = .error error) ∧
      ((∃ table, outcome = .ok table) ↔ ∀ call ∈ calls, call.Succeeds) ∧
      (∀ table, outcome = .ok table →
        (∀ (i : Nat) group, listed.groups[i]? = some group →
          ∃ call raw, calls[i]? = some call ∧ call.answer = .ok raw ∧
            table.groups[i]? = some { group with raw := raw }) ∧
        table = filled listed archive container digest table.groups.toList ∧
        LooksUpAs table listed)) := by
  intro outcome calls
  refine ⟨?_, ?_, ?_⟩
  · cases table : read container.data with
    | error error => simp only [outcome, calls, callsOf, assemble_of_error table]
    | ok listed =>
      obtain ⟨fetched, after, -, plain, recorded⟩ :=
        @exists_fetching σ ε archive container digest lift listed table source state
      simp only [outcome, calls, plain, recorded]
  · intro error rejected
    simp only [outcome, calls, callsOf, assemble_of_error rejected, and_self]
  · intro listed accepted requests
    obtain ⟨fetched, after, fetching, plain, -⟩ := exists_fetching accepted source state
    have inOrder := inOrder_of_read accepted
    have outcome_eq : outcome = fetched.map (filled listed archive container digest) :=
      congrArg Prod.fst plain
    have requests_eq : listed.groups.toList.map frame = requests := inOrder.map_frame
    rw [← requests_eq, outcome_eq]
    refine ⟨fetching.requests, ?_, ?_, ?_, ?_⟩
    · rw [← Array.length_toList]
      exact fetching.requests_eq_iff inOrder
    · intro before call behind error split fails
      obtain ⟨last, rfl⟩ := fetching.eq_nil_of_fails split fails
      exact ⟨last, rfl⟩
    · refine Iff.trans ⟨?_, ?_⟩ fetching.exists_ok_iff
      · rintro ⟨table, ok⟩
        obtain ⟨groups, ok, -⟩ := map_eq_ok.1 ok
        exact ⟨groups, ok⟩
      · rintro ⟨groups, ok⟩
        exact ⟨_, map_eq_ok.2 ⟨groups, ok, rfl⟩⟩
    · intro table ok
      obtain ⟨groups, rfl, rfl⟩ := map_eq_ok.1 ok
      have alike : ListsAlike (filled listed archive container digest groups) listed :=
        ⟨fetching.map_unstored, rfl⟩
      refine ⟨?_, rfl, alike.looksUpAs inOrder⟩
      intro i group here
      rw [← Array.getElem?_toList] at here
      obtain ⟨call, raw, made, answer, stored⟩ := fetching.getElem?_fetched here
      exact ⟨call, raw, made, answer, by simpa [filled] using stored⟩

/-- A table of two groups with the ids 4 and 9, in a container. -/
def twoGroups : Container :=
  ⟨[5, 0, 0, 2, 0, 4, 0, 5] ++ List.replicate 20 0, .none, -1, 0, 0⟩

/-- A source that counts how often it is asked, and that lacks the group with one id. -/
def lacking (missing : UInt32) (_ : Nat) (id : UInt32) (asked : Nat) :
    Except TableError Bytes × Nat :=
  (if id = missing then .error .truncated else .ok [UInt8.ofNat asked], asked + 1)

/-- If only the last of two groups is lacking, both are asked for all the same, and there is no table; if the
first one is, the second one is not asked for; and if none is, the second group has the bytes of the second
call. -/
theorem assemble_calls_twoGroups :
    let assembled := fun missing => (assemble 3 twoGroups Digest.zero id (lacking missing) 0).1
    let requests := fun missing =>
      (callsOf 3 twoGroups Digest.zero id (lacking missing) 0).map Call.request
    requests 9 = [(0, 4), (1, 9)] ∧ (¬ ∃ table, assembled 9 = .ok table) ∧
    requests 4 = [(0, 4)] ∧ assembled 4 = .error .truncated ∧
    ∃ table, assembled 7 = .ok table ∧ (table.groups[1]?).map Group.raw = some [1] := by
  intro assembled requests
  obtain ⟨listed, accepted⟩ : ∃ listed, read twoGroups.data = .ok listed := ⟨_, rfl⟩
  obtain ⟨-, complete, -, assembled_iff, -⟩ :=
    (assemble_calls 3 twoGroups Digest.zero id (lacking 9) 0).2.2 listed accepted
  obtain ⟨-, -, last, -, -⟩ :=
    (assemble_calls 3 twoGroups Digest.zero id (lacking 4) 0).2.2 listed accepted
  obtain ⟨-, -, -, assembled_iff', contents⟩ :=
    (assemble_calls 3 twoGroups Digest.zero id (lacking 7) 0).2.2 listed accepted
  have calls_nine : callsOf 3 twoGroups Digest.zero id (lacking 9) 0 =
      [⟨0, 4, .ok [0]⟩, ⟨1, 9, .error .truncated⟩] := rfl
  have calls_four : callsOf 3 twoGroups Digest.zero id (lacking 4) 0 =
      [⟨0, 4, .error .truncated⟩] := rfl
  have calls_seven : callsOf 3 twoGroups Digest.zero id (lacking 7) 0 =
      [⟨0, 4, .ok [0]⟩, ⟨1, 9, .ok [1]⟩] := rfl
  have size : listed.groups.size = 2 := by cases accepted; rfl
  refine ⟨?_, ?_, congrArg (List.map Call.request) calls_four, (last [] _ [] _ calls_four rfl).2, ?_⟩
  · refine (complete.2 ?_).trans ?_
    · rw [calls_nine, size]
      simp [Call.Succeeds]
    · cases accepted
      rfl
  · rw [assembled_iff, calls_nine]
    simp [Call.Succeeds]
  · obtain ⟨table, ok⟩ := assembled_iff'.2 (by rw [calls_seven]; simp [Call.Succeeds])
    obtain ⟨call, raw, made, answer, group⟩ := (contents table ok).1 1 _
      (Array.getElem?_eq_getElem (by rw [size]; decide))
    rw [calls_seven] at made
    cases made
    cases answer
    exact ⟨table, ok, by rw [group]; rfl⟩

/-- That all groups are asked for does not mean that no call fails: the last one may. -/
theorem all_requested_though_last_fails :
    let calls := callsOf 3 twoGroups Digest.zero id (lacking 9) 0
    ∃ listed, read twoGroups.data = .ok listed ∧
      ¬ (calls.map Call.request =
          listed.groups.toList.zipIdx.map (fun (group, ordinal) => (ordinal, group.id)) ↔
        ∀ call ∈ calls, call.Succeeds) := by
  intro calls
  refine ⟨_, rfl, fun complete_iff => ?_⟩
  have succeed := complete_iff.1 rfl
  exact Call.not_succeeds_failed (Group.blank 1 9) TableError.truncated
    (succeed _ (List.mem_of_getElem? (i := 1) rfl))

end ReferenceTable
end SectorVault
