import Clib4.Stdio.Locking.Range

namespace Clib4.Stdio.Locking

open Foundation List

/-!
# Unlocking, and locking in vain

An unlock request has to take out the caller's regions with its start and its
length and nothing else.  The handler looks for them only where the descriptor
it is called with is marked as locked: the mark belongs to a descriptor and its
aliases, the regions belong to a process, and a process may have opened a file
more than once.

The nodes of a lock request are made before the list is looked at; on every way
out that is not a success they are given back and the list is as it was.
-/

variable {naming : Naming}

/-! ## What unlocking is for -/

def regionsOf (dir : naming.Dir) (name : naming.Name) (list : List (FileLockNode naming)) :
    List LockedRegionNode :=
  (list.filter (FileLockNode.isFor dir name)).flatMap FileLockNode.lockedRegionList

/-- A region of a process, with the start and the length it was asked for. -/
def LockedRegionNode.isOf (owner : Nat) (start length : Int) (region : LockedRegionNode) : Bool :=
  region.owner == owner && region.start == start && region.length == length

/-- The caller's regions that match are gone; all other regions and the nodes of
all other files are there, and the file has a node exactly if it has a region. -/
structure Unlocked (handle : Handle naming) (start length : Int)
    (before after : List (FileLockNode naming)) : Prop where
  others : after.filter (fun node => !node.isFor handle.parentDir handle.name) =
    before.filter fun node => !node.isFor handle.parentDir handle.name
  regions : regionsOf handle.parentDir handle.name after =
    (regionsOf handle.parentDir handle.name before).filter fun region =>
      !region.isOf handle.owner start length
  node : (∃ node, node ∈ after /\ node.isFor handle.parentDir handle.name) <->
    regionsOf handle.parentDir handle.name after ≠ []

/-- An unlock request that succeeds unlocks; one that fails changes nothing. -/
def System.UnlockMeets (sys : System naming) (fd : Nat) (handle : Handle naming)
    (cmd : Command) (l : Flock) (answers : Answers) : Prop :=
  let result := sys.handleRecordLocking fd handle cmd l answers
  match result.1 with
  | .ok _ => ∃ start stop, l.region answers = some (start, stop) /\
      Unlocked handle start l.len sys.lockList result.2.lockList
  | _ => result.2.lockList = sys.lockList

/-- The regions can be found, because the descriptor is marked and the file can
be examined; or there is none. -/
def System.Reaches (sys : System naming) (fd : Nat) (handle : Handle naming) (l : Flock)
    (answers : Answers) : Prop :=
  ∀ start stop, l.region answers = some (start, stop) -> answers.semaphore ->
    (sys.isLocked fd /\ answers.examineToFind = none /\ answers.parentToFind = none) \/
      ∀ region ∈ regionsOf handle.parentDir handle.name sys.lockList,
        region.isOf handle.owner start l.len = false

/-! ## The node of a file -/

variable {list : List (FileLockNode naming)}

theorem regionsOf_eq_nil_of_missing {dir : naming.Dir} {name : naming.Name}
    (missing : findFileLockNodeByDrawerAndName list dir name = none) :
    regionsOf dir name list = [] := by
  have none := filter_eq_nil_iff.mpr (List.find?_eq_none.mp missing)
  unfold regionsOf
  rw [none]
  rfl

namespace Consistent

variable {list : List (FileLockNode naming)}

section

variable (valid : Consistent list)
include valid

theorem alone (dir : naming.Dir) (name : naming.Name) :
    list.Pairwise fun one two => ¬ (one.isFor dir name /\ two.isFor dir name) :=
  valid.unique.imp fun apart both => apart (.of_isFor both.1 both.2)

section

variable {dir : naming.Dir} {name : naming.Name} {node : FileLockNode naming}
  (found : findFileLockNodeByDrawerAndName list dir name = some node)
include found

theorem filter_isFor : list.filter (FileLockNode.isFor dir name) = [node] := by
  unfold findFileLockNodeByDrawerAndName at found
  rw [<- List.head?_filter] at found
  cases matching : list.filter (FileLockNode.isFor dir name) with
  | nil =>
    rw [matching] at found
    cases found
  | cons first rest =>
    rw [matching] at found
    cases found
    cases rest with
    | nil => rfl
    | cons second rest =>
      have apart := (valid.alone dir name).filter (FileLockNode.isFor dir name)
      rw [matching] at apart
      have both : ∀ entry ∈ list.filter (FileLockNode.isFor dir name),
          entry.isFor dir name := fun entry mem => (mem_filter.mp mem).2
      rw [matching] at both
      exact absurd ⟨both node (by simp), both second (by simp)⟩
        ((pairwise_cons.mp apart).1 second (by simp))

theorem regionsOf_eq : regionsOf dir name list = node.lockedRegionList := by
  unfold regionsOf
  rw [valid.filter_isFor found, flatMap_singleton]

end

theorem node_iff (dir : naming.Dir) (name : naming.Name) :
    (∃ node, node ∈ list /\ node.isFor dir name) <-> regionsOf dir name list ≠ [] := by
  cases found : findFileLockNodeByDrawerAndName list dir name with
  | none =>
    have missing := List.find?_eq_none.mp found
    refine iff_of_false ?_ (not_not_intro (regionsOf_eq_nil_of_missing found))
    rintro ⟨node, mem, isFor⟩
    exact missing node mem isFor
  | some node =>
    have mem := List.mem_of_find?_eq_some found
    rw [valid.regionsOf_eq found]
    exact iff_of_true ⟨node, mem, List.find?_some found⟩ (valid.nonempty node mem)

end

end Consistent

/-! ## Taking regions out -/

theorem dropRegions_isFor {dir : naming.Dir} {name : naming.Name}
    {drop : LockedRegionNode -> Bool} {old new : FileLockNode naming}
    (changed : dropRegions drop old = some new) : new.isFor dir name = old.isFor dir name := by
  unfold dropRegions at changed
  dsimp only at changed
  split at changed
  · cases changed
  · cases changed
    rfl

theorem flatMap_dropRegions (drop : LockedRegionNode -> Bool) {node : FileLockNode naming} :
    (dropRegions drop node).toList.flatMap FileLockNode.lockedRegionList =
      node.lockedRegionList.filter fun region => !drop region := by
  unfold dropRegions
  dsimp only
  split
  · rename_i empty
    rw [List.isEmpty_iff.mp empty]
    rfl
  · rw [Option.toList_some, flatMap_singleton]

theorem Consistent.unlocked_dropFromNode
    (valid : Consistent list) {handle : Handle naming} (start length : Int)
    {node : FileLockNode naming}
    (found : findFileLockNodeByDrawerAndName list handle.parentDir handle.name = some node) :
    Unlocked handle start length list (Locking.dropFromNode handle.parentDir handle.name
      (LockedRegionNode.isOf handle.owner start length) list) where
  others := filter_not_modifyFirst (fun _ _ => dropRegions_isFor) list
  regions := by
    unfold regionsOf Locking.dropFromNode
    rw [filter_modifyFirst (fun _ _ => dropRegions_isFor) (valid.alone _ _),
      valid.filter_isFor found, flatMap_singleton, flatMap_dropRegions,
      flatMap_singleton]
  node := (valid.dropFromNode _ _ _).node_iff _ _

theorem Consistent.unlocked_self_iff
    (valid : Consistent list) (handle : Handle naming) (start length : Int) :
    Unlocked handle start length list list <->
      ∀ region ∈ regionsOf handle.parentDir handle.name list,
        region.isOf handle.owner start length = false := by
  constructor
  · intro unlocked region mem
    have kept := filter_eq_self.mp unlocked.regions.symm region mem
    simpa using kept
  · intro none
    refine ⟨rfl, (filter_eq_self.mpr fun region mem => ?_).symm, valid.node_iff _ _⟩
    rw [none region mem]
    rfl

/-! ## The request -/

theorem findFileLockNodeByFileHandle_eq
    {handle : Handle naming} {answers : Answers} (examined : answers.examineToFind = none)
    (parent : answers.parentToFind = none) :
    findFileLockNodeByFileHandle list handle answers =
      match findFileLockNodeByDrawerAndName list handle.parentDir handle.name with
      | some node => .ok node
      | none => .error errorObjectNotFound := by
  unfold findFileLockNodeByFileHandle
  cases findFileLockNodeByDrawerAndName list handle.parentDir handle.name with
  | some node | none => rw [examined, parent]

namespace System

variable {sys : System naming} {fd : Nat} {handle : Handle naming} {answers : Answers}

theorem removeLockedRegionNode_lockList (start length : Int) :
    (sys.removeLockedRegionNode fd handle start length answers).lockList =
      if sys.isLocked fd then
        match findFileLockNodeByFileHandle sys.lockList handle answers with
        | .ok _ => dropFromNode handle.parentDir handle.name
            (LockedRegionNode.isOf handle.owner start length) sys.lockList
        | .error _ => sys.lockList
      else sys.lockList := by
  unfold removeLockedRegionNode
  split
  · cases findFileLockNodeByFileHandle sys.lockList handle answers with
    | ok node =>
      dsimp only
      unfold removeRegions
      split <;> rfl
    | error error => rfl
  · rfl

theorem unlocked_removeLockedRegionNode_iff (valid : Consistent sys.lockList)
    {start length : Int} :
    Unlocked handle start length sys.lockList
        (sys.removeLockedRegionNode fd handle start length answers).lockList <->
      (sys.isLocked fd /\ answers.examineToFind = none /\ answers.parentToFind = none) \/
        ∀ region ∈ regionsOf handle.parentDir handle.name sys.lockList,
          region.isOf handle.owner start length = false := by
  rw [removeLockedRegionNode_lockList, <- valid.unlocked_self_iff]
  by_cases reached : sys.isLocked fd /\ answers.examineToFind = none /\
      answers.parentToFind = none
  · refine iff_of_true ?_ (Or.inl reached)
    rw [if_pos reached.1, findFileLockNodeByFileHandle_eq reached.2.1 reached.2.2]
    cases found : findFileLockNodeByDrawerAndName sys.lockList handle.parentDir handle.name with
    | some node => exact valid.unlocked_dropFromNode start length found
    | none =>
      refine (valid.unlocked_self_iff _ _ _).mpr fun region mem => ?_
      rw [regionsOf_eq_nil_of_missing found] at mem
      cases mem
  · rw [or_iff_right reached]
    -- whichever of the three is missing, the list is not touched
    by_cases marked : sys.isLocked fd
    · rw [if_pos marked]
      cases result : findFileLockNodeByFileHandle sys.lockList handle answers with
      | error error => exact Iff.rfl
      | ok node =>
        refine absurd ⟨marked, ?_⟩ reached
        unfold findFileLockNodeByFileHandle at result
        cases examined : answers.examineToFind with
        | some error =>
          rw [examined] at result
          cases result
        | none =>
          cases parent : answers.parentToFind with
          | some error =>
            rw [examined, parent] at result
            cases result
          | none => exact ⟨rfl, rfl⟩
    · rw [if_neg marked]

variable {l : Flock}

theorem handleRecordLocking_unlck (unlock : l.type = .unlck) (cmd : Command) :
    sys.handleRecordLocking fd handle cmd l answers =
      match rangeStart l answers with
      | .error error => (.failedIo error, sys)
      | .ok start =>
        match lockRange start l.len with
        | none => (.failed (some einval), sys)
        | some (start, _) =>
          if answers.semaphore then
            (.ok l, sys.removeLockedRegionNode fd handle start l.len answers)
          else (.failed (some ebadf), sys) := by
  have notLock : ¬ ((cmd = .setlk \/ cmd = .setlkw) /\ (l.type = .wrlck \/ l.type = .rdlck)) := by
    rw [unlock]
    rintro ⟨_, excl | shared⟩
    · cases excl
    · cases shared
  unfold handleRecordLocking
  rw [if_neg notLock, if_pos unlock]
  unfold handleRange
  cases rangeStart l answers with
  | error error => rfl
  | ok start =>
    dsimp only
    cases lockRange start l.len with
    | none => rfl
    | some range => rw [unlock]

/-- An unlock request unlocks exactly if it reaches the regions. -/
theorem unlockMeets_iff (valid : Consistent sys.lockList) (unlock : l.type = .unlck)
    (cmd : Command) :
    sys.UnlockMeets fd handle cmd l answers <-> sys.Reaches fd handle l answers := by
  unfold UnlockMeets Reaches
  rw [handleRecordLocking_unlck unlock]
  unfold Flock.region
  cases rangeStart l answers with
  | error error => exact iff_of_true rfl fun start stop none => absurd none (by simp)
  | ok first =>
    dsimp only
    cases lockRange first l.len with
    | none => exact iff_of_true rfl fun start stop none => absurd none (by simp)
    | some range =>
      obtain ⟨start, stop⟩ := range
      dsimp only
      cases answers.semaphore with
      | false => exact iff_of_true rfl fun _ _ _ given => absurd given (by simp)
      | true =>
        rw [if_pos rfl]
        constructor
        · rintro ⟨_, _, ⟨⟩, unlocked⟩ _ _ ⟨⟩ _
          exact (unlocked_removeLockedRegionNode_iff valid).mp unlocked
        · intro reaches
          exact ⟨start, stop, rfl, (unlocked_removeLockedRegionNode_iff valid).mpr
              (reaches start stop rfl rfl)⟩

/-! ## Locking in vain -/

/-- A reply that is not a success comes with the system as it was. -/
def InVain (sys : System naming) (result : Reply × System naming) : Prop :=
  (∀ l, result.1 ≠ .ok l) -> result.2 = sys

theorem InVain.of_same {sys : System naming} {result : Reply × System naming}
    (same : result.2 = sys) : InVain sys result := fun _ => same

theorem InVain.of_ok {sys next : System naming} (l : Flock) : InVain sys (.ok l, next) :=
  fun failed => absurd rfl (failed l)

theorem inVain_setlk {node : FileLockNode naming} {region : LockedRegionNode} :
    InVain sys (sys.setlk fd handle l node region answers) := by
  unfold setlk
  split
  · exact .of_same rfl
  · split
    · cases findFileLockNodeByFileHandle sys.lockList handle answers with
      | ok existing =>
        dsimp only
        cases findCollidingRegion existing handle.owner region.start region.stop
            region.shared with
        | some _ => exact .of_same rfl
        | none => exact .of_ok l
      | error error =>
        dsimp only
        split
        · exact .of_ok l
        · exact .of_same rfl
    · exact .of_same rfl

theorem inVain_handleRange {nodes : Option (FileLockNode naming × LockedRegionNode)} :
    InVain sys (sys.handleRange fd handle .setlk l nodes answers) := by
  unfold handleRange
  cases rangeStart l answers with
  | error error => exact .of_same rfl
  | ok first =>
    dsimp only
    cases lockRange first l.len with
    | none => exact .of_same rfl
    | some range =>
      dsimp only
      split
      · split
        · exact .of_ok l
        · exact .of_same rfl
      · exact absurd ‹Command.setlk = Command.setlkw› (by decide)
      · exact inVain_setlk
      · exact absurd ‹Command.setlk = Command.getlk› (by decide)
      · exact .of_same rfl

theorem inVain_handleRecordLocking (l : Flock) :
    InVain sys (sys.handleRecordLocking fd handle .setlk l answers) := by
  unfold handleRecordLocking
  split
  · cases createFileLockNode handle answers with
    | error error => exact .of_same rfl
    | ok node =>
      cases createLockedRegionNode handle answers with
      | error error => exact .of_same rfl
      | ok region => exact inVain_handleRange
  · split
    · exact inVain_handleRange
    · exact .of_same rfl

end System

/-- For every lock list and every request: an unlock takes out exactly the
caller's regions with its start and length, keeps all other regions and nodes and
frees the node exactly when no region is left, if and only if there is no such
region or the descriptor is marked as locked and its file can be examined; and a
request with `F_SETLK` that fails leaves everything as it was. -/
theorem unlock_exact_iff (sys : System naming) (valid : Consistent sys.lockList)
    (fd : Nat) (handle : Handle naming) (l : Flock) (answers : Answers) :
    (l.type = .unlck -> ∀ cmd,
      (sys.UnlockMeets fd handle cmd l answers <-> sys.Reaches fd handle l answers)) /\
    ((∀ l', (sys.handleRecordLocking fd handle .setlk l answers).1 ≠ .ok l') ->
      (sys.handleRecordLocking fd handle .setlk l answers).2 = sys) :=
  ⟨fun unlock cmd => System.unlockMeets_iff valid unlock cmd,
    System.inVain_handleRecordLocking l⟩

/-! ## One process with two descriptors -/

def ownHandle : Handle plainNaming := ⟨7, (0 : Nat), (0 : Nat), true, true⟩

/-- The unlock request for an exclusive lock from a given byte on. -/
def unlocking (start len : Int) : Flock := ⟨.unlck, .set, start, len, 0⟩

/-- The first ten bytes have been locked through descriptor 1. -/
def tenLocked : System plainNaming :=
  (System.initial plainNaming).run (fun _ => ownHandle) [.request 1 .setlk (excl 0 10) plainAnswers]

theorem tenLocked_consistent : Consistent tenLocked.lockList :=
  System.run_keeps _ _ Consistent.nil (System.initial_prepared plainNaming)

theorem unlock_of_ten_bytes : Consistent tenLocked.lockList /\ (unlocking 0 10).type = .unlck /\
      tenLocked.UnlockMeets 1 ownHandle .setlk (unlocking 0 10) plainAnswers := by
  refine ⟨tenLocked_consistent, rfl, ?_⟩
  refine ((unlock_exact_iff tenLocked tenLocked_consistent 1 ownHandle (unlocking 0 10)
    plainAnswers).1 rfl .setlk).mpr fun start stop _ _ => Or.inl ⟨?_, rfl, rfl⟩
  decide +kernel

/-- Descriptor 2 belongs to the same process and the same file: unlocking through
it reports success and leaves the region there. -/
theorem unlock_through_second_descriptor :
    (tenLocked.handleRecordLocking 2 ownHandle .setlk (unlocking 0 10) plainAnswers).1 =
      .ok (unlocking 0 10) /\
    regionsOf ownHandle.parentDir ownHandle.name
      (tenLocked.handleRecordLocking 2 ownHandle .setlk (unlocking 0 10) plainAnswers).2.lockList =
      [⟨0, 9, 10, 7, false⟩] /\
    ¬ tenLocked.UnlockMeets 2 ownHandle .setlk (unlocking 0 10) plainAnswers := by
  have present : regionsOf ownHandle.parentDir ownHandle.name tenLocked.lockList =
      [⟨0, 9, 10, 7, false⟩] := by decide +kernel
  refine ⟨by decide +kernel, by decide +kernel, fun meets => ?_⟩
  rcases (System.unlockMeets_iff tenLocked_consistent rfl .setlk).mp meets 0 9
      (by decide +kernel) rfl with reached | none
  · exact absurd reached.1 (by decide +kernel)
  · exact absurd (none _ mem_cons_self) (by decide)

end Clib4.Stdio.Locking
