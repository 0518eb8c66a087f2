import Clib4.Stdio.Locking.Unlock

namespace Clib4.Stdio.Locking

open Foundation

/-!
# Asking for a lock

`F_GETLK` is to tell which region would keep a lock from being granted, and
`lockf(F_TEST)` whether there is one; neither is to change the list.  The
handler has a part that does so, but its first test lets only two kinds of
requests through: lock requests with `F_SETLK` and `F_SETLKW`, and unlock
requests with any command.  A question therefore fails, and a question about
`F_UNLCK` unlocks.
-/

variable {naming : Naming}

/-! ## `lockf` -/

def eagain : Nat := 35

def fUlock : Int := 0
def fLock : Int := 1
def fTlock : Int := 2
def fTest : Int := 3

/-- The `struct flock` of `lockf()`, whose `l_pid` has not been given a value. -/
def lockfRequest (type : LockType) (size : Int) (pid : Nat) : Flock := ⟨type, .cur, 0, size, pid⟩

/-- `lockf()`; the reply `ok` stands for the result 0. -/
def System.lockf (sys : System naming) (fd : Nat) (handle : Handle naming)
    (function size : Int) (pid : Nat) (answers : Answers) : Reply × System naming :=
  if function = fUlock then
    sys.handleRecordLocking fd handle .setlk (lockfRequest .unlck size pid) answers
  else if function = fLock then
    sys.handleRecordLocking fd handle .setlkw (lockfRequest .wrlck size pid) answers
  else if function = fTlock then
    sys.handleRecordLocking fd handle .setlk (lockfRequest .wrlck size pid) answers
  else if function = fTest then
    match sys.handleRecordLocking fd handle .getlk (lockfRequest .wrlck size pid) answers with
    | (.ok l, next) =>
      if l.pid = handle.owner \/ l.type = .unlck then (.ok l, next)
      else (.failed (some eagain), next)
    | failed => failed
  else (.failed (some einval), sys)

/-! ## What the question is for -/

/-- A stored region of another owner keeps the request from being granted. -/
def Flock.ConflictsWith (l : Flock) (list : List (FileLockNode naming)) (handle : Handle naming)
    (answers : Answers) (region : LockedRegionNode) : Prop :=
  ∃ start stop, l.region answers = some (start, stop) /\
    region ∈ regionsOf handle.parentDir handle.name list /\ region.owner ≠ handle.owner /\
    region.start <= stop /\ start <= region.stop /\ ¬ (l.type = .rdlck /\ region.shared)

/-- What `F_GETLK` says about a region. -/
def LockedRegionNode.describe (region : LockedRegionNode) : Flock :=
  ⟨if region.shared then .rdlck else .wrlck, .set, region.start, region.length, region.owner⟩

/-- The reply describes a region that is in the way, or says that there is none. -/
def Flock.Answered (l : Flock) (list : List (FileLockNode naming)) (handle : Handle naming)
    (answers : Answers) (reply : Reply) : Prop :=
  (∃ region, l.ConflictsWith list handle answers region /\ reply = .ok region.describe) \/
    (¬ ∃ region, l.ConflictsWith list handle answers region) /\
      ∃ l', reply = .ok l' /\ l'.type = .unlck

/-- The list is left alone, and a question about a lock is answered. -/
def System.GetlkMeets (sys : System naming) (fd : Nat) (handle : Handle naming) (l : Flock)
    (answers : Answers) : Prop :=
  let result := sys.handleRecordLocking fd handle .getlk l answers
  result.2.lockList = sys.lockList /\
    (l.type ≠ .unlck -> l.Answered sys.lockList handle answers result.1)

/-- An unlock request finds no region of the caller it could take out. -/
def System.UnlocksNothing (sys : System naming) (fd : Nat) (handle : Handle naming) (l : Flock)
    (answers : Answers) : Prop :=
  ∀ start stop node, l.region answers = some (start, stop) -> answers.semaphore ->
    sys.isLocked fd ->
    findFileLockNodeByFileHandle sys.lockList handle answers = .ok node ->
    node.lockedRegionList ≠ [] /\
      ∀ region ∈ node.lockedRegionList, region.isOf handle.owner start l.len = false

/-! ## The part that is not reached -/

theorem LockedRegionNode.collides_iff {task : Nat} {start stop : Int} {shared : Bool}
    {region : LockedRegionNode} :
    region.collides task start stop shared <->
      region.owner ≠ task /\ region.start <= stop /\ start <= region.stop /\
        ¬ (shared /\ region.shared) := by
  unfold LockedRegionNode.collides
  cases shared <;> cases region.shared <;> simp <;> tauto

/-- Where nothing fails, the part of the handler for `F_GETLK` answers. -/
theorem System.getlk_answers {sys : System naming} (valid : Consistent sys.lockList)
    {handle : Handle naming} {l : Flock} {answers : Answers} {start stop : Int}
    (range : l.region answers = some (start, stop)) (semaphore : answers.semaphore)
    (examined : answers.examineToFind = none) (parent : answers.parentToFind = none) :
    l.Answered sys.lockList handle answers (sys.getlk handle l start stop answers).1 := by
  have conflicts (region : LockedRegionNode) :
      l.ConflictsWith sys.lockList handle answers region <->
        region ∈ regionsOf handle.parentDir handle.name sys.lockList /\
          region.collides handle.owner start stop (l.type = .rdlck) := by
    rw [LockedRegionNode.collides_iff, decide_eq_true_iff]
    constructor
    · rintro ⟨first, last, same, conflict⟩
      rw [range] at same
      cases same
      exact conflict
    · intro conflict
      exact ⟨start, stop, range, conflict⟩
  unfold getlk
  rw [if_pos semaphore, findFileLockNodeByFileHandle_eq examined parent]
  cases found : findFileLockNodeByDrawerAndName sys.lockList handle.parentDir handle.name with
  | none =>
    refine Or.inr ⟨?_, _, rfl, rfl⟩
    rintro ⟨region, conflict⟩
    have mem := ((conflicts region).mp conflict).1
    rw [regionsOf_eq_nil_of_missing found] at mem
    cases mem
  | some node =>
    have regions := valid.regionsOf_eq found
    dsimp only
    cases colliding : findCollidingRegion node handle.owner start stop (l.type = .rdlck) with
    | some region =>
      refine Or.inl ⟨region, (conflicts region).mpr ⟨?_, List.find?_some colliding⟩, rfl⟩
      rw [regions]
      exact List.mem_of_find?_eq_some colliding
    | none =>
      refine Or.inr ⟨?_, _, rfl, rfl⟩
      rintro ⟨region, conflict⟩
      obtain ⟨mem, collides⟩ := (conflicts region).mp conflict
      rw [regions] at mem
      exact List.find?_eq_none.mp colliding region mem collides

/-- The owner of the ten bytes is told that nothing is in the way, another one that they are. -/
theorem getlk_answers_of_ten_bytes :
    let other : Handle plainNaming := { ownHandle with owner := 8 }
    ((excl 0 10).Answered tenLocked.lockList ownHandle plainAnswers
      (tenLocked.getlk ownHandle (excl 0 10) 0 9 plainAnswers).1) /\
    ((excl 5 10).Answered tenLocked.lockList other plainAnswers
      (tenLocked.getlk other (excl 5 10) 5 14 plainAnswers).1) /\
    (tenLocked.getlk other (excl 5 10) 5 14 plainAnswers).1 = .ok ⟨.wrlck, .set, 0, 10, 7⟩ :=
  ⟨System.getlk_answers tenLocked_consistent rfl rfl rfl rfl,
    System.getlk_answers tenLocked_consistent rfl rfl rfl rfl, by decide +kernel⟩

/-! ## What is reached -/

theorem dropRegions_eq_some_iff {drop : LockedRegionNode -> Bool} {node : FileLockNode naming} :
    dropRegions drop node = some node <->
      node.lockedRegionList ≠ [] /\ ∀ region ∈ node.lockedRegionList, drop region = false := by
  have kept : node.lockedRegionList.filter (fun region => !drop region) = node.lockedRegionList <->
      ∀ region ∈ node.lockedRegionList, drop region = false := by
    rw [List.filter_eq_self]
    simp only [Bool.not_eq_true']
  unfold dropRegions
  dsimp only
  rw [<- kept]
  constructor
  · intro same
    split at same
    · cases same
    · rename_i left
      have regions := congrArg FileLockNode.lockedRegionList (Option.some.inj same)
      dsimp only at regions
      refine ⟨fun empty => left ?_, regions⟩
      rw [empty]
      rfl
  · rintro ⟨filled, all⟩
    rw [all, if_neg (by rw [List.isEmpty_iff]; exact filled)]

namespace System

variable {sys : System naming} {fd : Nat} {handle : Handle naming} {answers : Answers}
  {l : Flock}

theorem handleRecordLocking_getlk (question : l.type ≠ .unlck) :
    sys.handleRecordLocking fd handle .getlk l answers = (.failed none, sys) := by
  unfold handleRecordLocking
  rw [if_neg question, if_neg]
  rintro ⟨command | command, _⟩ <;> cases command

theorem removeLockedRegionNode_same_iff (start length : Int) :
    (sys.removeLockedRegionNode fd handle start length answers).lockList = sys.lockList <->
      (sys.isLocked fd -> ∀ node,
        findFileLockNodeByFileHandle sys.lockList handle answers = .ok node ->
        node.lockedRegionList ≠ [] /\
          ∀ region ∈ node.lockedRegionList, region.isOf handle.owner start length = false) := by
  rw [removeLockedRegionNode_lockList]
  by_cases marked : sys.isLocked fd
  · rw [if_pos marked]
    cases result : findFileLockNodeByFileHandle sys.lockList handle answers with
    | error error => exact iff_of_true rfl fun _ _ found => absurd found (by simp)
    | ok node =>
      have found := findFileLockNodeByFileHandle_ok result
      unfold dropFromNode
      rw [modifyFirst_eq_self_iff]
      constructor
      · rintro same _ _ ⟨⟩
        exact dropRegions_eq_some_iff.mp (same node found)
      · intro all old first
        obtain rfl : node = old := Option.some.inj (found.symm.trans first)
        exact dropRegions_eq_some_iff.mpr (all marked node rfl)
  · rw [if_neg marked]
    exact iff_of_true rfl fun yes => absurd yes marked

theorem unlck_same_iff (unlock : l.type = .unlck) (cmd : Command) :
    (sys.handleRecordLocking fd handle cmd l answers).2.lockList = sys.lockList <->
      sys.UnlocksNothing fd handle l answers := by
  unfold UnlocksNothing
  rw [handleRecordLocking_unlck unlock]
  unfold Flock.region
  cases rangeStart l answers with
  | error error => exact iff_of_true rfl fun _ _ _ none => absurd none (by simp)
  | ok first =>
    dsimp only
    cases lockRange first l.len with
    | none => exact iff_of_true rfl fun _ _ _ none => absurd none (by simp)
    | some range =>
      obtain ⟨start, stop⟩ := range
      dsimp only
      cases answers.semaphore with
      | false => exact iff_of_true rfl fun _ _ _ _ given => absurd given (by simp)
      | true =>
        refine (removeLockedRegionNode_same_iff start l.len).trans ?_
        constructor
        · rintro all _ _ node ⟨⟩ _ marked found
          exact all marked node found
        · intro all marked node found
          exact all start stop node rfl rfl marked found

theorem getlkMeets_iff (l : Flock) : sys.GetlkMeets fd handle l answers <->
      l.type = .unlck /\ sys.UnlocksNothing fd handle l answers := by
  unfold GetlkMeets
  dsimp only
  by_cases unlock : l.type = .unlck
  · rw [unlck_same_iff unlock, and_iff_left fun question => absurd unlock question,
      and_iff_right unlock]
  · rw [handleRecordLocking_getlk unlock]
    refine iff_of_false ?_ fun both => unlock both.1
    rintro ⟨_, answered⟩
    rcases answered unlock with ⟨_, _, reply⟩ | ⟨_, _, reply, _⟩ <;> cases reply

/-- `lockf(F_TEST)` fails, whatever is locked. -/
theorem lockf_test (size : Int) (pid : Nat) :
    sys.lockf fd handle fTest size pid answers = (.failed none, sys) := by
  have question : (lockfRequest .wrlck size pid).type ≠ .unlck := fun unlock => by cases unlock
  unfold lockf
  rw [if_neg (by decide), if_neg (by decide), if_neg (by decide), if_pos rfl,
    handleRecordLocking_getlk question]

end System

/-- For every lock list and every request: `F_GETLK` leaves the list alone and
answers a question about a lock exactly when it is not such a question, but comes
with `F_UNLCK` and finds nothing to unlock; and `lockf(F_TEST)` fails exactly
when a region is in the way, if and only if one is. -/
theorem getlk_answers_iff (sys : System naming) (fd : Nat) (handle : Handle naming)
    (answers : Answers) :
    (∀ l : Flock, sys.GetlkMeets fd handle l answers <->
      l.type = .unlck /\ sys.UnlocksNothing fd handle l answers) /\
    ∀ (size : Int) (pid : Nat),
      (((∀ l, (sys.lockf fd handle fTest size pid answers).1 ≠ .ok l) <->
          ∃ region, (lockfRequest .wrlck size pid).ConflictsWith sys.lockList handle
            answers region) <->
        ∃ region, (lockfRequest .wrlck size pid).ConflictsWith sys.lockList handle
          answers region) := by
  refine ⟨System.getlkMeets_iff, fun size pid => ?_⟩
  have fails l : (sys.lockf fd handle fTest size pid answers).1 ≠ .ok l := fun reply => by
    rw [System.lockf_test] at reply
    cases reply
  exact ⟨fun same => same.mp fails, fun conflict => iff_of_true fails conflict⟩

/-- With nothing locked the question fails and so does the test; and a question
about `F_UNLCK` takes out the region that was locked. -/
theorem getlk_fails_and_unlocks :
    ((System.initial plainNaming).handleRecordLocking 1 ownHandle .getlk (excl 0 10)
        plainAnswers).1 = .failed none /\
    ((System.initial plainNaming).lockf 1 ownHandle fTest 10 0 plainAnswers).1 = .failed none /\
    ¬ (System.initial plainNaming).GetlkMeets 1 ownHandle (excl 0 10) plainAnswers /\
    (tenLocked.lockList.map fun node => node.lockedRegionList) = [[⟨0, 9, 10, 7, false⟩]] /\
    (tenLocked.handleRecordLocking 1 ownHandle .getlk (unlocking 0 10)
        plainAnswers).2.lockList.length = 0 /\
    ¬ tenLocked.GetlkMeets 1 ownHandle (unlocking 0 10) plainAnswers := by
  have emptied : (tenLocked.handleRecordLocking 1 ownHandle .getlk (unlocking 0 10)
      plainAnswers).2.lockList.length = 0 := by decide +kernel
  refine ⟨by decide +kernel, by decide +kernel, fun meets => ?_, by decide +kernel, emptied,
    fun meets => ?_⟩
  · exact absurd ((System.getlkMeets_iff (excl 0 10)).mp meets).1 (by decide)
  · rw [meets.1] at emptied
    exact absurd emptied (by decide +kernel)

end Clib4.Stdio.Locking
