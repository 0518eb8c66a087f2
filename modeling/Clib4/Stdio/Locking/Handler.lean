import Clib4.Foundation.MachineInt
import Clib4.Foundation.ModifyFirst
import Clib4.Stdio.Position

namespace Clib4.Stdio.Locking

open Foundation

/-!
# Record locking

`record_locking.c`: the lock list all processes share, the request handler
behind `fcntl()` and the cleanup behind `close()`.  The list is only touched
while the semaphore is held, so what happens under it is one step.  The answers
of the operating system and of the allocator are given to each call; every one
of them may be a failure.
-/

/-- An error code of `dos.library`. -/
abbrev DosError := Nat

def errorNoFreeStore : DosError := 103
def errorObjectNotFound : DosError := 205

def ebadf : Nat := 9
def eacces : Nat := 13
def einval : Nat := 22

/-- Directories and file names, and how `SameLock()` and `Stricmp()` compare
them; `true` stands for `LOCK_SAME` and `SAME`. -/
structure Naming where
  Dir : Type
  Name : Type
  sameLock : Dir -> Dir -> Bool
  stricmp : Name -> Name -> Bool
  sameLock_equivalence : Equivalence fun first second => sameLock first second
  stricmp_equivalence : Equivalence fun first second => stricmp first second

structure LockedRegionNode where
  start : Int
  stop : Int
  length : Int
  owner : Nat
  shared : Bool
  deriving DecidableEq, Repr

structure FileLockNode (naming : Naming) where
  fileParentDir : naming.Dir
  fileName : naming.Name
  lockedRegionList : List LockedRegionNode

/-- What belongs to an open descriptor: the process, the file and the access mode. -/
structure Handle (naming : Naming) where
  owner : Nat
  parentDir : naming.Dir
  name : naming.Name
  canRead : Bool
  canWrite : Bool

inductive LockType
  | rdlck | unlck | wrlck
  deriving DecidableEq, Repr

inductive Command
  | getlk | setlk | setlkw
  deriving DecidableEq, Repr

structure Flock where
  type : LockType
  whence : Whence
  start : Int
  len : Int
  pid : Nat
  deriving DecidableEq, Repr

/-- What the system calls made by one request answer; an error code stands for
a failure.  An object that is open cannot have been deleted, so examining it
does not fail with `ERROR_OBJECT_NOT_FOUND`. -/
structure Answers where
  examineForNode : Option DosError
  allocNode : Bool
  parentForNode : Option DosError
  allocRegion : Bool
  position : Except DosError Int
  fileSize : Except DosError Int
  examineForName : Option DosError
  parentForName : Option DosError
  examineToFind : Option DosError
  parentToFind : Option DosError
  semaphore : Bool
  examine_found : examineToFind ≠ some errorObjectNotFound
  parent_found : parentToFind ≠ some errorObjectNotFound

/-! ## Nodes -/

section Nodes

variable {naming : Naming}

def createLockedRegionNode (handle : Handle naming) (answers : Answers) :
    Except DosError LockedRegionNode :=
  if answers.allocRegion then .ok ⟨0, 0, 0, handle.owner, false⟩
  else .error errorNoFreeStore

def createFileLockNode (handle : Handle naming) (answers : Answers) :
    Except DosError (FileLockNode naming) :=
  match answers.examineForNode with
  | some error => .error error
  | none =>
    if answers.allocNode then
      match answers.parentForNode with
      | some error => .error error
      | none => .ok ⟨handle.parentDir, handle.name, []⟩
    else .error errorNoFreeStore

def FileLockNode.isFor (dir : naming.Dir) (name : naming.Name) (node : FileLockNode naming) :
    Bool :=
  naming.sameLock node.fileParentDir dir && naming.stricmp node.fileName name

def findFileLockNodeByDrawerAndName (list : List (FileLockNode naming)) (dir : naming.Dir)
    (name : naming.Name) : Option (FileLockNode naming) :=
  list.find? (FileLockNode.isFor dir name)

def findFileLockNodeByFileHandle (list : List (FileLockNode naming)) (handle : Handle naming)
    (answers : Answers) : Except DosError (FileLockNode naming) :=
  match answers.examineToFind with
  | some error => .error error
  | none =>
    match answers.parentToFind with
    | some error => .error error
    | none =>
      match findFileLockNodeByDrawerAndName list handle.parentDir handle.name with
      | some node => .ok node
      | none => .error errorObjectNotFound

/-- Whether a stored region keeps a task from locking another one. -/
def LockedRegionNode.collides (task : Nat) (start stop : Int) (shared : Bool)
    (region : LockedRegionNode) : Bool :=
  region.start <= stop && start <= region.stop && (!shared || !region.shared) &&
    region.owner != task

def findCollidingRegion (node : FileLockNode naming) (task : Nat) (start stop : Int)
    (shared : Bool) : Option LockedRegionNode :=
  node.lockedRegionList.find? (LockedRegionNode.collides task start stop shared)

def addToNode (dir : naming.Dir) (name : naming.Name) (region : LockedRegionNode)
    (list : List (FileLockNode naming)) : List (FileLockNode naming) :=
  modifyFirst (FileLockNode.isFor dir name)
    (fun node => some { node with lockedRegionList := node.lockedRegionList ++ [region] }) list

/-- Add a region together with the node of a file that had none. -/
def addNode (node : FileLockNode naming) (region : LockedRegionNode)
    (list : List (FileLockNode naming)) : List (FileLockNode naming) :=
  list ++ [{ node with lockedRegionList := node.lockedRegionList ++ [region] }]

/-- Remove regions from a node; an empty node is removed, too. -/
def dropRegions (drop : LockedRegionNode -> Bool) (node : FileLockNode naming) :
    Option (FileLockNode naming) :=
  let left := node.lockedRegionList.filter fun region => !drop region
  if left.isEmpty then none else some { node with lockedRegionList := left }

def dropFromNode (dir : naming.Dir) (name : naming.Name) (drop : LockedRegionNode -> Bool)
    (list : List (FileLockNode naming)) : List (FileLockNode naming) :=
  modifyFirst (FileLockNode.isFor dir name) (dropRegions drop) list

end Nodes

/-! ## The range of a request -/

/-- The place `l_start` refers to; positions are 64 bits wide. -/
def rangeStart (l : Flock) (answers : Answers) : Except DosError Int :=
  match l.whence with
  | .set => .ok l.start
  | .cur => do
      let position <- answers.position
      return signed 64 (position + l.start)
  | .fromEnd => do
      let size <- answers.fileSize
      return signed 64 (size + l.start)

/-- First and last byte of the region, or nothing where it would begin before
the file. -/
def lockRange (start : Int) (requested : Int) : Option (Int × Int) :=
  let len := if requested = 0 then longMax else requested
  if start < 0 then none
  else if len < 0 then
    let start := signed 64 (start + len)
    if start < 0 then none
    else
      let stop := signed 64 (start - len - 1)
      some (start, if stop < start then longMax else stop)
  else
    let stop := signed 64 (start - 1 + len)
    some (start, if stop < start - 1 then longMax else stop)

/-! ## Requests -/

/-- What a call reports: the `struct flock` it leaves behind, an `errno` (none
where the handler does not set it), an error of `dos.library` to be translated,
that it goes on waiting, or a read through a null pointer. -/
inductive Reply
  | ok (l : Flock)
  | failed (errno : Option Nat)
  | failedIo (error : DosError)
  | waiting
  | crashed
  deriving DecidableEq, Repr

/-- A request that waits in the polling loop of `F_SETLKW`. -/
structure Waiting (naming : Naming) where
  fd : Nat
  request : Flock
  node : FileLockNode naming
  region : LockedRegionNode
  parentDir : naming.Dir
  name : naming.Name

/-- The lock list, `FDF_IS_LOCKED` for each descriptor (it is the same for all
aliases of one), and the requests that wait. -/
structure System (naming : Naming) where
  lockList : List (FileLockNode naming)
  isLocked : Nat -> Bool
  waiting : List (Waiting naming)

namespace System

variable {naming : Naming}

def setLocked (sys : System naming) (fd : Nat) (value : Bool) : System naming :=
  { sys with isLocked := fun other => if other = fd then value else sys.isLocked other }

def withList (sys : System naming) (list : List (FileLockNode naming)) : System naming :=
  { sys with lockList := list }

/-- Remove regions of a file and, when none is left, mark it as unlocked. -/
def removeRegions (sys : System naming) (fd : Nat) (handle : Handle naming)
    (node : FileLockNode naming) (drop : LockedRegionNode -> Bool) : System naming :=
  let list := dropFromNode handle.parentDir handle.name drop sys.lockList
  if (dropRegions drop node).isNone then (sys.withList list).setLocked fd false
  else sys.withList list

/-- An unlock request has to match the start and the length of a lock request. -/
def removeLockedRegionNode (sys : System naming) (fd : Nat) (handle : Handle naming)
    (start originalLength : Int) (answers : Answers) : System naming :=
  if sys.isLocked fd then
    match findFileLockNodeByFileHandle sys.lockList handle answers with
    | .ok node =>
      sys.removeRegions fd handle node fun region =>
        region.owner == handle.owner && region.start == start && region.length == originalLength
    | .error _ => sys
  else sys

def cleanupLockedRecords (sys : System naming) (fd : Nat) (handle : Handle naming)
    (answers : Answers) : System naming :=
  if sys.isLocked fd && answers.semaphore then
    match findFileLockNodeByFileHandle sys.lockList handle answers with
    | .ok _ =>
      (sys.withList (dropFromNode handle.parentDir handle.name
        (fun region => region.owner == handle.owner) sys.lockList)).setLocked fd false
    | .error error =>
      if error = errorObjectNotFound then sys.setLocked fd false else sys
  else sys

def poll (sys : System naming) (request : Waiting naming) : Option (System naming) :=
  match findFileLockNodeByDrawerAndName sys.lockList request.parentDir request.name with
  | some existing =>
    match findCollidingRegion existing request.region.owner request.region.start
        request.region.stop request.region.shared with
    | none => some (sys.withList
        (addToNode request.parentDir request.name request.region sys.lockList))
    | some _ => none
  | none => some (sys.withList (addNode request.node request.region sys.lockList))

/-- The polling loop of `F_SETLKW` up to the point where it waits. -/
def turn (sys : System naming) (request : Waiting naming) (semaphore : Bool) :
    Reply × System naming :=
  if semaphore then
    match sys.poll request with
    | some granted => (.ok request.request, granted.setLocked request.fd true)
    | none => (.waiting, { sys with waiting := sys.waiting ++ [request] })
  else (.failed (some ebadf), sys)

/-- Shared locks require readable files, exclusive locks writable ones. -/
def accessDenied (handle : Handle naming) (shared : Bool) : Bool :=
  (shared && !handle.canRead) || (!shared && !handle.canWrite)

/-- The part of the handler for `F_SETLK`. -/
def setlk (sys : System naming) (fd : Nat) (handle : Handle naming) (l : Flock)
    (node : FileLockNode naming) (region : LockedRegionNode) (answers : Answers) :
    Reply × System naming :=
  if accessDenied handle region.shared then (.failed (some ebadf), sys)
  else if answers.semaphore then
    match findFileLockNodeByFileHandle sys.lockList handle answers with
    | .ok existing =>
      match findCollidingRegion existing handle.owner region.start region.stop region.shared with
      | some _ => (.failed (some eacces), sys)
      | none => (.ok l, (sys.withList
          (addToNode handle.parentDir handle.name region sys.lockList)).setLocked fd true)
    | .error error =>
      if error = errorObjectNotFound then
        (.ok l, (sys.withList (addNode node region sys.lockList)).setLocked fd true)
      else (.failedIo error, sys)
  else (.failed (some ebadf), sys)

/-- The part of the handler for `F_SETLKW`.  When the file has been examined
for `SEEK_END`, a second examination that fails goes unnoticed until its name
is read. -/
def setlkw (sys : System naming) (fd : Nat) (handle : Handle naming) (l : Flock)
    (node : FileLockNode naming) (region : LockedRegionNode) (answers : Answers) :
    Reply × System naming :=
  match answers.examineForName, answers.parentForName with
  | some error, none =>
    if l.whence ≠ .fromEnd then (.failedIo error, sys)
    else if accessDenied handle region.shared || !answers.semaphore then
      (.failed (some ebadf), sys)
    else (.crashed, sys)
  | some examineError, some parentError =>
    (.failedIo (if l.whence ≠ .fromEnd then examineError else parentError), sys)
  | none, some error => (.failedIo error, sys)
  | none, none =>
    if accessDenied handle region.shared then (.failed (some ebadf), sys)
    else sys.turn ⟨fd, l, node, region, handle.parentDir, handle.name⟩ answers.semaphore

/-- The part of the handler for `F_GETLK`. -/
def getlk (sys : System naming) (handle : Handle naming) (l : Flock) (start stop : Int)
    (answers : Answers) : Reply × System naming :=
  if answers.semaphore then
    match findFileLockNodeByFileHandle sys.lockList handle answers with
    | .ok node =>
      match findCollidingRegion node handle.owner start stop (l.type = .rdlck) with
      | some found =>
        (.ok ⟨if found.shared then .rdlck else .wrlck, .set, found.start, found.length,
          found.owner⟩, sys)
      | none => (.ok { l with type := .unlck }, sys)
    | .error error =>
      if error = errorObjectNotFound then (.ok { l with type := .unlck }, sys)
      else (.failedIo error, sys)
  else (.failed (some ebadf), sys)

def handleRange (sys : System naming) (fd : Nat) (handle : Handle naming) (cmd : Command)
    (l : Flock) (nodes : Option (FileLockNode naming × LockedRegionNode)) (answers : Answers) :
    Reply × System naming :=
  match rangeStart l answers with
  | .error error => (.failedIo error, sys)
  | .ok start =>
    match lockRange start l.len with
    | none => (.failed (some einval), sys)
    | some (start, stop) =>
      match l.type, cmd, nodes with
      | .unlck, _, _ =>
        if answers.semaphore then
          (.ok l, sys.removeLockedRegionNode fd handle start l.len answers)
        else (.failed (some ebadf), sys)
      | type, .setlkw, some (node, region) =>
        sys.setlkw fd handle l node
          { region with
            start := start, stop := stop, length := l.len, shared := type = .rdlck }
          answers
      | type, .setlk, some (node, region) =>
        sys.setlk fd handle l node
          { region with
            start := start, stop := stop, length := l.len, shared := type = .rdlck }
          answers
      | _, .getlk, _ => sys.getlk handle l start stop answers
      | _, _, none => (.crashed, sys)

/-- `__handle_record_locking`.  `F_GETLK` gets no further than the first test,
unless it comes with `F_UNLCK`, when it unlocks. -/
def handleRecordLocking (sys : System naming) (fd : Nat) (handle : Handle naming)
    (cmd : Command) (l : Flock) (answers : Answers) : Reply × System naming :=
  if (cmd = .setlk \/ cmd = .setlkw) /\ (l.type = .wrlck \/ l.type = .rdlck) then
    match createFileLockNode handle answers with
    | .error error => (.failedIo error, sys)
    | .ok node =>
      match createLockedRegionNode handle answers with
      | .error error => (.failedIo error, sys)
      | .ok region => sys.handleRange fd handle cmd l (some (node, region)) answers
  else if l.type = .unlck then sys.handleRange fd handle cmd l none answers
  else (.failed none, sys)

end System

/-! ## Any number of processes -/

/-- What a process may do next: make a request, take another turn in the
polling loop, be interrupted there, or close a descriptor (the locked records
are cleaned up with the last of its aliases). -/
inductive Step
  | request (fd : Nat) (cmd : Command) (l : Flock) (answers : Answers)
  | retry (idx : Nat) (semaphore : Bool)
  | interrupt (idx : Nat)
  | close (fd : Nat) (last : Bool) (answers : Answers)

/-- The system after one step; `handles` says what the descriptors refer to. -/
def System.step {naming : Naming} (handles : Nat -> Handle naming) (sys : System naming) :
    Step -> System naming
  | .request fd cmd l answers => (sys.handleRecordLocking fd (handles fd) cmd l answers).2
  | .retry idx semaphore =>
    match sys.waiting[idx]? with
    | none => sys
    | some request =>
      (System.turn { sys with waiting := sys.waiting.eraseIdx idx } request
        semaphore).2
  | .interrupt idx => { sys with waiting := sys.waiting.eraseIdx idx }
  | .close fd last answers =>
    if last then sys.cleanupLockedRecords fd (handles fd) answers else sys

/-- The system after any steps of any processes, in the order given. -/
def System.run {naming : Naming} (handles : Nat -> Handle naming) (sys : System naming)
    (steps : List Step) : System naming :=
  steps.foldl (System.step handles) sys

def System.initial (naming : Naming) : System naming := ⟨[], fun _ => false, []⟩

end Clib4.Stdio.Locking
