import Mathlib.Logic.Function.Basic

namespace Clib4.Unistd

/-!
# The table of file descriptors

`open()`, `close()`, `dup()`, `dup2()` and `fcntl(F_DUPFD)` as far as they
concern the table: which entries are in use, what they refer to, and the links
between the descriptors that were made from one another.  A pointer to an entry
is its number.  Following a chain of links takes fuel; running out of it stands
for a loop that does not end.
-/

/-- What `Open()` or `Lock()` returned for the given call of `open()`; the
value is `BZERO` where that call did not need a handle. -/
structure FileRef where
  serial : Nat
  isZero : Bool
  deriving DecidableEq, Repr

/-- `struct fd`. -/
structure Fd where
  inUse : Bool
  isDirectory : Bool
  pathOnly : Bool
  stdio : Bool
  noClose : Bool
  pipe : Bool
  cloexec : Bool
  file : FileRef
  orig : Option Nat
  nextAlias : Option Nat
  deriving DecidableEq, Repr

/-- An entry after `memset(fd, 0, sizeof(*fd))`. -/
def Fd.zero : Fd := ⟨false, false, false, false, false, false, false, ⟨0, true⟩, none, none⟩

/-- `__num_fd`, `__fd`, and the number of files opened so far. -/
structure Table where
  numFd : Nat
  fds : Nat -> Fd
  opened : Nat

def openMax : Int := 64

namespace Table

def set (table : Table) (slot : Nat) (fd : Fd) : Table :=
  { table with fds := Function.update table.fds slot fd }

def setNextAlias (table : Table) (slot : Nat) (next : Option Nat) : Table :=
  table.set slot { table.fds slot with nextAlias := next }

def setOriginal (table : Table) (slot orig : Nat) : Table :=
  table.set slot { table.fds slot with orig := some orig }

/-! ## Entries -/

def findVacantFdEntry (table : Table) : Option Nat :=
  (List.range table.numFd).find? fun slot => !(table.fds slot).inUse

/-- `__grow_fd_table`; the entries beyond the table are zero already. -/
def grow (table : Table) (maxFd : Nat) (memory : Bool) : Option Table :=
  let newNumFd := if maxFd = 0 then table.numFd + 10 else maxFd
  if newNumFd > table.numFd then
    if memory then some { table with numFd := newNumFd } else none
  else some table

/-- `__get_file_descriptor_dont_resolve`. -/
def getExact (table : Table) (desc : Int) : Option Nat :=
  if 0 <= desc /\ desc < (table.numFd : Int) then
    if (table.fds desc.toNat).inUse then some desc.toNat else none
  else none

/-- `__get_file_descriptor`. -/
def get (table : Table) (desc : Int) : Option Nat :=
  (table.getExact desc).map fun slot => ((table.fds slot).orig).getD slot

/-- A vacant entry, for which the table is enlarged where necessary. -/
def vacantEntry (table : Table) (memory : Bool) : Option (Nat × Table) :=
  match table.findVacantFdEntry with
  | some slot => some (slot, table)
  | none => do
      let larger <- table.grow 0 memory
      let slot <- larger.findVacantFdEntry
      return (slot, larger)

/-! ## Aliases -/

/-- `__duplicate_fd`, which adds the duplicate at the beginning of the list. -/
def duplicateFd (table : Table) (duplicate orig : Nat) : Table :=
  let source := table.fds orig
  let table := table.set duplicate
    { source with orig := none, nextAlias := none }
  -- the original is looked at again, after the duplicate has been initialized
  let first := ((table.fds orig).orig).getD orig
  let table := table.setOriginal duplicate first
  let table := table.setNextAlias duplicate (table.fds first).nextAlias
  table.setNextAlias first (some duplicate)

def unlinkFrom (table : Table) (fd : Nat) : Nat -> Option Nat -> Option Table
  | _, none => some table
  | 0, some _ => none
  | fuel + 1, some listFd =>
    if (table.fds listFd).nextAlias = some fd then
      some (table.setNextAlias listFd (table.fds fd).nextAlias)
    else unlinkFrom table fd fuel (table.fds listFd).nextAlias

/-- The loop that makes the remaining aliases refer to the new original. -/
def redirectFrom (firstAlias : Nat) : Nat -> Option Nat -> Table -> Option Table
  | _, none, table => some table
  | 0, some _, _ => none
  | fuel + 1, some listFd, table =>
    let table := table.setOriginal listFd firstAlias
    redirectFrom firstAlias fuel (table.fds listFd).nextAlias table

def removeFdAlias (table : Table) (fd : Nat) : Option Table :=
  match (table.fds fd).orig with
  | some orig => table.unlinkFrom fd (table.numFd + 1) (some orig)
  | none =>
    match (table.fds fd).nextAlias with
    | none => some table
    | some firstAlias =>
      let nextAlias := (table.fds firstAlias).nextAlias
      -- the structure is copied to the first alias, which becomes the original
      let table := table.set firstAlias
        { table.fds fd with nextAlias := nextAlias, orig := none }
      redirectFrom firstAlias (table.numFd + 1) nextAlias table

def isAliased (table : Table) (fd : Nat) : Bool :=
  (table.fds fd).orig.isSome || (table.fds fd).nextAlias.isSome

/-! ## Calls -/

/-- What the system answers when a file is closed. -/
structure CloseAnswers where
  parentFound : Bool
  closed : Bool

/-- `file_action_close` of `__fd_hook_entry`: whether it succeeds, and the
table it leaves. -/
def closeAction (table : Table) (fd : Nat) (answers : CloseAnswers) : Option (Bool × Table) :=
  let entry := table.fds fd
  if entry.file.isZero then some (false, table)
  else if entry.isDirectory || entry.pathOnly then some (true, table.set fd .zero)
  else if table.isAliased fd then do
    let unlinked <- table.removeFdAlias fd
    return (true, unlinked.set fd .zero)
  else if entry.stdio || (entry.noClose && !entry.pipe) then some (true, table.set fd .zero)
  else if !entry.pipe && !answers.parentFound then some (true, table)
  else some (answers.closed, table.set fd .zero)

/-- `close()`; the result is -1 on failure. -/
def close (table : Table) (desc : Int) (answers : CloseAnswers) : Option (Int × Table) :=
  match table.getExact desc with
  | none => some (-1, table)
  | some fd => do
      let (succeeded, table) <- table.closeAction fd answers
      return (if succeeded then 0 else -1, table)

/-- How `open()` gets on with a path: it may be refused before an entry is
looked for, the object may fail to open, or it opens. -/
inductive OpenOutcome
  | refused
  | failed
  | opened (isDirectory pathOnly : Bool)

/-- `open()`; `O_CLOEXEC` is the same as an `F_SETFD` right behind it. -/
def openFile (table : Table) (outcome : OpenOutcome) (memory : Bool) : Int × Table :=
  match outcome with
  | .refused => (-1, table)
  | .failed =>
    match table.vacantEntry memory with
    | none => (-1, table)
    | some (_, table) => (-1, table)
  | .opened isDirectory pathOnly =>
    match table.vacantEntry memory with
    | none => (-1, table)
    | some (slot, table) =>
      -- a path that is not a directory is not opened, and there is no lock on it either
      let file : FileRef := ⟨table.opened, pathOnly && !isDirectory⟩
      (slot, { table.set slot
        ⟨true, isDirectory, pathOnly, false, false, false, false, file, none, none⟩ with
        opened := table.opened + 1 })

def dup (table : Table) (desc : Int) (memory : Bool) : Int × Table :=
  match table.get desc with
  | none => (-1, table)
  | some fd1 =>
    match table.vacantEntry memory with
    | none => (-1, table)
    | some (slot, table) => (slot, table.duplicateFd slot fd1)

/-- `fcntl(F_DUPFD)`: the first vacant entry from `base` on.  Once the table has
been enlarged there is one, so that the loop looks for it twice at most. -/
def dupFd (table : Table) (desc base : Int) (memory memoryMore : Bool) : Int × Table :=
  match table.get desc with
  | none => (-1, table)
  | some fd1 =>
    if base < 0 then (-1, table)
    else
      match table.grow (base.toNat + 1) memory with
      | none => (-1, table)
      | some table =>
        let vacant (table : Table) : Option Nat :=
          (List.range table.numFd).find? fun slot =>
            decide (base.toNat <= slot) && !(table.fds slot).inUse
        match vacant table with
        | some slot => (slot, table.duplicateFd slot fd1)
        | none =>
          match table.grow 0 memoryMore with
          | none => (-1, table)
          | some table =>
            match vacant table with
            | some slot => (slot, table.duplicateFd slot fd1)
            | none => (-1, table)

def dup2 (table : Table) (descriptor1 descriptor2 : Int) (memory : Bool)
    (answers : CloseAnswers) : Option (Int × Table) :=
  match table.get descriptor1 with
  | none => some (-1, table)
  | some fd1 =>
    if descriptor2 < 0 \/ descriptor2 > openMax then some (-1, table)
    else if descriptor1 = descriptor2 then some (descriptor2, table)
    else
      match table.grow (descriptor2.toNat + 1) memory with
      | none => some (-1, table)
      | some table =>
        let fd2 := descriptor2.toNat
        if (table.fds fd2).inUse then do
          let (result, table) <- table.close descriptor2 answers
          if result < 0 then return (-1, table)
          else return (descriptor2, table.duplicateFd fd2 fd1)
        else some (descriptor2, table.duplicateFd fd2 fd1)

/-! ## Sequences of calls -/

inductive Call
  | openFile (outcome : OpenOutcome) (memory : Bool)
  | close (desc : Int) (answers : CloseAnswers)
  | dup (desc : Int) (memory : Bool)
  | dupFd (desc base : Int) (memory memoryMore : Bool)
  | dup2 (descriptor1 descriptor2 : Int) (memory : Bool) (answers : CloseAnswers)

def call (table : Table) : Call -> Option (Int × Table)
  | .openFile outcome memory => some (table.openFile outcome memory)
  | .close desc answers => table.close desc answers
  | .dup desc memory => some (table.dup desc memory)
  | .dupFd desc base memory memoryMore =>
    some (table.dupFd desc base memory memoryMore)
  | .dup2 descriptor1 descriptor2 memory answers =>
    table.dup2 descriptor1 descriptor2 memory answers

def run (table : Table) : List Call -> Option Table
  | [] => some table
  | head :: calls => do
      let (_, next) <- table.call head
      next.run calls

/-- Three standard descriptors are open when a program starts. -/
def initial : Table where
  numFd := 3
  fds slot :=
    if slot < 3 then
      ⟨true, false, false, true, false, false, false, ⟨slot, false⟩, none, none⟩
    else .zero
  opened := 3

end Table

end Clib4.Unistd
