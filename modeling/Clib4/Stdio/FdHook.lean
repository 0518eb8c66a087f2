import Clib4.Stdio.Descriptor
import Clib4.Foundation.Run

namespace Clib4.Stdio

open Foundation List

/-!
# The descriptor of a disk file

`__fd_hook_entry` (`fdhookentry.c`) with its messages for reading, writing and
seeking, and `__grow_file_size` (`grow_file.c`).  `dos.library` is given by
what its functions do when they succeed in full: a handle has one position,
which cannot be moved behind the end of the file.  `fd_Position` remembers
where the handle stands, and is brought up to date by each message on its own.
-/

/-! ## Handles of `dos.library` -/

/-- An open file: its bytes, and a position that is never behind the end. -/
@[ext]
structure DosFile where
  content : List UInt8
  position : Nat
  within : position <= content.length

namespace DosFile

def read (file : DosFile) (size : Nat) : List UInt8 × DosFile :=
  let bytes := (file.content.drop file.position).take size
  (bytes, { file with
    position := file.position + bytes.length
    within := by
      have := file.within
      simp only [bytes, length_take, length_drop]
      omega })

def write (file : DosFile) (data : List UInt8) : DosFile where
  content := overwrite file.content file.position data
  position := file.position + data.length
  within := by
    have := file.within
    by_cases empty : data = []
    · rw [empty, overwrite_nil]
      exact this
    · rw [length_overwrite _ _ _ empty]
      exact le_max_right _ _

def toEnd (file : DosFile) : DosFile :=
  { file with position := file.content.length, within := le_refl _ }

def toStart (file : DosFile) : DosFile :=
  { file with position := 0, within := Nat.zero_le _ }

def base (file : DosFile) : Whence -> Nat
  | .set => 0
  | .cur => file.position
  | .fromEnd => file.content.length

/-- `ChangeFilePosition`; `none` is `CHANGE_FILE_ERROR`, the answer to a
position outside the file. -/
def changePosition (file : DosFile) (offset : Int) (mode : Whence) : Option DosFile :=
  let position := file.base mode + offset
  if inside : 0 <= position /\ position <= file.content.length then
    some { file with position := position.toNat, within := by omega }
  else none

end DosFile

/-! ## The hook -/

/-- What `fam_Error` is set to: a code of its own, or a translated one. -/
inductive FdError
  | EPERM
  | io (code : Nat)
  deriving DecidableEq, Repr

def errorSeekError : FdError := .io 219

def errorNoFreeStore : FdError := .io 103

/-- A descriptor of a file: the handle, `fd_Position`, and the flags
`FDF_WRITE`, `FDF_APPEND` and `FDF_CACHE_POSITION`. -/
structure Fd where
  file : DosFile
  position : Int
  writable : Bool
  append : Bool
  cachePosition : Bool

/-- What does not change while the file is open: `__unix_path_semantics`, and
`id_BytesPerBlock` of its volume, eight times which is an `int`. -/
structure Volume where
  unixPathSemantics : Bool
  bytesPerBlock : Nat
  small : bytesPerBlock < 2 ^ 28

def Volume.blockSize (vol : Volume) : Nat := max vol.bytesPerBlock 512

/-- The loop of `__grow_file_size`, which writes at least one byte a round. -/
def growLoop (bufferSize : Nat) : Nat -> Nat -> Nat -> DosFile -> DosFile
  | 0, _, _, file => file
  | fuel + 1, numBytes, alignmentSkip, file =>
    if numBytes = 0 then file
    else
      let size := min bufferSize numBytes
      let size := if 0 < alignmentSkip /\ alignmentSkip < size then alignmentSkip else size
      growLoop bufferSize fuel (numBytes - size) 0 (file.write (List.replicate size 0))

/-- The outcomes of `__grow_file_size`; a buffer of a negative size that could
be allocated is cleared far beyond its end. -/
inductive Growth
  | undefined
  | failed
  | grown (file : DosFile)

def growFileSize (vol : Volume) (allocated : Bool) (numBytes : Int) (file : DosFile) : Growth :=
  let bufferSize := min (8 * vol.blockSize : Int) numBytes
  if !allocated then .failed
  else if bufferSize < 0 then .undefined
  else
    let file := file.toEnd
    let alignmentSkip :=
      if vol.blockSize < numBytes /\ file.position % vol.blockSize ≠ 0 then
        vol.blockSize - file.position % vol.blockSize
      else 0
    .grown (growLoop bufferSize.toNat numBytes.toNat numBytes.toNat alignmentSkip file)

namespace Fd

def read (size : Nat) (fd : Fd) : List UInt8 × Fd :=
  let (bytes, file) := fd.file.read size
  (bytes, { fd with file := file, position := fd.position + bytes.length })

/-- The part of `file_action_write` before the data is written. -/
def seekToAppend (fd : Fd) : Fd :=
  if fd.append then
    let file := fd.file.toEnd
    { fd with file := file, position := if fd.cachePosition then file.position else fd.position }
  else fd

def write (data : List UInt8) (fd : Fd) : Fd :=
  let fd := fd.seekToAppend
  { fd with file := fd.file.write data, position := fd.position + data.length }

/-- `current_position` of `file_action_seek`. -/
def currentPosition (fd : Fd) : Int :=
  if fd.cachePosition then fd.position else fd.file.position

/-- `new_position` of `file_action_seek`, before anything is done about it. -/
def newPosition (offset : Int) (mode : Whence) (fd : Fd) : Int :=
  match mode with
  | .cur => toOff64 (fd.currentPosition + offset)
  | .set => offset
  | .fromEnd => toOff64 (fd.file.content.length + offset)

def gapTo (position : Int) (fd : Fd) : Int := position - fd.file.content.length

/-- `file_action_seek` behind a `CHANGE_FILE_ERROR`: the file may be too short
for `newPosition`. -/
def seekBehindEnd (vol : Volume) (newPosition : Int) (allocated : Bool) (fd : Fd) :
    Option (Except FdError Int × Fd) :=
  if !vol.unixPathSemantics then some (.error errorSeekError, fd)
  else if newPosition <= fd.file.content.length then some (.error errorSeekError, fd)
  else if !fd.writable then some (.error .EPERM, fd)
  else
    -- The gap is passed as an `int`.
    match growFileSize vol allocated (toLong (fd.gapTo newPosition)) fd.file with
    | .undefined => none
    | .failed => some (.error errorNoFreeStore, fd)
    | .grown file => some (.ok newPosition, { fd with file := file, position := newPosition })

/-- `file_action_seek`: the position or `fam_Error`, and the descriptor;
`none` where the behaviour is undefined.  `allocated` tells whether memory for
zero bytes is there if it is needed. -/
def seek (vol : Volume) (offset : Int) (mode : Whence) (allocated : Bool) (fd : Fd) :
    Option (Except FdError Int × Fd) :=
  let newPosition := fd.newPosition offset mode
  if newPosition < 0 then
    some (.ok 0, { fd with file := fd.file.toStart, position := 0 })
  else if newPosition = fd.currentPosition then some (.ok newPosition, fd)
  else
    match fd.file.changePosition offset mode with
    | some file => some (.ok file.position, { fd with file := file, position := file.position })
    | none => fd.seekBehindEnd vol newPosition allocated

end Fd

/-- A call that ends in the hook; an offset is an `off64_t`. -/
inductive FdCall
  | read (size : Nat)
  | write (data : List UInt8)
  | seek (offset : Int) (mode : Whence) (allocated : Bool)

namespace Fd

def step (vol : Volume) (fd : Fd) : FdCall -> Option Fd
  | .read size => some (fd.read size).2
  | .write data => some (fd.write data)
  | .seek offset mode allocated =>
    (fd.seek vol (toOff64 offset) mode allocated).map Prod.snd

/-- `fd_Position` is the position of the handle. -/
def Coherent (fd : Fd) : Prop := fd.position = fd.file.position

instance (fd : Fd) : Decidable fd.Coherent := by
  unfold Coherent
  infer_instance

/--
What keeps `fd_Position` at the position of the handle.  Reading and writing
move both alike.  Appending looks the position up only with
`FDF_CACHE_POSITION`.  A seek that moves the handle looks it up afterwards, and
one that makes the file larger has to do so by an `int`.
-/
def Keeps (vol : Volume) (fd : Fd) : FdCall -> Prop
  | .read _ => fd.Coherent
  | .write _ =>
    if fd.append then fd.cachePosition \/ fd.position = fd.file.content.length
    else fd.Coherent
  | .seek offset mode allocated =>
    let offset := toOff64 offset
    let newPosition := fd.newPosition offset mode
    if newPosition < 0 then True
    else if newPosition = fd.currentPosition then fd.Coherent
    else if (fd.file.changePosition offset mode).isSome then True
    else if vol.unixPathSemantics /\ fd.file.content.length < newPosition /\
        fd.writable /\ allocated then fd.gapTo newPosition < 2 ^ 31
    else fd.Coherent

instance (vol : Volume) (fd : Fd) (call : FdCall) : Decidable (fd.Keeps vol call) := by
  cases call
  all_goals
    unfold Keeps
    infer_instance

/-- A write behind a seek past the end: zeros up to the position sought, and
the data. -/
def FillsGap (vol : Volume) (fd : Fd) : FdCall -> List FdCall -> Prop
  | .seek offset mode allocated, .write data :: _ =>
    ∀ position next, fd.seek vol (toOff64 offset) mode allocated =
        some (.ok position, next) -> fd.file.content.length < position ->
      (next.write data).file.content =
        fd.file.content ++ List.replicate (fd.gapTo position).toNat 0 ++ data
  | _, _ => True

/-- Along a run: every call is defined and leaves `fd_Position` at the position
of the handle, and gaps are filled. -/
def Correct (vol : Volume) : Fd -> List FdCall -> Prop
  | _, [] => True
  | fd, call :: calls =>
    fd.FillsGap vol call calls /\
    ∃ next, fd.step vol call = some next /\ next.Coherent /\ Correct vol next calls

/-- A descriptor as `open` leaves it: nothing was looked up yet, and the handle
was moved to the end if the file is to be appended to. -/
structure Opened (fd : Fd) : Prop where
  position : fd.position = 0
  handle : fd.file.position = if fd.append then fd.file.content.length else 0

end Fd

/-! ## Growing -/

namespace DosFile

variable (file : DosFile)

theorem write_nil : file.write [] = file :=
  DosFile.ext rfl rfl

theorem write_write (first second : List UInt8) :
    (file.write first).write second = file.write (first ++ second) := by
  apply DosFile.ext
  · exact overwrite_append _ _ _ _
  · simp only [write, length_append, Nat.add_assoc]

theorem content_write_toEnd (data : List UInt8) :
    (file.toEnd.write data).content = file.content ++ data := by
  by_cases empty : data = []
  · rw [empty, append_nil]
    rfl
  · simp [write, toEnd, overwrite, empty]

theorem toEnd_eq {file : DosFile} (ends : file.position = file.content.length) :
    file.toEnd = file :=
  DosFile.ext rfl ends.symm

end DosFile

theorem growLoop_eq {bufferSize : Nat} (pos : 0 < bufferSize) (fuel numBytes skip : Nat)
    (enough : numBytes <= fuel) (file : DosFile) :
    growLoop bufferSize fuel numBytes skip file = file.write (List.replicate numBytes 0) := by
  induction fuel generalizing numBytes skip file with
  | zero =>
    have none : numBytes = 0 := by omega
    rw [growLoop, none, replicate_zero, DosFile.write_nil]
  | succ fuel ih =>
    rw [growLoop]
    by_cases none : numBytes = 0
    · rw [if_pos none, none, replicate_zero, DosFile.write_nil]
    · rw [if_neg none]
      dsimp only
      generalize shown : (if 0 < skip /\ skip < min bufferSize numBytes then skip
        else min bufferSize numBytes) = size
      have bounds : 0 < size /\ size <= numBytes := by
        rw [<- shown]
        split <;> omega
      have total : size + (numBytes - size) = numBytes := by omega
      rw [ih (numBytes - size) 0 (by omega), DosFile.write_write, <- replicate_add, total]

theorem growFileSize_eq {vol : Volume} {numBytes : Int} {file : DosFile} :
    growFileSize vol true numBytes file =
      if numBytes < 0 then .undefined
      else .grown (file.toEnd.write (List.replicate numBytes.toNat 0)) := by
  have block : 0 < vol.blockSize := lt_of_lt_of_le (by decide) (le_max_right _ _)
  unfold growFileSize
  dsimp only
  rw [Bool.not_true, if_neg Bool.false_ne_true]
  by_cases negative : numBytes < 0
  · rw [if_pos negative, if_pos (by omega)]
  · rw [if_neg negative, if_neg (by omega)]
    rcases Nat.eq_zero_or_pos numBytes.toNat with none | some
    · rw [none, growLoop, replicate_zero, DosFile.write_nil]
    · rw [growLoop_eq (by omega) _ _ _ (le_refl _)]

theorem toLong_eq_self_iff {gap : Int} (pos : 0 < gap) : toLong gap = gap <-> gap < 2 ^ 31 := by
  constructor
  · intro same
    have upper := toLong_le_longMax gap
    unfold longMax at upper
    omega
  · intro small
    exact toLong_of_fits (by unfold longMin; omega) (by unfold longMax; omega)

namespace Fd

/-! ## One call -/

theorem coherent_write_iff (vol : Volume) (data : List UInt8) (fd : Fd) :
    (fd.write data).Coherent <-> fd.Keeps vol (.write data) := by
  unfold Coherent Keeps write seekToAppend
  cases fd.append with
  | false =>
    simp only [DosFile.write, Bool.false_eq_true, if_false]
    unfold Coherent
    omega
  | true =>
    cases fd.cachePosition with
    | false =>
      simp only [DosFile.write, DosFile.toEnd, Bool.false_eq_true, if_true, if_false, false_or]
      omega
    | true => simp [DosFile.write, DosFile.toEnd]

/-- A seek that makes the file larger: its length is the position sought, and `fd_Position` is right, exactly when the gap is an `int`. -/
theorem grown_iff {vol : Volume} {fd : Fd} {position : Int}
    (behind : fd.file.content.length < position) :
    (∃ file, growFileSize vol true (toLong (fd.gapTo position)) fd.file = .grown file /\
      position = file.position) <-> fd.gapTo position < 2 ^ 31 := by
  have pos : 0 < fd.gapTo position := by
    unfold gapTo
    omega
  rw [growFileSize_eq, <- toLong_eq_self_iff pos]
  constructor
  · rintro ⟨file, grown, same⟩
    split at grown
    · cases grown
    · cases grown
      simp only [DosFile.write, DosFile.toEnd, length_replicate] at same
      unfold gapTo at *
      omega
  · intro fits
    rw [if_neg (by omega)]
    refine ⟨_, rfl, ?_⟩
    simp only [DosFile.write, DosFile.toEnd, length_replicate]
    unfold gapTo at *
    omega

theorem coherent_seekBehindEnd_iff (vol : Volume) (newPosition : Int) (allocated : Bool)
    (fd : Fd) :
    (∃ next, (fd.seekBehindEnd vol newPosition allocated).map Prod.snd = some next /\
      next.Coherent) <->
    if vol.unixPathSemantics /\ fd.file.content.length < newPosition /\
      fd.writable /\ allocated then fd.gapTo newPosition < 2 ^ 31
    else fd.Coherent := by
  have unchanged : ∀ code : FdError, (∃ next,
      (some ((.error code, fd) : Except FdError Int × Fd)).map Prod.snd = some next /\ next.Coherent) <->
      fd.Coherent := by
    intro code
    simp only [Option.map_some, Option.some.injEq, exists_eq_left']
  unfold seekBehindEnd
  by_cases unix : vol.unixPathSemantics
  · by_cases behind : fd.file.content.length < newPosition
    · by_cases writable : fd.writable
      · rw [if_neg (by simp [unix]), if_neg (by omega), if_neg (by simp [writable])]
        cases allocated with
        | false =>
          rw [if_neg (by simp)]
          exact unchanged _
        | true =>
          rw [if_pos ⟨unix, behind, writable, rfl⟩, <- grown_iff behind, growFileSize_eq]
          split_ifs
          · simp
          · simp [Coherent]
      · rw [if_neg (by simp [unix]), if_neg (by omega), if_pos (by simp [writable]),
          if_neg (fun all => writable all.2.2.1)]
        exact unchanged _
    · rw [if_neg (by simp [unix]), if_pos (by omega), if_neg (fun all => behind all.2.1)]
      exact unchanged _
  · rw [if_pos (by simp [unix]), if_neg (fun all => unix all.1)]
    exact unchanged _

/-- The step lemma: what a call leaves behind is known from what it finds. -/
theorem coherent_step_iff {vol : Volume} {fd : Fd} {call : FdCall} :
    (∃ next, fd.step vol call = some next /\ next.Coherent) <-> fd.Keeps vol call := by
  cases call with
  | read size =>
    simp only [step, Option.some.injEq, exists_eq_left', Keeps, Coherent, read, DosFile.read]
    omega
  | write data =>
    simp only [step, Option.some.injEq, exists_eq_left']
    exact fd.coherent_write_iff vol data
  | seek offset mode allocated =>
    unfold step Keeps seek
    dsimp only
    generalize toOff64 offset = offset
    by_cases negative : fd.newPosition offset mode < 0
    · rw [if_pos negative, if_pos negative]
      exact iff_of_true ⟨_, rfl, rfl⟩ trivial
    rw [if_neg negative, if_neg negative]
    by_cases stays : fd.newPosition offset mode = fd.currentPosition
    · rw [if_pos stays, if_pos stays]
      simp
    rw [if_neg stays, if_neg stays]
    rcases moved : fd.file.changePosition offset mode with _ | file
    · exact fd.coherent_seekBehindEnd_iff vol _ allocated
    · exact iff_of_true ⟨_, rfl, rfl⟩ trivial

/-! ## Runs -/

variable {fd : Fd}

theorem Opened.position_le (opened : Opened fd) : fd.position <= fd.file.content.length := by
  rw [opened.position]
  omega

theorem Coherent.position_le (coherent : fd.Coherent) : fd.position <= fd.file.content.length := by
  have := fd.file.within
  unfold Coherent at coherent
  omega

variable {vol : Volume} {mode : Whence} {offset : Int} {allocated : Bool}

theorem seekBehindEnd_ok {newPosition position : Int} {fd next : Fd}
    (done : fd.seekBehindEnd vol newPosition allocated = some (.ok position, next)) :
    position = newPosition /\ ∃ numBytes : Nat,
      next = { fd with file := fd.file.toEnd.write (List.replicate numBytes 0)
                       position := newPosition } := by
  unfold seekBehindEnd at done
  split_ifs at done
  · cases done
  · cases done
  · cases done
  · cases allocated with
    | false => cases done
    | true =>
      rw [growFileSize_eq] at done
      split_ifs at done
      cases done
      exact ⟨rfl, _, rfl⟩

theorem seek_behind_end {fd next : Fd} {position : Int}
    (start : fd.position <= fd.file.content.length)
    (done : fd.seek vol offset mode allocated = some (.ok position, next))
    (behind : fd.file.content.length < position) :
    ∃ numBytes : Nat, next = { fd with
      file := fd.file.toEnd.write (List.replicate numBytes 0), position := position } := by
  have within := fd.file.within
  have current : fd.currentPosition <= fd.file.content.length := by
    unfold currentPosition
    split <;> omega
  unfold seek at done
  dsimp only at done
  split_ifs at done
  · cases done
    omega
  · cases done
    omega
  · split at done
    · rename_i file moved
      cases done
      have inside := file.within
      unfold DosFile.changePosition at moved
      dsimp only at moved
      split_ifs at moved
      cases moved
      dsimp only at behind inside
      omega
    · obtain ⟨rfl, grown⟩ := seekBehindEnd_ok done
      exact grown

theorem content_write_of_end (ends : fd.file.position = fd.file.content.length)
    {data : List UInt8} : (fd.write data).file.content = fd.file.content ++ data := by
  have appended := fd.file.content_write_toEnd data
  rw [DosFile.toEnd_eq ends] at appended
  unfold write seekToAppend
  split
  · rw [DosFile.toEnd_eq ends]
    exact appended
  · exact appended

theorem fillsGap_of_keeps (start : fd.position <= fd.file.content.length) {call : FdCall}
    (keeps : fd.Keeps vol call) {calls : List FdCall} : fd.FillsGap vol call calls := by
  obtain ⟨next, stepped, coherent⟩ := (coherent_step_iff).mpr keeps
  unfold FillsGap
  split
  · rename_i offset mode allocated data rest
    intro position after done behind
    have same : after = next := by
      rw [step, done] at stepped
      exact Option.some.inj stepped
    obtain ⟨numBytes, grown⟩ := seek_behind_end start done behind
    subst same grown
    have bytes : (fd.gapTo position).toNat = numBytes := by
      simp only [Coherent, DosFile.write, DosFile.toEnd, length_replicate] at coherent
      unfold gapTo
      omega
    have ends : (fd.file.toEnd.write (List.replicate numBytes 0)).position =
        (fd.file.toEnd.write (List.replicate numBytes 0)).content.length := by
      rw [DosFile.content_write_toEnd, length_append]
      rfl
    rw [content_write_of_end ends, DosFile.content_write_toEnd, bytes]
  · trivial

/--
From the opening of a file on, `fd_Position` is the position of the handle after
every call of a run, and gaps are filled, exactly when every call of the run
finds what it needs.
-/
theorem fd_position_correct_iff (vol : Volume) (fd : Fd) (opened : Opened fd)
    (calls : List FdCall) :
    Correct vol fd calls <-> AllowedRun (step vol) (Keeps vol) fd calls := by
  have key : ∀ calls (fd : Fd), fd.position <= fd.file.content.length ->
      (Correct vol fd calls <-> AllowedRun (step vol) (Keeps vol) fd calls) := by
    intro calls
    induction calls with
    | nil => exact fun fd _ => Iff.rfl
    | cons call calls ih =>
      intro fd start
      constructor
      · rintro ⟨-, next, stepped, coherent, correct⟩
        refine ⟨(coherent_step_iff).mp ⟨next, stepped, coherent⟩, ?_⟩
        intro other again
        cases stepped.symm.trans again
        exact (ih next coherent.position_le).mp correct
      · rintro ⟨keeps, rest⟩
        obtain ⟨next, stepped, coherent⟩ := (coherent_step_iff).mpr keeps
        exact ⟨fillsGap_of_keeps start keeps, next, stepped, coherent,
          (ih next coherent.position_le).mpr (rest next stepped)⟩
  exact key calls fd opened.position_le

/-! ## The plain byte file -/

/-- What the streams see of the descriptor: a byte array that grows when a seek
leaves it. -/
def plainFile (fd : Fd) : ByteFile := ⟨fd.file.content, fd.file.position, true⟩

theorem read_plainFile {size : Nat} {fd : Fd} :
    ((fd.read size).1, (fd.read size).2.plainFile) = fd.plainFile.read size :=
  rfl

theorem write_plainFile (notAppending : fd.append = false) {data : List UInt8} :
    (fd.write data).plainFile = fd.plainFile.write data := by
  have same : fd.seekToAppend = fd := if_neg (by simp [notAppending])
  rw [write, same]
  rfl

theorem target_plainFile {fd : Fd} :
    fd.plainFile.target offset mode.origin = fd.file.base mode + offset := by
  cases mode with
  | set => exact (Int.zero_add offset).symm
  | cur | fromEnd => rfl

/-- Under Unix path semantics a seek is that of the plain file, as long as the
position sought is an `off64_t` and the gap to it an `int`. -/
theorem seek_plainFile (unix : vol.unixPathSemantics) (coherent : fd.Coherent)
    (writable : fd.writable)
    (sought : fd.newPosition offset mode = fd.file.base mode + offset)
    (small : fd.gapTo (fd.newPosition offset mode) < 2 ^ 31) :
    ∃ position next, fd.seek vol offset mode true = some (.ok position, next) /\
      next.plainFile = fd.plainFile.seek offset mode.origin := by
  have current : fd.currentPosition = fd.file.position := by
    unfold currentPosition
    rw [coherent, ite_self]
  have moved : fd.plainFile.seek offset mode.origin =
      fd.plainFile.moveTo (fd.newPosition offset mode) := by
    rw [ByteFile.seek, target_plainFile, sought]
  rw [moved]
  unfold seek
  by_cases negative : fd.newPosition offset mode < 0
  · have start : (fd.newPosition offset mode).toNat = 0 := by omega
    rw [if_pos negative, ByteFile.moveTo_of_le _ _ (by rw [start]; exact Nat.zero_le _), start]
    exact ⟨_, _, rfl, rfl⟩
  rw [if_neg negative]
  by_cases stays : fd.newPosition offset mode = fd.currentPosition
  · rw [if_pos stays, stays, current]
    exact ⟨_, fd, rfl, (ByteFile.moveTo_self fd.plainFile).symm⟩
  rw [if_neg stays]
  by_cases inside : fd.newPosition offset mode <= fd.file.content.length
  · rw [DosFile.changePosition, dif_pos ⟨by omega, by omega⟩,
      ByteFile.moveTo_of_le _ _ (by show _ <= fd.file.content.length; omega), sought]
    exact ⟨_, _, rfl, rfl⟩
  · have behind : fd.file.content.length < fd.newPosition offset mode := by omega
    have fits := (toLong_eq_self_iff (by unfold gapTo; omega)).mpr small
    have nonneg : ¬ fd.gapTo (fd.newPosition offset mode) < 0 := by
      unfold gapTo
      omega
    rw [DosFile.changePosition, dif_neg (by omega)]
    rw [seekBehindEnd, if_neg (by simp [unix]), if_neg inside, if_neg (by simp [writable]),
      growFileSize_eq, fits, if_neg nonneg]
    refine ⟨_, _, rfl, ?_⟩
    have other : ¬ fd.newPosition offset mode = fd.plainFile.position := current ▸ stays
    have bytes : (fd.newPosition offset mode).toNat - fd.file.content.length =
        (fd.gapTo (fd.newPosition offset mode)).toNat := by
      unfold gapTo
      omega
    have place : fd.file.content.length + (fd.gapTo (fd.newPosition offset mode)).toNat =
        (fd.newPosition offset mode).toNat := by
      omega
    rw [ByteFile.moveTo, if_neg other]
    simp only [plainFile, if_true, extend, bytes, DosFile.content_write_toEnd, ByteFile.mk.injEq,
      and_true, true_and]
    simp only [DosFile.write, DosFile.toEnd, length_replicate, place]

/-! ## Runs on the plain file -/

def plainCall (file : ByteFile) : FdCall -> ByteFile
  | .read size => (file.read size).2
  | .write data => file.write data
  | .seek offset mode _ => file.seek offset mode.origin

/-- A seek leads to an `off64_t`, and a gap is an `int` that there is memory for. -/
def Bounded (file : ByteFile) : FdCall -> Prop
  | .seek offset mode allocated =>
    let target := file.target offset mode.origin
    allocated /\ toOff64 offset = offset /\ toOff64 target = target /\
      target < file.content.length + 2 ^ 31
  | _ => True

/-- Open for reading and writing, not for appending, with the right `fd_Position`. -/
structure Settled (fd : Fd) : Prop where
  coherent : fd.Coherent
  writable : fd.writable
  notAppending : fd.append = false

theorem step_mode {call : FdCall} {next : Fd} (stepped : fd.step vol call = some next) :
    next.writable = fd.writable /\ next.append = fd.append := by
  cases call with
  | read size =>
    cases stepped
    exact ⟨rfl, rfl⟩
  | write data =>
    cases stepped
    unfold write seekToAppend
    split <;> exact ⟨rfl, rfl⟩
  | seek offset mode allocated =>
    rcases Option.map_eq_some_iff.mp stepped with ⟨_, done, rfl⟩
    unfold seek seekBehindEnd at done
    dsimp only at done
    repeat' split at done
    all_goals cases done
    all_goals exact ⟨rfl, rfl⟩

theorem Settled.newPosition_eq (settled : fd.Settled)
    (fits : toOff64 (fd.file.base mode + offset) = fd.file.base mode + offset) :
    fd.newPosition offset mode = fd.file.base mode + offset := by
  have current : fd.currentPosition = fd.file.position := by
    unfold currentPosition
    rw [settled.coherent, ite_self]
  cases mode with
  | set => exact (Int.zero_add offset).symm
  | cur => exact (congrArg (fun position => toOff64 (position + offset)) current).trans fits
  | fromEnd => exact fits

theorem Settled.gapTo_lt (settled : fd.Settled)
    (bounded : Bounded fd.plainFile (.seek offset mode allocated)) :
    fd.newPosition offset mode = fd.file.base mode + offset /\
      fd.gapTo (fd.newPosition offset mode) < 2 ^ 31 := by
  rcases bounded with ⟨_, _, fits, near⟩
  rw [target_plainFile] at fits near
  have sought := settled.newPosition_eq fits
  exact ⟨sought, sought ▸ Int.sub_left_lt_of_lt_add near⟩

theorem Settled.keeps (settled : fd.Settled) {call : FdCall}
    (bounded : Bounded fd.plainFile call) : fd.Keeps vol call := by
  cases call with
  | read size => exact settled.coherent
  | write data =>
    rw [Keeps, if_neg (by simp [settled.notAppending])]
    exact settled.coherent
  | seek offset mode allocated =>
    rw [Keeps, bounded.2.1]
    split_ifs
    · exact settled.coherent
    · exact (settled.gapTo_lt bounded).2
    · exact settled.coherent

theorem Settled.step (settled : fd.Settled) (unix : vol.unixPathSemantics)
    {call : FdCall} (bounded : Bounded fd.plainFile call) :
    ∃ next, fd.step vol call = some next /\
      next.plainFile = plainCall fd.plainFile call /\ next.Settled := by
  rcases coherent_step_iff.mpr (settled.keeps bounded) with ⟨next, stepped, coherent⟩
  rcases step_mode stepped with ⟨writable, append⟩
  refine ⟨next, stepped, ?_, coherent, writable.trans settled.writable,
    append.trans settled.notAppending⟩
  cases call with
  | read size =>
    cases stepped
    exact congrArg Prod.snd read_plainFile
  | write data =>
    cases stepped
    exact write_plainFile settled.notAppending
  | seek offset mode allocated =>
    rcases settled.gapTo_lt bounded with ⟨sought, small⟩
    rcases bounded with ⟨rfl, isOff64, _⟩
    rcases seek_plainFile unix settled.coherent settled.writable sought small with
      ⟨_, _, done, plain⟩
    rw [Fd.step, isOff64, done] at stepped
    cases stepped
    exact plain

/-- Whatever is read, written and sought, the descriptor acts as the plain file does,
and `fd_Position` stays right. -/
theorem descriptor_refines_plainFile (vol : Volume) (unix : vol.unixPathSemantics)
    (fd : Fd) (settled : fd.Settled) (calls : List FdCall)
    (bounded : AllowedRun (fun file call => some (plainCall file call)) Bounded fd.plainFile calls) :
    ∃ final, run (step vol) fd calls = some final /\
      final.plainFile = calls.foldl plainCall fd.plainFile /\ final.Settled := by
  induction calls generalizing fd with
  | nil => exact ⟨fd, rfl, rfl, settled⟩
  | cons call calls ih =>
    rcases settled.step unix bounded.1 with ⟨next, stepped, plain, nextSettled⟩
    rcases ih next nextSettled (plain ▸ bounded.2 _ rfl) with
      ⟨final, ran, same, finalSettled⟩
    refine ⟨final, ?_, ?_, finalSettled⟩
    · rw [run, stepped]
      exact ran
    · rw [foldl_cons, same, plain]

end Fd

def sampleVolume : Volume where
  unixPathSemantics := true
  bytesPerBlock := 512
  small := by decide

def sampleFd (append : Bool) : Fd where
  file := ⟨[65], if append then 1 else 0, by cases append <;> decide⟩
  position := 0
  writable := true
  append := append
  cachePosition := true

/-- Seek three bytes behind the end, write, and read on. -/
theorem fd_position_correct_small_gap :
    Fd.Correct sampleVolume (sampleFd false) [.seek 4 .set true, .write [66], .read 1] := by
  refine (Fd.fd_position_correct_iff sampleVolume (sampleFd false) ⟨rfl, rfl⟩ _).mpr
    ⟨by decide, ?_⟩
  intro next stepped
  cases stepped
  refine ⟨by decide, ?_⟩
  intro next stepped
  cases stepped
  exact ⟨by decide, fun _ _ => trivial⟩

/-- The same calls. -/
theorem descriptor_refines_plainFile_small_gap : ∃ final,
    run (Fd.step sampleVolume) (sampleFd false) [.seek 4 .set true, .write [66], .read 1] =
      some final /\ final.plainFile.content = [65, 0, 0, 0, 66] := by
  rcases Fd.descriptor_refines_plainFile sampleVolume rfl (sampleFd false)
    ⟨rfl, rfl, rfl⟩ [.seek 4 .set true, .write [66], .read 1]
    ⟨⟨rfl, by decide, by decide, by decide⟩,
      fun _ _ => ⟨trivial, fun _ _ => ⟨trivial, fun _ _ => trivial⟩⟩⟩ with ⟨final, ran, plain, _⟩
  exact ⟨final, ran, by rw [plain]; rfl⟩

/-- A seek by 4 GiB behind the end succeeds, leaves the handle at the end of the
unchanged file, and `fd_Position` elsewhere; and a file that was opened for
appending starts out with the wrong `fd_Position`. -/
theorem fd_position_incorrect_large_gap :
    (∃ next, (sampleFd false).step sampleVolume (.seek (2 ^ 32 + 1) .set true) = some next /\
      next.position = 2 ^ 32 + 1 /\ next.file.position = 1 /\ (next.write [66]).file.content = [65, 66]) /\
    ¬ Fd.Correct sampleVolume (sampleFd false) [.seek (2 ^ 32 + 1) .set true] /\
    ¬ Fd.Correct sampleVolume (sampleFd true) [.read 1] := by
  refine ⟨⟨_, rfl, by decide, by decide, by decide⟩, ?_, ?_⟩
  all_goals
    rintro ⟨-, next, stepped, coherent, -⟩
    cases stepped
    exact absurd coherent (by decide)

end Clib4.Stdio
