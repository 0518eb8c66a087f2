import Clib4.Foundation.MachineInt
import Clib4.Foundation.Run

namespace Clib4.Posix

open Foundation

/-!
# `semop`

`sysv_semop.c` works on a set of semaphores under the lock of the set.  A pass of
it first checks every operation against the values as they stand and, if none of
them has to wait, performs them all.  A call that has to wait leaves its mark in a
counter, is suspended and begins anew.

`perform` says what the operations mean one after another.  A `System` is a set
with the calls that are suspended on it; since a waiting call may find anything
when it goes on, any of them may go on at any time.
-/

/-! ## `sysv_semop.c` -/

/-- `struct sem`, without the lists of those who wait. -/
structure Sem where
  semval : Int
  sempid : Nat
  semncnt : Int
  semzcnt : Int
deriving DecidableEq, Repr

/-- `struct sembuf`, with the flags `IPC_NOWAIT` and `SEM_UNDO`. -/
structure SemBuf where
  semNum : Nat
  semOp : Int
  nowait : Bool
  undo : Bool
deriving DecidableEq, Repr

/-- A set: `sem_base`, which has `sem_nsems` entries, and the undo values of each process. -/
structure SemSet where
  sems : List Sem
  adj : Nat -> List Int

inductive Errno
  | EFBIG
  | EAGAIN
deriving DecidableEq, Repr

/-- How a pass ends early; `outside` is an access beyond the entries of the set. -/
inductive Halt
  | failed (errno : Errno)
  | waiting (zero : Bool) (n : Nat)
  | outside
deriving DecidableEq, Repr

/-- What a pass comes to. -/
inductive Outcome
  | done
  | halted (halt : Halt)
deriving DecidableEq, Repr

namespace SemSet

def values (set : SemSet) : List Int := set.sems.map Sem.semval

/-- Change the counter of those who wait for zero, or for more. -/
def recount (set : SemSet) (zero : Bool) (n : Nat) (change : Int) : SemSet :=
  { set with
    sems := set.sems.modify n fun sem =>
      if zero then { sem with semzcnt := unsigned 16 (sem.semzcnt + change) }
      else { sem with semncnt := unsigned 16 (sem.semncnt + change) } }

end SemSet

def Blocked (op : SemBuf) (value : Int) : Prop :=
  op.semOp < 0 /\ value < -op.semOp \/ op.semOp = 0 /\ 0 < value

instance (op : SemBuf) (value : Int) : Decidable (Blocked op value) :=
  inferInstanceAs (Decidable (_ \/ _))

def stopAt (op : SemBuf) : Halt :=
  if op.nowait then .failed .EAGAIN else .waiting (op.semOp == 0) op.semNum

/-- The loop that checks the operations; `none` when all of them may go on. -/
def check (values : List Int) : List SemBuf -> Option Halt
  | [] => none
  | op :: ops =>
    -- the comparison lets the number of the semaphores through
    if values.length < op.semNum then some (.failed .EFBIG)
    else if 0 < op.semOp then check values ops
    else
      match values[op.semNum]? with
      | none => some .outside
      | some value => if Blocked op value then some (stopAt op) else check values ops

def applyOp (pid : Nat) (set : SemSet) (op : SemBuf) : Option SemSet :=
  match set.sems[op.semNum]? with
  | none => none
  | some sem =>
    some
      { sems := set.sems.set op.semNum
          { sem with semval := signed 32 (sem.semval + op.semOp), sempid := pid }
        adj := fun process =>
          if process = pid /\ op.undo then
            (set.adj process).modify op.semNum fun value => signed 32 (value - op.semOp)
          else set.adj process }

/-- The loop that performs the operations; `none` after an access outside of the set. -/
def applyOps (pid : Nat) : SemSet -> List SemBuf -> Option SemSet
  | set, [] => some set
  | set, op :: ops => (applyOp pid set op).bind fun next => applyOps pid next ops

def passFrom (pid : Nat) (ops : List SemBuf) (set : SemSet) : Outcome × SemSet :=
  match check set.values ops with
  | some (.waiting zero n) => (.halted (.waiting zero n), set.recount zero n 1)
  | some halt => (.halted halt, set)
  | none =>
    match applyOps pid set ops with
    | none => (.halted .outside, set)
    | some set => (.done, set)

/-- A pass of `_semop`; `waited` is what the pass before it was waiting for. -/
def semopPass (pid : Nat) (ops : List SemBuf) (waited : Option (Bool × Nat)) (set : SemSet) :
    Outcome × SemSet :=
  match waited with
  | none => passFrom pid ops set
  | some (zero, n) =>
    if n < set.sems.length then passFrom pid ops (set.recount zero n (-1))
    else (.halted .outside, set)

/-! ## One operation after another -/

/-- Perform an operation if its semaphore exists and the value allows it. -/
def performOne (values : List Int) (op : SemBuf) : Option (List Int) :=
  match values[op.semNum]? with
  | none => none
  | some value =>
    if Blocked op value then none else some (values.set op.semNum (value + op.semOp))

def perform : List Int -> List SemBuf -> Option (List Int)
  | values, [] => some values
  | values, op :: ops => (performOne values op).bind fun next => perform next ops

/-- A pass has performed all operations in turn, or has changed no value. -/
def Atomic (set : SemSet) (ops : List SemBuf) (result : Outcome × SemSet) : Prop :=
  match result.1 with
  | .done => perform set.values ops = some result.2.values
  | .halted .outside => False
  | .halted _ => result.2.values = set.values

/--
Some operation cannot be performed on the values as they stand or has a number
that is out of bounds, and the ones before it do not read past the end.
-/
def Stops (values : List Int) : List SemBuf -> Prop
  | [] => False
  | op :: ops =>
    values.length < op.semNum \/
      (∃ value, values[op.semNum]? = some value /\ Blocked op value) \/
      (op.semNum < values.length \/ 0 < op.semOp) /\ Stops values ops

/-- The operations can be performed in turn, and their results are held by 32 bits. -/
def Performable (values : List Int) (ops : List SemBuf) : Prop :=
  ∃ result, perform values ops = some result /\ ∀ value ∈ result, value < 2 ^ 31

/-- The values of a set whose semaphores have not been spoilt. -/
def InRange (values : List Int) : Prop := ∀ value ∈ values, 0 <= value /\ value < 2 ^ 31

instance (values : List Int) : Decidable (InRange values) :=
  inferInstanceAs (Decidable (∀ value ∈ values, 0 <= value /\ value < 2 ^ 31))

/-! ## The check -/

theorem stopAt_ne_outside {op : SemBuf} : stopAt op ≠ .outside := by
  unfold stopAt
  split_ifs <;> simp

theorem check_stops_iff (values : List Int) (ops : List SemBuf) :
    (∃ halt, check values ops = some halt /\ halt ≠ .outside) <-> Stops values ops := by
  induction ops with
  | nil =>
    refine iff_of_false ?_ id
    rintro ⟨halt, stopped, _⟩
    cases stopped
  | cons op ops ih =>
    unfold check Stops
    by_cases past : values.length < op.semNum
    · rw [if_pos past]
      exact iff_of_true ⟨_, rfl, by simp⟩ (Or.inl past)
    rw [if_neg past]
    by_cases pos : 0 < op.semOp
    · have free : ¬ ∃ value, values[op.semNum]? = some value /\ Blocked op value := by
        rintro ⟨value, _, less | none⟩
        all_goals omega
      rw [if_pos pos, ih]
      simp only [past, free, pos, or_true, true_and, false_or]
    rw [if_neg pos]
    cases found : values[op.semNum]? with
    | none =>
      have beyond := List.getElem?_eq_none_iff.mp found
      refine iff_of_false ?_ ?_
      · rintro ⟨halt, stopped, inside⟩
        exact inside (Option.some.inj stopped).symm
      · rintro (less | ⟨value, none, _⟩ | ⟨less | greater, _⟩)
        · exact past less
        · cases none
        · omega
        · exact pos greater
    | some value =>
      have within := (List.getElem?_eq_some_iff.mp found).1
      dsimp only
      by_cases blocked : Blocked op value
      · rw [if_pos blocked]
        exact iff_of_true ⟨_, rfl, stopAt_ne_outside⟩
          (Or.inr (Or.inl ⟨value, rfl, blocked⟩))
      · rw [if_neg blocked, ih]
        simp only [past, blocked, within, Option.some.injEq, exists_eq_left', true_or, true_and,
          false_or]

variable {ops : List SemBuf}

theorem exists_of_check_outside {values : List Int} (outside : check values ops = some .outside) :
    ∃ op ∈ ops, values.length <= op.semNum := by
  fun_induction check values ops with
  | case1 => cases outside
  | case2 op ops past => exact ⟨op, List.mem_cons_self, past.le⟩
  | case4 op ops _ _ found =>
    exact ⟨op, List.mem_cons_self, List.getElem?_eq_none_iff.mp found⟩
  | case5 op => exact absurd (Option.some.inj outside) (stopAt_ne_outside)
  | case3 op ops _ _ ih | case6 op ops _ _ _ _ _ ih =>
    exact (ih outside).imp fun _ => And.imp_left (List.mem_cons_of_mem op)

theorem lt_of_check_waiting {values : List Int} {zero : Bool} {n : Nat}
    (waits : check values ops = some (.waiting zero n)) : n < values.length := by
  fun_induction check values ops with
  | case1 | case2 | case4 => cases waits
  | case5 op ops _ _ value found =>
    unfold stopAt at waits
    split_ifs at waits <;> cases waits
    exact (List.getElem?_eq_some_iff.mp found).1
  | case3 op ops _ _ ih | case6 op ops _ _ _ _ _ ih => exact ih waits

/-! ## The operations in turn -/

variable {values next : List Int} {op : SemBuf}

theorem performOne_eq_some (performed : performOne values op = some next) :
    ∃ value, values[op.semNum]? = some value /\ ¬ Blocked op value /\
      next = values.set op.semNum (value + op.semOp) := by
  unfold performOne at performed
  split at performed
  · cases performed
  next value found =>
    split_ifs at performed with blocked
    cases performed
    exact ⟨value, found, blocked, rfl⟩

theorem length_performOne (performed : performOne values op = some next) :
    next.length = values.length := by
  obtain ⟨value, _, _, rfl⟩ := performOne_eq_some performed
  exact List.length_set

variable {values result : List Int}

section

variable (performed : perform values ops = some result)
include performed

theorem lt_of_perform : ∀ op ∈ ops, op.semNum < values.length := by
  induction ops generalizing values with
  | nil => exact fun _ mem => nomatch mem
  | cons op ops ih =>
    obtain ⟨next, first, rest⟩ := Option.bind_eq_some_iff.mp performed
    obtain ⟨_, found, _⟩ := performOne_eq_some first
    refine List.forall_mem_cons.mpr ⟨(List.getElem?_eq_some_iff.mp found).1, ?_⟩
    rw [<- length_performOne first]
    exact ih rest

theorem length_perform : result.length = values.length := by
  induction ops generalizing values with
  | nil =>
    cases performed
    rfl
  | cons op ops ih =>
    obtain ⟨next, first, rest⟩ := Option.bind_eq_some_iff.mp performed
    exact (ih rest).trans (length_performOne first)

theorem nonneg_of_perform (nonneg : ∀ value ∈ values, 0 <= value) : ∀ value ∈ result, 0 <= value := by
  induction ops generalizing values with
  | nil =>
    cases performed
    exact nonneg
  | cons op ops ih =>
    obtain ⟨next, first, rest⟩ := Option.bind_eq_some_iff.mp performed
    obtain ⟨old, found, blocked, rfl⟩ := performOne_eq_some first
    apply ih rest
    intro value mem
    rcases List.mem_or_eq_of_mem_set mem with mem | rfl
    · exact nonneg value mem
    · have := nonneg old (List.mem_of_getElem? found)
      unfold Blocked at blocked
      omega

end

/-! ## The operations as the machine performs them -/

namespace SemSet

@[simp]
theorem values_recount (set : SemSet) (zero : Bool) (n : Nat) (change : Int) :
    (set.recount zero n change).values = set.values := by
  apply List.ext_getElem?
  intro idx
  unfold values recount
  rw [List.getElem?_map, List.getElem?_map, List.getElem?_modify]
  cases set.sems[idx]? with
  | none => rfl
  | some sem =>
    split_ifs <;> rfl

theorem length_values (set : SemSet) : set.values.length = set.sems.length := List.length_map _

theorem length_recount (set : SemSet) (zero : Bool) (n : Nat) (change : Int) :
    (set.recount zero n change).sems.length = set.sems.length :=
  List.length_modify _ _ _

end SemSet

variable {set : SemSet} {waited : Option (Bool × Nat)} {pid : Nat}

theorem applyOp_of_performOne {op : SemBuf} (same : set.values = values.map (signed 32))
    (performed : performOne values op = some next) :
    ∃ set', applyOp pid set op = some set' /\ set'.values = next.map (signed 32) := by
  obtain ⟨value, found, _, rfl⟩ := performOne_eq_some performed
  have here : (set.sems[op.semNum]?).map Sem.semval = some (signed 32 value) := by
    rw [<- List.getElem?_map]
    change set.values[op.semNum]? = _
    rw [same, List.getElem?_map, found]
    rfl
  obtain ⟨sem, entry, semval⟩ := Option.map_eq_some_iff.mp here
  unfold applyOp
  rw [entry]
  refine ⟨_, rfl, ?_⟩
  unfold SemSet.values at same ⊢
  rw [List.map_set, List.map_set, semval]
  congr 1
  exact signed_congr ((signed_modEq 32 value).add_right _)

theorem applyOps_of_perform (pid : Nat) (same : set.values = values.map (signed 32))
    (performed : perform values ops = some result) :
    ∃ set', applyOps pid set ops = some set' /\ set'.values = result.map (signed 32) := by
  induction ops generalizing set values with
  | nil =>
    cases performed
    exact ⟨set, rfl, same⟩
  | cons op ops ih =>
    obtain ⟨next, first, rest⟩ := Option.bind_eq_some_iff.mp performed
    obtain ⟨middle, applied, same'⟩ := applyOp_of_performOne same first
    obtain ⟨set', applied', final⟩ := ih same' rest
    refine ⟨set', ?_, final⟩
    rw [applyOps, applied]
    exact applied'

theorem map_signed_of_inRange {values : List Int} (range : InRange values) :
    values.map (signed 32) = values := by
  conv_rhs => rw [<- List.map_id values]
  apply List.map_congr_left
  intro value mem
  obtain ⟨lower, upper⟩ := range value mem
  exact signed_of_fits (by omega) upper

/-! ## A pass -/

theorem performs_iff {set set' : SemSet} (range : InRange set.values)
    (applied : applyOps pid set ops = some set') :
    perform set.values ops = some set'.values <-> Performable set.values ops := by
  have same := (map_signed_of_inRange range).symm
  constructor
  · intro performed
    refine ⟨_, performed, ?_⟩
    obtain ⟨set'', applied', values⟩ := applyOps_of_perform pid same performed
    cases applied.symm.trans applied'
    intro value mem
    rw [values] at mem
    obtain ⟨word, _, rfl⟩ := List.mem_map.mp mem
    exact signed_lt 31 word
  · rintro ⟨result, performed, fits⟩
    obtain ⟨set'', applied', values⟩ := applyOps_of_perform pid same performed
    cases applied.symm.trans applied'
    have nonneg := nonneg_of_perform performed (fun value mem => (range value mem).1)
    rw [performed, values,
      map_signed_of_inRange (fun value mem => ⟨nonneg value mem, fits value mem⟩)]

theorem passFrom_cases (pid : Nat) (ops : List SemBuf) (set : SemSet) :
    (∃ zero n, check set.values ops = some (.waiting zero n) /\
        passFrom pid ops set = (.halted (.waiting zero n), set.recount zero n 1)) \/
      (∃ errno, check set.values ops = some (.failed errno) /\
        passFrom pid ops set = (.halted (.failed errno), set)) \/
      (check set.values ops = some .outside /\ passFrom pid ops set = (.halted .outside, set)) \/
      (check set.values ops = none /\ applyOps pid set ops = none /\
        passFrom pid ops set = (.halted .outside, set)) \/
      ∃ set', check set.values ops = none /\ applyOps pid set ops = some set' /\
        passFrom pid ops set = (.done, set') := by
  unfold passFrom
  cases check set.values ops with
  | some halt =>
    cases halt with
    | waiting zero n => exact Or.inl ⟨zero, n, rfl, rfl⟩
    | failed errno => exact Or.inr (Or.inl ⟨errno, rfl, rfl⟩)
    | outside => exact Or.inr (Or.inr (Or.inl ⟨rfl, rfl⟩))
  | none =>
    cases applyOps pid set ops with
    | none => exact Or.inr (Or.inr (Or.inr (Or.inl ⟨rfl, rfl, rfl⟩)))
    | some set' => exact Or.inr (Or.inr (Or.inr (Or.inr ⟨set', rfl, rfl, rfl⟩)))

theorem atomic_passFrom_iff (range : InRange set.values) (pid : Nat) (ops : List SemBuf) :
    Atomic set ops (passFrom pid ops set) <->
      Stops set.values ops \/ Performable set.values ops := by
  have stops := check_stops_iff set.values ops
  rcases passFrom_cases pid ops set with ⟨zero, n, checked, pass⟩ | ⟨errno, checked, pass⟩ |
    ⟨checked, pass⟩ | ⟨checked, applied, pass⟩ | ⟨set', checked, applied, pass⟩ <;>
    rw [pass] <;> rw [checked] at stops
  · exact iff_of_true (SemSet.values_recount set zero n 1)
      (Or.inl (stops.mp ⟨_, rfl, by simp⟩))
  · exact iff_of_true rfl (Or.inl (stops.mp ⟨_, rfl, by simp⟩))
  · -- nothing can be performed past the end of the set
    obtain ⟨op, mem, beyond⟩ := exists_of_check_outside checked
    refine iff_of_false id ?_
    rintro (stopped | ⟨result, performed, _⟩)
    · obtain ⟨_, same, inside⟩ := stops.mpr stopped
      exact inside (Option.some.inj same).symm
    · exact absurd (lt_of_perform performed op mem) (not_lt.mpr beyond)
  · refine iff_of_false id ?_
    rintro (stopped | ⟨result, performed, _⟩)
    · obtain ⟨_, same, _⟩ := stops.mpr stopped
      cases same
    · obtain ⟨_, applied', _⟩ :=
        applyOps_of_perform pid (map_signed_of_inRange range).symm performed
      rw [applied] at applied'
      cases applied'
  · have goesOn : ¬ Stops set.values ops := by
      intro stopped
      obtain ⟨_, same, _⟩ := stops.mpr stopped
      cases same
    rw [or_iff_right goesOn]
    exact performs_iff range applied

/--
A pass is atomic exactly when the check ends it, or the operations can be performed
in turn.
-/
theorem atomic_semopPass_iff (range : InRange set.values) (pid : Nat) (ops : List SemBuf)
    (inside : ∀ place ∈ waited, place.2 < set.sems.length) :
    Atomic set ops (semopPass pid ops waited set) <->
      Stops set.values ops \/ Performable set.values ops := by
  cases waited with
  | none => exact atomic_passFrom_iff range pid ops
  | some place =>
    have same := SemSet.values_recount set place.1 place.2 (-1)
    have fresh := atomic_passFrom_iff (same.symm ▸ range) pid ops
    rw [same] at fresh
    rw [<- fresh]
    unfold Atomic semopPass
    rw [same]
    dsimp only
    rw [if_pos (inside place rfl)]

/-- What an allowed pass leaves behind. -/
structure Kept (set : SemSet) (result : Outcome × SemSet) : Prop where
  not_outside : result.1 ≠ .halted .outside
  range : InRange result.2.values
  length_eq : result.2.sems.length = set.sems.length
  waits_inside : ∀ zero n, result.1 = .halted (.waiting zero n) -> n < set.sems.length

theorem kept_passFrom (range : InRange set.values) (pid : Nat)
    (allowed : Stops set.values ops \/ Performable set.values ops) :
    Kept set (passFrom pid ops set) := by
  have atomic := (atomic_passFrom_iff range pid ops).mpr allowed
  rcases passFrom_cases pid ops set with ⟨zero, n, checked, pass⟩ | ⟨errno, checked, pass⟩ |
    ⟨checked, pass⟩ | ⟨checked, applied, pass⟩ | ⟨set', checked, applied, pass⟩ <;>
    rw [pass] at atomic ⊢
  · refine ⟨by simp, ?_, SemSet.length_recount set zero n 1, ?_⟩
    · rw [SemSet.values_recount]
      exact range
    · intro zero' n' same
      cases same
      rw [<- SemSet.length_values]
      exact lt_of_check_waiting checked
  · exact ⟨by simp, range, rfl, fun _ _ same => by cases same⟩
  · exact atomic.elim
  · exact atomic.elim
  · obtain ⟨result, performed, fits⟩ := (performs_iff range applied).mp atomic
    cases Option.some.inj (performed.symm.trans atomic)
    have nonneg := nonneg_of_perform performed (fun value mem => (range value mem).1)
    refine ⟨by simp, fun value mem => ⟨nonneg value mem, fits value mem⟩, ?_,
      fun _ _ same => by cases same⟩
    rw [<- SemSet.length_values, <- SemSet.length_values]
    exact length_perform performed

theorem kept_semopPass (range : InRange set.values) (pid : Nat)
    (inside : ∀ place ∈ waited, place.2 < set.sems.length)
    (allowed : Stops set.values ops \/ Performable set.values ops) :
    Kept set (semopPass pid ops waited set) := by
  cases waited with
  | none => exact kept_passFrom range pid allowed
  | some place =>
    have same := SemSet.values_recount set place.1 place.2 (-1)
    have length := SemSet.length_recount set place.1 place.2 (-1)
    rw [<- same] at range allowed
    have kept := kept_passFrom range pid allowed
    unfold semopPass
    dsimp only
    rw [if_pos (inside place rfl)]
    exact ⟨kept.not_outside, kept.range, kept.length_eq.trans length,
      fun zero n waits => length ▸ kept.waits_inside zero n waits⟩

/-! ## Systems -/

/-- A call that is suspended: its process, its operations and what it waits for. -/
structure Waiting where
  pid : Nat
  ops : List SemBuf
  zero : Bool
  n : Nat

/-- A set of semaphores and the calls suspended on it. -/
structure System where
  set : SemSet
  waiting : List Waiting

/-- A process calls `semop`, or a suspended call begins anew. -/
inductive Event
  | call (pid : Nat) (ops : List SemBuf)
  | resume (idx : Nat)

/-- A pass to be made: process, operations and what was waited for. -/
structure Attempt where
  pid : Nat
  ops : List SemBuf
  waited : Option (Bool × Nat)

namespace System

/-- The pass an event gives rise to, and the calls that stay suspended. -/
def attempt (sys : System) : Event -> Option (Attempt × List Waiting)
  | .call pid ops => some (⟨pid, ops, none⟩, sys.waiting)
  | .resume idx =>
    (sys.waiting[idx]?).map fun waiting =>
      (⟨waiting.pid, waiting.ops, some (waiting.zero, waiting.n)⟩, sys.waiting.eraseIdx idx)

/-- The system after an event; undefined after an access outside of the set. -/
def step (sys : System) (event : Event) : Option System :=
  match sys.attempt event with
  | none => some sys
  | some (attempt, others) =>
    match semopPass attempt.pid attempt.ops attempt.waited sys.set with
    | (.halted .outside, _) => none
    | (.halted (.waiting zero n), set) =>
      some ⟨set, others ++ [⟨attempt.pid, attempt.ops, zero, n⟩]⟩
    | (_, set) => some ⟨set, others⟩

/-- The operations of the event stop at the check or can be performed in turn. -/
def Allowed (sys : System) (event : Event) : Prop :=
  ∀ attempt ∈ sys.attempt event,
    Stops sys.set.values attempt.1.ops \/ Performable sys.set.values attempt.1.ops

/-- The values are in range, and those who wait do so for a semaphore of the set. -/
structure Sound (sys : System) : Prop where
  range : InRange sys.set.values
  inside : ∀ waiting ∈ sys.waiting, waiting.n < sys.set.sems.length

variable {sys : System} {event : Event}

theorem Sound.attempt (sound : sys.Sound) {attempt : Attempt} {others : List Waiting}
    (made : sys.attempt event = some (attempt, others)) :
    (∀ place ∈ attempt.waited, place.2 < sys.set.sems.length) /\
      ∀ waiting ∈ others, waiting.n < sys.set.sems.length := by
  cases event with
  | call pid ops =>
    cases made
    exact ⟨fun _ mem => (nomatch mem), sound.inside⟩
  | resume idx =>
    obtain ⟨waiting, found, same⟩ := Option.map_eq_some_iff.mp made
    cases same
    refine ⟨?_, fun other mem => sound.inside other (List.mem_of_mem_eraseIdx mem)⟩
    intro place mem
    cases Option.some.inj mem
    exact sound.inside waiting (List.mem_of_getElem? found)

/-- An allowed event leads to a sound system. -/
theorem Sound.step (sound : sys.Sound) (allowed : sys.Allowed event) :
    ∃ next, sys.step event = some next /\ next.Sound := by
  unfold System.step
  cases made : sys.attempt event with
  | none => exact ⟨sys, rfl, sound⟩
  | some pair =>
    obtain ⟨attempt, others⟩ := pair
    obtain ⟨here, elsewhere⟩ := sound.attempt made
    have kept := kept_semopPass sound.range attempt.pid here (allowed _ made)
    dsimp only
    generalize semopPass attempt.pid attempt.ops attempt.waited sys.set = result at kept ⊢
    obtain ⟨outcome, set⟩ := result
    have others_inside : ∀ waiting ∈ others, waiting.n < set.sems.length := by
      intro waiting mem
      rw [kept.length_eq]
      exact elsewhere waiting mem
    rcases outcome with _ | errno | ⟨zero, n⟩ | _
    · exact ⟨_, rfl, kept.range, others_inside⟩
    · exact ⟨_, rfl, kept.range, others_inside⟩
    · refine ⟨_, rfl, kept.range, List.forall_mem_append.mpr ⟨others_inside, ?_⟩⟩
      rw [List.forall_mem_singleton, kept.length_eq]
      exact kept.waits_inside zero n rfl
    · exact absurd rfl kept.not_outside

def ofSet (set : SemSet) : System := ⟨set, []⟩

/--
Over every run whose calls stop at the check or can be performed in turn, no entry
outside of the set is touched, no value is negative, and in each state reached a pass
is atomic exactly if it is such a one.
-/
theorem semop_atomic_in_every_state (set : SemSet) (range : InRange set.values)
    (events : List Event) (allowed : AllowedRun step Allowed (ofSet set) events) (count : Nat) :
    ∃ reached, run step (ofSet set) (events.take count) = some reached /\
      (∀ value ∈ reached.set.values, 0 <= value) /\
      ∀ event attempt others, reached.attempt event = some (attempt, others) ->
        (Atomic reached.set attempt.ops
            (semopPass attempt.pid attempt.ops attempt.waited reached.set) <->
          Stops reached.set.values attempt.ops \/ Performable reached.set.values attempt.ops) := by
  have start : (ofSet set).Sound := ⟨range, fun _ mem => nomatch mem⟩
  obtain ⟨reached, ran, sound⟩ := run_invariant
    (fun _ _ sound allowed => sound.step allowed) start (allowed.take count)
  refine ⟨reached, ran, fun value mem => (sound.range value mem).1, ?_⟩
  intro event attempt others made
  exact atomic_semopPass_iff sound.range attempt.pid attempt.ops (sound.attempt made).1

/-- The set `semget` makes. -/
def created (nsems : Nat) : SemSet where
  sems := List.replicate nsems ⟨1, 0, 0, 0⟩
  adj := fun _ => List.replicate nsems 0

/-- One semaphore is taken and another raised at once. -/
theorem semop_atomic_on_two : ∃ reached, run step (ofSet (created 2))
        ([Event.call 1 [⟨0, -1, false, false⟩, ⟨1, 2, false, false⟩]].take 1) = some reached /\
      (∀ value ∈ reached.set.values, 0 <= value) /\
      ∀ event attempt others, reached.attempt event = some (attempt, others) ->
        (Atomic reached.set attempt.ops
            (semopPass attempt.pid attempt.ops attempt.waited reached.set) <->
          Stops reached.set.values attempt.ops \/ Performable reached.set.values attempt.ops) := by
  refine semop_atomic_in_every_state (created 2) (by decide)
    [.call 1 [⟨0, -1, false, false⟩, ⟨1, 2, false, false⟩]] ⟨?_, fun _ _ => trivial⟩ 1
  intro attempt made
  cases Option.some.inj made
  exact Or.inr ⟨[0, 3], by decide, by decide⟩

/--
Two decrements of a semaphore that holds one are both performed and leave it at
minus one; semaphore number one of a set of one is read; and an increment takes a
value past what 32 bits hold.
-/
theorem semop_oversteps :
    ((semopPass 1 [⟨0, -1, true, false⟩, ⟨0, -1, true, false⟩] none (created 1)).1 = .done /\
        (semopPass 1 [⟨0, -1, true, false⟩, ⟨0, -1, true, false⟩] none (created 1)).2.values =
          [-1]) /\
      (semopPass 1 [⟨1, -1, true, false⟩] none (created 1)).1 = .halted .outside /\
      (semopPass 1 [⟨0, 1, true, false⟩] none
        { created 1 with sems := [⟨2 ^ 31 - 1, 0, 0, 0⟩] }).2.values = [-2 ^ 31] := by
  decide

end System

end Clib4.Posix
