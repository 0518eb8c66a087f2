import Clib4.Foundation.MachineInt

namespace Clib4.Time

open Foundation

/-!
# The task of an interval timer

The task sends a request to the timer device, waits for it and changes the time
fields of the request for the next round.  It adds the interval to what is there,
where the interval should take its place, and it does not stop when there is no
interval.
-/

/-- `struct timeval`. -/
structure Timeval where
  sec : Int
  usec : Int
deriving DecidableEq

/-- `struct itimerval`. -/
structure Itimerval where
  value : Timeval
  interval : Timeval

namespace Itimerval

/-- What wakes the task: `CTRL-F`, `CTRL-D` after a further `setitimer`, or the device;
in the last case, whether `SIGALRM` is blocked before it is raised, and after. -/
inductive Wakeup
  | ctrlF
  | ctrlD
  | expired (before after : Bool)

def fields (sec usec : Int) : Timeval := ⟨unsigned 32 sec, unsigned 32 usec⟩

def start (timer : Itimerval) : Timeval := fields timer.value.sec timer.value.usec

/-- The rest of a round: the request for the next one, unless the loop is left.
`which` is -1 for `alarm`. -/
def wake (timer : Itimerval) (which : Int) (request : Timeval) : Wakeup -> Option Timeval
  | .ctrlF => none
  | .ctrlD => some timer.start
  | .expired before after =>
    let request :=
      fields (request.sec + timer.interval.sec) (request.usec + timer.interval.usec)
    if before then none
    else if which = -1 \/ after then none
    else some request

/-- The delays that are requested until the task has been woken so often. -/
def delaysFrom (timer : Itimerval) (which : Int) : Timeval -> List Wakeup -> List Timeval
  | request, [] => [request]
  | request, wakeup :: wakeups =>
    match timer.wake which request wakeup with
    | none => [request]
    | some next => request :: delaysFrom timer which next wakeups

def itimerRealTask (timer : Itimerval) (which : Int) : List Wakeup -> List Timeval :=
  timer.delaysFrom which timer.start

/-- The delays of a timer that has expired so often: first the value, then the interval,
with less than a million microseconds, if it is not zero. -/
def meant (timer : Itimerval) (expiries : Nat) : List Timeval :=
  timer.value ::
    if timer.interval = ⟨0, 0⟩ then []
    else List.replicate expiries
      ⟨timer.interval.sec + timer.interval.usec / 10 ^ 6, timer.interval.usec % 10 ^ 6⟩

/-- Fields that `setitimer` may be given: of the value, which is not zero, and of the
interval. -/
structure Valid (timer : Itimerval) : Prop where
  sec : 0 <= timer.value.sec /\ timer.value.sec < 2 ^ 31
  usec : 0 <= timer.value.usec /\ timer.value.usec < 10 ^ 6
  positive : timer.value ≠ ⟨0, 0⟩
  intervalSec : 0 <= timer.interval.sec /\ timer.interval.sec < 2 ^ 31
  intervalUsec : 0 <= timer.interval.usec /\ timer.interval.usec < 2 ^ 31

theorem head_delaysFrom {timer : Itimerval} {which : Int} {request : Timeval}
    {wakeups : List Wakeup} : (timer.delaysFrom which request wakeups).head? = some request := by
  cases wakeups with
  | nil => rfl
  | cons wakeup wakeups =>
    rw [delaysFrom]
    cases timer.wake which request wakeup <;> rfl

/-- The delays are those meant as long as the timer has not expired, and never after. -/
theorem itimer_delays_iff {timer : Itimerval} (valid : timer.Valid) {which : Int}
    (real : which ≠ -1) (expiries : Nat) :
    timer.itimerRealTask which (List.replicate expiries (.expired false false)) =
      timer.meant expiries <-> expiries = 0 := by
  obtain ⟨sec, usec, positive, intervalSec, intervalUsec⟩ := valid
  have first : timer.start = timer.value := by
    have sameSec : unsigned 32 timer.value.sec = _ := unsigned_of_fits sec.1 (by omega)
    have sameUsec : unsigned 32 timer.value.usec = _ := unsigned_of_fits usec.1 (by omega)
    unfold start fields
    rw [sameSec, sameUsec]
  unfold itimerRealTask
  cases expiries with
  | zero => simp [first, meant, delaysFrom]
  | succ expiries =>
    refine iff_of_false (fun same => ?_) (Nat.succ_ne_zero _)
    rw [meant, List.replicate_succ, delaysFrom, wake] at same
    simp only [Bool.false_eq_true, real, or_self, if_false, first, List.cons.injEq, true_and] at same
    have second := congrArg List.head? same
    rw [head_delaysFrom] at second
    split_ifs at second
    · cases second
    · -- the second delay is the sum of value and interval
      have sumSec : unsigned 32 (timer.value.sec + timer.interval.sec) = _ :=
        unsigned_of_fits (by omega) (by omega)
      have sumUsec : unsigned 32 (timer.value.usec + timer.interval.usec) = _ :=
        unsigned_of_fits (by omega) (by omega)
      rw [List.replicate_succ, List.head?_cons, fields, sumSec, sumUsec, Option.some.injEq,
        Timeval.mk.injEq] at second
      have noSec : timer.value.sec = 0 := by omega
      have noUsec : timer.value.usec = 0 := by omega
      have zero : timer.value = ⟨timer.value.sec, timer.value.usec⟩ := rfl
      rw [noSec, noUsec] at zero
      exact positive zero

/-- Of a value of 5 and an interval of 1, 5 is requested and then 6; without an interval,
5 is requested again. -/
theorem itimer_adds_up :
    itimerRealTask ⟨⟨5, 0⟩, ⟨1, 0⟩⟩ 0 [.expired false false] = [⟨5, 0⟩, ⟨6, 0⟩] /\
    itimerRealTask ⟨⟨5, 0⟩, ⟨0, 0⟩⟩ 0 [.expired false false] = [⟨5, 0⟩, ⟨5, 0⟩] := by
  decide

theorem itimer_first_delay : itimerRealTask ⟨⟨5, 0⟩, ⟨1, 0⟩⟩ 0 [] = [⟨5, 0⟩] :=
  (itimer_delays_iff ⟨by decide, by decide, by decide, by decide, by decide⟩ (by decide) 0).mpr rfl

end Itimerval
end Clib4.Time
