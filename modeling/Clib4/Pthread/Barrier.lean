import Clib4.Foundation.Monitor
import Clib4.Foundation.Run
import Mathlib.Logic.Function.Basic
import Mathlib.Algebra.Ring.Nat

namespace Clib4.Pthread

open Foundation

/-!
# Barriers

`pthread_barrier_init.c` and `pthread_barrier_wait.c`, run by any number of
threads in any order.  Each operation on the mutex or the condition variable
and each access to the counter is a step of its own.  `pthread_cond_wait`
gives the mutex up and goes to sleep in one step, a sleeping thread may wake
up at any time, and then has to get the mutex back.
-/

def barrierFlag : Nat := 2 ^ 31

def threadsMax : Nat := 2019

def barrierSerialThread : Nat := 1

namespace Barrier

/-- Where a thread stands in `pthread_barrier_wait`. -/
inductive Place
  /-- Outside of the call. -/
  | idle
  /-- At `pthread_mutex_lock`. -/
  | lock
  /-- At the test of the loop that waits until everyone exits the barrier. -/
  | exitTest
  | exitSleep
  /-- Woken up in that loop, and without the mutex. -/
  | exitRelock
  /-- At the test whether we are the first to enter. -/
  | reset
  /-- At `total_height++`. -/
  | enter
  /-- At the comparison with `curr_height`. -/
  | compare
  /-- At `total_height += PTHREAD_BARRIER_FLAG - 1`. -/
  | raise
  /-- At the broadcast to those who wait for enough threads. -/
  | wakeWaiting
  | unlockSerial
  /-- At the test of the loop that waits until enough threads enter. -/
  | enoughTest
  | enoughSleep
  | enoughRelock
  /-- At `total_height--`. -/
  | leave
  /-- At the test whether everyone has left. -/
  | lastTest
  /-- At the broadcast to those who wait to enter. -/
  | wakeEntering
  | unlock
  deriving DecidableEq, Repr

namespace Place

def critical : Place -> Bool
  | idle | lock | exitSleep | exitRelock | enoughSleep | enoughRelock => false
  | _ => true

/-- The places of a call that was counted and waits for the others. -/
def waits : Place -> Bool
  | enoughTest | enoughSleep | enoughRelock | leave => true
  | _ => false

/-- The places of a call that was counted and has not returned. -/
def counted : Place -> Bool
  | idle | lock | exitTest | exitSleep | exitRelock | reset | enter => false
  | _ => true

def woken : Place -> Place
  | exitSleep => exitRelock
  | enoughSleep => enoughRelock
  | place => place

@[simp] theorem critical_woken (place : Place) : place.woken.critical = place.critical := by
  cases place <;> rfl

@[simp] theorem waits_woken (place : Place) : place.woken.waits = place.waits := by
  cases place <;> rfl

@[simp] theorem counted_woken (place : Place) : place.woken.counted = place.counted := by
  cases place <;> rfl

end Place

/-- A call that has returned: its number, its value and how many calls had
been counted by then. -/
structure Return where
  ticket : Nat
  value : Nat
  entries : Nat
  deriving DecidableEq, Repr

/--
A barrier and the threads that use it.  Calls are numbered by tickets in the
order in which they increase `total_height`; `entered` has the thread of each
ticket with the height it came to.  Tickets and the two lists are history:
no step depends on them.
-/
structure State (Thread : Type) where
  currHeight : Nat
  totalHeight : Nat
  owner : Option Thread
  place : Thread -> Place
  ticket : Thread -> Nat
  entered : List (Thread × Nat)
  returned : List Return

variable {Thread : Type}

/-- `pthread_barrier_init`; `none` is `EINVAL`. -/
def init (count : Nat) : Option (State Thread) :=
  if count = 0 then none
  else some
    { currHeight := count
      totalHeight := barrierFlag
      owner := none
      place := fun _ => .idle
      ticket := fun _ => 0
      entered := []
      returned := [] }

variable [DecidableEq Thread]

namespace State

def goto (state : State Thread) (thread : Thread) (place : Place) : State Thread :=
  { state with place := Function.update state.place thread place }

def acquire (state : State Thread) (thread : Thread) (place : Place) : Option (State Thread) :=
  if state.owner.isNone then some { state.goto thread place with owner := some thread }
  else none

def release (state : State Thread) (thread : Thread) (place : Place) : State Thread :=
  { state.goto thread place with owner := none }

def broadcast (state : State Thread) : State Thread :=
  { state with place := fun thread => (state.place thread).woken }

def count (state : State Thread) (thread : Thread) : State Thread :=
  let height := (state.totalHeight + 1) % 2 ^ 32
  { state.goto thread .compare with
    totalHeight := height
    ticket := Function.update state.ticket thread state.entered.length
    entered := state.entered ++ [(thread, height)] }

def finish (state : State Thread) (thread : Thread) (value : Nat) : State Thread :=
  { state.release thread .idle with
    returned := state.returned ++ [⟨state.ticket thread, value, state.entered.length⟩] }

end State

/-- One step of one thread; `none` if it has to wait for the mutex. -/
def step (state : State Thread) (thread : Thread) : Option (State Thread) :=
  match state.place thread with
  | .idle => some (state.goto thread .lock)
  | .lock => state.acquire thread .exitTest
  | .exitTest =>
    if barrierFlag < state.totalHeight then some (state.release thread .exitSleep)
    else some (state.goto thread .reset)
  | .exitSleep => some (state.goto thread .exitRelock)
  | .exitRelock => state.acquire thread .exitTest
  | .reset =>
    some { state.goto thread .enter with
      totalHeight := if state.totalHeight = barrierFlag then 0 else state.totalHeight }
  | .enter => some (state.count thread)
  | .compare =>
    if state.totalHeight = state.currHeight then some (state.goto thread .raise)
    else some (state.goto thread .enoughTest)
  | .raise =>
    some { state.goto thread .wakeWaiting with
      totalHeight := (state.totalHeight + (barrierFlag - 1)) % 2 ^ 32 }
  | .wakeWaiting => some (state.broadcast.goto thread .unlockSerial)
  | .unlockSerial => some (state.finish thread barrierSerialThread)
  | .enoughTest =>
    if state.totalHeight < barrierFlag then some (state.release thread .enoughSleep)
    else some (state.goto thread .leave)
  | .enoughSleep => some (state.goto thread .enoughRelock)
  | .enoughRelock => state.acquire thread .enoughTest
  | .leave =>
    some { state.goto thread .lastTest with
      totalHeight := (state.totalHeight + (2 ^ 32 - 1)) % 2 ^ 32 }
  | .lastTest =>
    if state.totalHeight = barrierFlag then some (state.goto thread .wakeEntering)
    else some (state.goto thread .unlock)
  | .wakeEntering => some (state.broadcast.goto thread .unlock)
  | .unlock => some (state.finish thread 0)

end Barrier

end Clib4.Pthread
