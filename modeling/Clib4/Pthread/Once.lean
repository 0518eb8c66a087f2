import Mathlib.Logic.Function.Basic

namespace Clib4.Pthread

/-!
# Initialisation at most once

`pthread_once`, called by any number of threads on a control that starts as
`PTHREAD_ONCE_INIT`, which sets `started` to -1.  The compare-and-swap looks for
0, so that it never stores anything and every call goes through the spin lock.
The init routine may also end its thread, and then `OnceCleanup` gives the lock up.
-/

namespace Once

/-- Where a thread stands in `pthread_once`. -/
inductive Place
  | idle
  /-- At `__sync_val_compare_and_swap`. -/
  | swap
  /-- In the loop of `pthread_spin_lock`. -/
  | spin
  /-- At the test of `done`. -/
  | test
  /-- In the init routine. -/
  | init
  /-- At `done = TRUE`. -/
  | finish
  | unlock
  /-- At `return 0`. -/
  | back
  /-- Ended inside the init routine. -/
  | gone
  deriving DecidableEq, Repr

/-- A control and the threads that use it.  `completed` counts how often the init
routine has returned; `begun` and `succeeded` have that count for each time the
routine was called and each time a call returned 0.  No step depends on these. -/
structure State (Thread : Type) where
  done : Bool
  started : Int
  owner : Option Thread
  place : Thread -> Place
  completed : Nat
  begun : List Nat
  succeeded : List Nat

variable {Thread : Type}

/-- `PTHREAD_ONCE_INIT`. -/
def State.initial : State Thread := ⟨false, -1, none, fun _ => .idle, 0, [], []⟩

/-- What a thread may do next. -/
inductive Event
  /-- A call; without a control or a routine it returns `EINVAL`. -/
  | call (given : Bool)
  | advance
  /-- `pthread_exit` inside the init routine. -/
  | exit
  deriving DecidableEq, Repr

namespace State

variable [DecidableEq Thread]

def goto (state : State Thread) (thread : Thread) (place : Place) : State Thread :=
  { state with place := Function.update state.place thread place }

/-- One step of `pthread_once`; what a thread cannot do where it stands changes nothing. -/
def step (state : State Thread) : Thread × Event -> State Thread
  | (thread, event) =>
    match state.place thread, event with
    | .idle, .call given => if given then state.goto thread .swap else state
    | .swap, .advance =>
      if state.started = 0 then { state with started := 1 }.goto thread .back
      else state.goto thread .spin
    | .spin, .advance =>
      if state.owner = none then { state with owner := some thread }.goto thread .test else state
    | .test, .advance =>
      if state.done then state.goto thread .unlock
      else { state with begun := state.completed :: state.begun }.goto thread .init
    | .init, .advance => { state with completed := state.completed + 1 }.goto thread .finish
    | .init, .exit => { state with owner := none }.goto thread .gone
    | .finish, .advance => { state with done := true }.goto thread .unlock
    | .unlock, .advance => { state with owner := none }.goto thread .back
    | .back, .advance =>
      { state with succeeded := state.completed :: state.succeeded }.goto thread .idle
    | _, _ => state

def Tells (owner : Option Thread) (done : Bool) (completed : Nat) (thread : Thread) :
    Place -> Prop
  | .test => owner = some thread /\ completed = done.toNat
  | .init => owner = some thread /\ done = false /\ completed = 0
  | .finish => owner = some thread /\ done = false /\ completed = 1
  | .unlock => owner = some thread /\ done /\ completed = 1
  | .back => done /\ completed = 1
  | .idle | .swap | .spin | .gone => True

structure Consistent (state : State Thread) : Prop where
  started_eq : state.started = -1
  free : state.owner = none -> state.completed = state.done.toNat
  told : ∀ thread, Tells state.owner state.done state.completed thread (state.place thread)
  begun_eq : ∀ count ∈ state.begun, count = 0
  succeeded_eq : ∀ count ∈ state.succeeded, count = 1

namespace Consistent

variable {state : State Thread} {thread : Thread} {place : Place}

theorem goto (valid : state.Consistent)
    (tells : Tells state.owner state.done state.completed thread place) :
    (state.goto thread place).Consistent := by
  refine { valid with told := fun other => ?_ }
  by_cases same : other = thread
  · subst same
    simpa only [State.goto, Function.update_self] using tells
  · simpa only [State.goto, Function.update_of_ne same] using valid.told other

/-- A thread that holds the lock, or takes it, changes the control; the others only
know whether the routine has been done. -/
theorem change (valid : state.Consistent) {owner : Option Thread} {done : Bool}
    {completed : Nat} (holds : state.owner = none \/ state.owner = some thread)
    (stays : state.done -> done /\ completed = state.completed)
    (free : owner = none -> completed = done.toNat)
    (tells : Tells owner done completed thread place) :
    ({ state with owner := owner, done := done, completed := completed }.goto
      thread place).Consistent := by
  refine { valid with free := free, told := fun other => ?_ }
  by_cases same : other = thread
  · subst same
    simpa only [State.goto, Function.update_self] using tells
  · have told := valid.told other
    simp only [State.goto, Function.update_of_ne same]
    cases stands : state.place other <;> rw [stands] at told
    case back => exact ⟨(stays told.1).1, (stays told.1).2.trans told.2⟩
    case idle | swap | spin | gone => trivial
    all_goals
      rw [told.1] at holds
      exact absurd (holds.resolve_left nofun) (by simpa using same)

theorem step (valid : state.Consistent) (event : Thread × Event) :
    (state.step event).Consistent := by
  obtain ⟨thread, event⟩ := event
  have told := valid.told thread
  dsimp only [State.step]
  cases stands : state.place thread <;> cases event <;> dsimp only <;> try exact valid
  all_goals rw [stands] at told
  case idle.call given =>
    cases given
    · exact valid
    · exact valid.goto trivial
  case swap.advance =>
    rw [if_neg (by rw [valid.started_eq]; decide)]
    exact valid.goto trivial
  case spin.advance =>
    split
    next unowned =>
      exact valid.change (.inl unowned) (⟨·, rfl⟩) nofun ⟨rfl, valid.free unowned⟩
    next => exact valid
  case test.advance =>
    obtain ⟨owns, counted⟩ := told
    split
    next late =>
      rw [late] at counted
      exact valid.goto ⟨owns, late, counted⟩
    next early =>
      rw [Bool.not_eq_true] at early
      rw [early] at counted
      have consistent' : Consistent { state with begun := state.completed :: state.begun } :=
        { valid with begun_eq := List.forall_mem_cons.mpr ⟨counted, valid.begun_eq⟩ }
      exact consistent'.goto ⟨owns, early, counted⟩
  case init.advance =>
    refine valid.change (.inr told.1) (fun late => ?_) (fun free => ?_)
      ⟨told.1, told.2.1, congrArg (· + 1) told.2.2⟩
    · exact absurd (told.2.1.symm.trans late) nofun
    · exact absurd (told.1.symm.trans free) nofun
  case init.exit =>
    exact valid.change (.inr told.1) (⟨·, rfl⟩) (fun _ => by rw [told.2.1, told.2.2]; rfl)
      trivial
  case finish.advance =>
    refine valid.change (.inr told.1) (fun _ => ⟨rfl, rfl⟩) (fun free => ?_)
      ⟨told.1, rfl, told.2.2⟩
    exact absurd (told.1.symm.trans free) nofun
  case unlock.advance =>
    exact valid.change (.inr told.1) (⟨·, rfl⟩) (fun _ => by rw [told.2.1, told.2.2]; rfl)
      told.2
  case back.advance =>
    have consistent' : Consistent { state with succeeded := state.completed :: state.succeeded } :=
      { valid with
        succeeded_eq := List.forall_mem_cons.mpr ⟨told.2, valid.succeeded_eq⟩ }
    exact consistent'.goto trivial

end Consistent

/-- Whatever the threads do, a call that returns 0 finds the init routine completed,
and the routine is not called again once it has. -/
theorem once_completes (events : List (Thread × Event)) :
    (∀ completed ∈ (events.foldl step initial).succeeded, completed = 1) /\
      ∀ completed ∈ (events.foldl step initial).begun, completed = 0 := by
  have valid : (events.foldl step (initial : State Thread)).Consistent :=
    List.foldlRecOn events step ⟨rfl, fun _ => rfl, fun _ => trivial, nofun, nofun⟩
      fun _ holds event _ => holds.step event
  exact ⟨valid.succeeded_eq, valid.begun_eq⟩

end State

end Once

end Clib4.Pthread
