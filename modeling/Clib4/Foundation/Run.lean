import Mathlib.Data.Option.Basic

namespace Foundation

/-!
# Runs of a partial step function

A step that is not defined ends a run for good.  `run_invariant` is the rule for
runs whose steps are all allowed: it gives both that the run goes on and what
holds along it.
-/

variable {State Event : Type} {step : State -> Event -> Option State}
  {allowed : State -> Event -> Prop} {Holds : State -> Prop}

def run (step : State -> Event -> Option State) : State -> List Event -> Option State
  | state, [] => some state
  | state, event :: events => (step state event).bind fun next => run step next events

def AllowedRun (step : State -> Event -> Option State) (allowed : State -> Event -> Prop) :
    State -> List Event -> Prop
  | _, [] => True
  | state, event :: events => allowed state event /\
      ∀ next, step state event = some next -> AllowedRun step allowed next events

variable {events : List Event} {state : State}

theorem run_invariant
    (keeps : ∀ state event, Holds state -> allowed state event -> ∃ next, step state
      event = some next /\ Holds next) (start : Holds state)
    (all : AllowedRun step allowed state events) :
    ∃ final, run step state events = some final /\ Holds final := by
  induction events generalizing state with
  | nil => exact ⟨state, rfl, start⟩
  | cons event events ih =>
    obtain ⟨next, stepped, holds⟩ := keeps state event start all.1
    obtain ⟨final, ran, holds'⟩ := ih holds (all.2 next stepped)
    refine ⟨final, ?_, holds'⟩
    rw [run, stepped]
    exact ran

/-- What every step preserves holds wherever a run leads. -/
theorem run_preserves
    (keeps : ∀ state event next, Holds state -> step state event = some next -> Holds next)
    {final : State} (start : Holds state) (ran : run step state events = some final) :
    Holds final := by
  induction events generalizing state with
  | nil =>
    cases ran
    exact start
  | cons event events ih =>
    obtain ⟨next, stepped, rest⟩ := Option.bind_eq_some_iff.mp ran
    exact ih (keeps state event next start stepped) rest

theorem AllowedRun.take (all : AllowedRun step allowed state events) (count : Nat) :
    AllowedRun step allowed state (events.take count) := by
  induction count generalizing state events with
  | zero => exact trivial
  | succ count ih =>
    cases events with
    | nil => exact trivial
    | cons event events => exact ⟨all.1, fun next stepped => ih (all.2 next stepped)⟩

end Foundation
