import Clib4.Foundation.LinkedList
import Clib4.Foundation.Run

namespace Clib4.Pthread

open Foundation List

/-!
# Condition variables

`_pthread_cond_timedwait` and `_pthread_cond_broadcast` of `pthread.c`.  A
waiter is a node on the stack of its task, linked into the list of the
condition variable until the task has run again and holds the mutex.  What a
waiter is sent is a signal bit of its task.
-/

/-- The nodes of the list `cond->waiters`: the two ends of its header, and the
`CondWaiter` of each task. -/
inductive WaiterNode (Task : Type)
  | header
  | ending
  | waiter (task : Task)
  deriving DecidableEq

/-- A condition variable with the tasks queued on it, in order.  `signalled`
lists the tasks `Signal` was called for, from the first call on. -/
structure Condition (Task : Type) where
  links : Links (WaiterNode Task)
  waiters : List Task
  linked : links.Holds .header .ending (waiters.map .waiter)
  sigbit : Task -> Nat
  signals : Task -> Nat -> Bool
  signalled : List Task

namespace Condition

variable {Task : Type}

/-! ## The walk over the waiters -/

/-- `ForeachNode` with the `break` of `_pthread_cond_broadcast`: the nodes it
signals from a node on; `none` if the rounds do not suffice. -/
def visit (succ : WaiterNode Task -> Option (WaiterNode Task)) (onlyfirst : Bool) :
    Nat -> WaiterNode Task -> Option (List (WaiterNode Task))
  | 0, _ => none
  | fuel + 1, node =>
    match succ node with
    | none => some []
    | some next =>
      if onlyfirst then some [node]
      else (visit succ onlyfirst fuel next).map (node :: ·)

def taskOf : WaiterNode Task -> Option Task
  | .waiter task => some task
  | _ => none

section Visit

variable {links : Links (WaiterNode Task)} {cells : List (WaiterNode Task)}
  {first tail : WaiterNode Task}

theorem visit_cells (fuel : Nat) (enough : cells.length < fuel)
    (starts : (cells ++ [tail]).head? = some first)
    (chain : (cells ++ [tail]).IsChain links.Adjacent) (ends : links.succ tail = none)
    (onlyfirst : Bool) :
    visit links.succ onlyfirst fuel first = some (if onlyfirst then cells.take 1 else cells) := by
  induction cells generalizing fuel first with
  | nil =>
    obtain ⟨rounds, rfl⟩ := Nat.exists_eq_succ_of_ne_zero (Nat.ne_of_gt enough)
    simp only [nil_append, List.head?_cons, Option.some.injEq] at starts
    subst starts
    simp [visit, ends]
  | cons cell cells ih =>
    obtain ⟨rounds, rfl⟩ := Nat.exists_eq_succ_of_ne_zero (Nat.ne_of_gt (Nat.lt_of_le_of_lt
      (Nat.zero_le _) enough))
    simp only [cons_append, List.head?_cons, Option.some.injEq] at starts
    subst starts
    obtain ⟨next, behind⟩ : ∃ next, (cells ++ [tail]).head? = some next := by
      cases cells with
      | nil => exact ⟨tail, rfl⟩
      | cons next rest => exact ⟨next, rfl⟩
    rw [cons_append, isChain_cons] at chain
    have link := (chain.1 next behind).1
    have rest := ih rounds (by simpa using enough) behind chain.2
    rw [visit, link]
    cases onlyfirst with
    | true => simp
    | false => simp [rest]

end Visit

theorem visit_waiters (cond : Condition Task) (onlyfirst : Bool) :
    ((cond.links.succ .header).bind fun first =>
      visit cond.links.succ onlyfirst (cond.waiters.length + 1) first) =
        some ((if onlyfirst then cond.waiters.take 1 else cond.waiters).map .waiter) := by
  have chain := cond.linked.chain
  rw [isChain_cons] at chain
  obtain ⟨first, starts⟩ : ∃ first,
      (cond.waiters.map WaiterNode.waiter ++ [WaiterNode.ending]).head? = some first := by
    cases cond.waiters with
    | nil => exact ⟨.ending, rfl⟩
    | cons task rest => exact ⟨.waiter task, rfl⟩
  have head := (chain.1 first starts).1
  rw [head, Option.bind_some, visit_cells (cond.waiters.length + 1) (by simp) starts chain.2
    cond.linked.ends onlyfirst]
  cases onlyfirst <;> simp [map_take]

theorem nodup_of_same_iff {added : List Task} {head : Option Task}
    (all : ∀ task ∈ added, head = some task) : added.Nodup <-> added.length <= 1 := by
  cases added with
  | nil => simp
  | cons first rest =>
    cases rest with
    | nil => simp
    | cons second rest =>
      have same := Option.some.inj ((all first (by simp)).symm.trans (all second (by simp)))
      simp [same]

/-! ## Operations -/

variable [DecidableEq Task]

/-- `NewList`: the two ends are linked to each other. -/
def emptyLinks : Links (WaiterNode Task) where
  succ := fun node => if node = .header then some .ending else none
  pred := fun node => if node = .ending then some .header else none

def init (signals : Task -> Nat -> Bool) : Condition Task where
  links := emptyLinks
  waiters := []
  linked := by
    refine ⟨?_, by simp, rfl⟩
    exact isChain_pair.mpr ⟨rfl, rfl⟩
  sigbit := fun _ => 0
  signals := signals
  signalled := []

def sigbCondFallback : Nat := 14

/--
The part of `_pthread_cond_timedwait` up to `Wait`, for a task that is not
queued yet: allocate a signal, and add the node at the end of the list.  A
signal that was allocated is clear; the fallback is left as it is, because
`SetSignal` is given an empty mask.
-/
def enqueue (cond : Condition Task) (task : Task) (allocated : Option Nat)
    (idle : task ∉ cond.waiters) : Condition Task :=
  { cond with
    links := cond.links.addTail .ending (.waiter task)
    waiters := cond.waiters ++ [task]
    linked := by
      have outside : WaiterNode.waiter task ∉
          .header :: (cond.waiters.map WaiterNode.waiter ++ [.ending]) := by
        simpa using idle
      rw [map_append]
      exact cond.linked.addTail outside
    sigbit := Function.update cond.sigbit task (allocated.getD sigbCondFallback)
    signals :=
      match allocated with
      | some bit =>
        Function.update cond.signals task (Function.update (cond.signals task) bit false)
      | none => cond.signals }

/-- The part of `_pthread_cond_timedwait` behind `pthread_mutex_lock`, for a
task that is queued: remove the node. -/
def dequeue (cond : Condition Task) (task : Task) (queued : task ∈ cond.waiters) :
    Condition Task :=
  { cond with
    links := cond.links.remove (.waiter task)
    waiters := cond.waiters.erase task
    linked := by
      obtain ⟨before, behind, fresh, parts, erased⟩ := exists_erase_eq queued
      have linked := cond.linked
      rw [parts, map_append, map_cons] at linked
      rw [erased, map_append]
      exact linked.remove }

/-- `Signal(waiter->task, 1 << waiter->sigbit)`. -/
def signalTask (cond : Condition Task) (task : Task) : Condition Task :=
  { cond with
    signals := Function.update cond.signals task
      (Function.update (cond.signals task) (cond.sigbit task) true)
    signalled := cond.signalled ++ [task] }

/-- `_pthread_cond_broadcast`, with rounds enough for every waiter and the end
of the list. -/
def condBroadcast (cond : Condition Task) (onlyfirst : Bool) : Option (Condition Task) :=
  (cond.links.succ .header).bind fun first =>
    (visit cond.links.succ onlyfirst (cond.waiters.length + 1) first).map fun nodes =>
      (nodes.filterMap taskOf).foldl signalTask cond

/-! ## What a broadcast signals -/

theorem condBroadcast_eq (cond : Condition Task) (onlyfirst : Bool) : cond.condBroadcast onlyfirst =
      some ((if onlyfirst then cond.waiters.take 1 else cond.waiters).foldl signalTask cond) := by
  have walk := cond.visit_waiters onlyfirst
  obtain ⟨first, head, rest⟩ := Option.bind_eq_some_iff.mp walk
  rw [condBroadcast, head, Option.bind_some, rest, Option.map_some, filterMap_map,
    show taskOf ∘ WaiterNode.waiter = some from rfl, filterMap_some]

theorem foldl_signalTask (tasks : List Task) (cond : Condition Task) :
    (tasks.foldl signalTask cond).signalled = cond.signalled ++ tasks /\
      (tasks.foldl signalTask cond).waiters = cond.waiters /\
      (tasks.foldl signalTask cond).sigbit = cond.sigbit := by
  induction tasks generalizing cond with
  | nil => simp
  | cons task tasks ih =>
    obtain ⟨log, queue, bits⟩ := ih (cond.signalTask task)
    refine ⟨?_, queue, bits⟩
    rw [foldl_cons, log]
    simp [signalTask]

theorem signals_foldl (tasks : List Task) (cond : Condition Task) (task : Task)
    (there : task ∈ tasks \/ cond.signals task (cond.sigbit task)) :
    (tasks.foldl signalTask cond).signals task (cond.sigbit task) := by
  induction tasks generalizing cond with
  | nil => simpa using there
  | cons other tasks ih =>
    refine ih (cond.signalTask other) ?_
    by_cases same : task = other
    · subst same
      right
      simp [signalTask]
    · simp only [mem_cons, same, false_or] at there
      refine there.imp_right fun already => ?_
      simp [signalTask, Function.update_of_ne same, already]

/-! ## Interleavings -/

/-- What may happen to a condition variable: a task begins to wait, a task that
waited has run again, or somebody signals. -/
inductive Event (Task : Type)
  | wait (task : Task) (allocated : Option Nat)
  | resume (task : Task)
  | signal
  | broadcast
  deriving DecidableEq

def step (cond : Condition Task) : Event Task -> Option (Condition Task)
  | .wait task allocated =>
    if queued : task ∈ cond.waiters then none else some (cond.enqueue task allocated queued)
  | .resume task =>
    if queued : task ∈ cond.waiters then some (cond.dequeue task queued) else none
  | .signal => cond.condBroadcast true
  | .broadcast => cond.condBroadcast false

def Quiet (events : List (Event Task)) : Prop :=
  ∀ event ∈ events, event = .signal \/ ∃ task allocated, event = .wait task allocated

/-- As long as no waiter has run, all signals go to the first one. -/
theorem run_signals {cond next : Condition Task} {events : List (Event Task)}
    (queue : 0 < events.count .signal -> cond.waiters ≠ []) (quiet : Quiet events)
    (ran : run step cond events = some next) :
    ∃ added, next.signalled = cond.signalled ++ added /\
      added.length = events.count .signal /\ ∀ task ∈ added, cond.waiters.head? = some task := by
  induction events generalizing cond with
  | nil =>
    cases ran
    exact ⟨[], by simp, rfl, by simp⟩
  | cons event events ih =>
    have later : Quiet events := fun other mem => quiet other (mem_cons_of_mem _ mem)
    obtain ⟨middle, stepped, rest⟩ := Option.bind_eq_some_iff.mp ran
    rcases quiet event mem_cons_self with rfl | ⟨task, allocated, rfl⟩
    · rw [step, condBroadcast_eq, if_pos rfl, Option.some.injEq] at stepped
      have some := queue (by simp)
      obtain ⟨first, others, waiters⟩ := exists_cons_of_ne_nil some
      obtain ⟨log, same, -⟩ := foldl_signalTask (cond.waiters.take 1) cond
      rw [stepped] at log same
      obtain ⟨added, logged, length, all⟩ := ih (fun _ => by rwa [same]) later rest
      refine ⟨first :: added, ?_, ?_, ?_⟩
      · rw [logged, log, waiters]
        simp
      · rw [length_cons, length, count_cons_self]
      · intro task mem
        rcases mem_cons.mp mem with rfl | mem
        · rw [waiters, List.head?_cons]
        · rw [<- same]
          exact all task mem
    · rw [step] at stepped
      split at stepped
      · cases stepped
      · rename_i idle
        cases stepped
        have count : (Event.wait task allocated :: events).count .signal =
            events.count .signal := count_cons_of_ne (by simp)
        rw [count] at queue ⊢
        obtain ⟨added, logged, length, all⟩ := ih (fun _ => by simp [enqueue]) later rest
        refine ⟨added, logged, length, fun other mem => ?_⟩
        have some := queue (by rw [<- length]; exact length_pos_of_mem mem)
        obtain ⟨first, others, waiters⟩ := exists_cons_of_ne_nil some
        have head := all other mem
        simp only [enqueue, waiters, cons_append, List.head?_cons] at head ⊢
        exact head

/--
With `m` waiters queued, `k` signals sent before any of them has run again, with
any number of others beginning to wait in between, go to `k` different waiters
exactly if `k` is at most one; a broadcast is sent to all `m`, in order.
-/
theorem cond_signal_distinct_iff (cond : Condition Task) (k : Nat)
    (enough : k <= cond.waiters.length) {events : List (Event Task)} (quiet : Quiet events)
    (signals : events.count .signal = k) {next : Condition Task}
    (ran : run step cond events = some next) :
    ((∃ added, next.signalled = cond.signalled ++ added /\ added.length = k /\
      added.Nodup) <-> k <= 1) /\
    ∃ after, step cond .broadcast = some after /\
      after.signalled = cond.signalled ++ cond.waiters /\
      ∀ task ∈ cond.waiters, after.signals task (cond.sigbit task) := by
  constructor
  · have queue : 0 < events.count .signal -> cond.waiters ≠ [] := by
      intro some
      exact length_pos_iff.mp (by omega)
    obtain ⟨added, logged, length, all⟩ := run_signals queue quiet ran
    have differ := nodup_of_same_iff all
    rw [length, signals] at differ
    constructor
    · rintro ⟨others, loggedToo, -, nodup⟩
      have same := append_cancel_left (loggedToo.symm.trans logged)
      rw [same] at nodup
      exact differ.mp nodup
    · intro few
      exact ⟨added, logged, length.trans signals, differ.mpr few⟩
  · refine ⟨cond.waiters.foldl signalTask cond, ?_, (foldl_signalTask cond.waiters cond).1, ?_⟩
    · rw [step, condBroadcast_eq, if_neg Bool.false_ne_true]
    · intro task mem
      exact signals_foldl cond.waiters cond task (Or.inl mem)

/-- Two tasks queued on a condition variable, each with a signal of its own. -/
def twoWaiters : Option (Condition Bool) :=
  run step (init fun _ _ => false) [.wait true (some 16), .wait false (some 17)]

/-- One signal for two waiters. -/
theorem cond_signal_once : ∃ cond next : Condition Bool, twoWaiters = some cond /\
      run step cond [.signal] = some next /\
      (∃ added, next.signalled = cond.signalled ++ added /\ added.length = 1 /\
        added.Nodup) := by
  have ends : (twoWaiters.bind fun cond =>
      (run step cond [.signal]).map fun _ => cond.waiters) = some [true, false] := by
    decide +kernel
  obtain ⟨cond, queued, rest⟩ := Option.bind_eq_some_iff.mp ends
  obtain ⟨next, ran, waiters⟩ := Option.map_eq_some_iff.mp rest
  have two : cond.waiters.length = 2 := by rw [waiters]; rfl
  refine ⟨cond, next, queued, ran, ?_⟩
  exact (cond_signal_distinct_iff cond 1 (by omega) (by simp [Quiet]) rfl ran).1.mpr (le_refl 1)

/-- Two signals for two waiters both go to the first. -/
theorem cond_signal_twice_same_waiter :
    (twoWaiters.bind fun cond => (run step cond [.signal, .signal]).map signalled) =
      some [true, true] := by
  decide +kernel

/-! ## No wake-up is lost -/

section

variable {cond next : Condition Task} {task : Task}

def Reaches (cond : Condition Task) (task : Task) (event : Event Task) : Prop :=
  event = .broadcast \/ event = .signal /\ cond.waiters.head? = some task

/-- A task that does not run stays in the queue, where it is first if it was, and keeps
its signal. -/
theorem step_keeps {event : Event Task} (queued : task ∈ cond.waiters)
    (asleep : event ≠ .resume task) (stepped : cond.step event = some next) :
    task ∈ next.waiters /\ (cond.waiters.head? = some task -> next.waiters.head? = some task) /\
      (cond.Reaches task event \/ cond.signals task (cond.sigbit task) ->
        next.signals task (next.sigbit task)) := by
  -- both functions signal a part of the queue
  have signals (tasks : List Task) (there : task ∈ tasks \/
      cond.signals task (cond.sigbit task)) :
      (tasks.foldl signalTask cond).signals task ((tasks.foldl signalTask cond).sigbit task) =
        true := by
    rw [(foldl_signalTask tasks cond).2.2]
    exact signals_foldl tasks cond task there
  cases event with
  | wait waiter allocated =>
    rw [step] at stepped
    split at stepped
    · cases stepped
    · rename_i idle
      cases stepped
      have differ : task ≠ waiter := fun same => idle (same ▸ queued)
      refine ⟨mem_append_left _ queued, fun first => ?_, fun there => ?_⟩
      · simp [enqueue, first]
      · have already : cond.signals task (cond.sigbit task) := by
          simpa [Reaches] using there
        cases allocated <;> simp [enqueue, Function.update_of_ne differ, already]
  | resume waiter =>
    rw [step] at stepped
    split at stepped
    · cases stepped
      have differ : task ≠ waiter := fun same => asleep (same ▸ rfl)
      refine ⟨(mem_erase_of_ne differ).mpr queued, fun first => ?_, fun there => ?_⟩
      · rcases List.head?_eq_some_iff.mp first with ⟨others, waiters⟩
        simp [dequeue, waiters, differ]
      · simpa [Reaches, dequeue] using there
    · cases stepped
  | signal =>
    rw [step, condBroadcast_eq, if_pos rfl, Option.some.injEq] at stepped
    subst stepped
    rw [(foldl_signalTask _ cond).2.1]
    refine ⟨queued, id, fun there => signals _ (there.imp_left fun reached => ?_)⟩
    rcases List.head?_eq_some_iff.mp (reached.resolve_left (by simp)).2 with ⟨others, waiters⟩
    simp [waiters]
  | broadcast =>
    rw [step, condBroadcast_eq, if_neg Bool.false_ne_true, Option.some.injEq] at stepped
    subst stepped
    rw [(foldl_signalTask _ cond).2.1]
    exact ⟨queued, id, fun there => signals _ (there.imp_left fun _ => queued)⟩

/-- Whoever waits when a broadcast is sent, or is the first when a signal is, finds the
signal set, whatever the others do before it runs. -/
theorem wake_up_not_lost {events : List (Event Task)} (queued : task ∈ cond.waiters)
    (asleep : .resume task ∉ events)
    (sent : (∃ event ∈ events, cond.Reaches task event) \/
      cond.signals task (cond.sigbit task))
    (ran : run step cond events = some next) :
    task ∈ next.waiters /\ next.signals task (next.sigbit task) := by
  induction events generalizing cond with
  | nil =>
    cases ran
    exact ⟨queued, sent.resolve_left (by simp)⟩
  | cons event events ih =>
    rcases Option.bind_eq_some_iff.mp ran with ⟨middle, stepped, rest⟩
    rw [mem_cons, not_or] at asleep
    rcases step_keeps queued (Ne.symm asleep.1) stepped with ⟨still, first, kept⟩
    refine ih still asleep.2 ?_ rest
    rcases sent with ⟨sender, mem, reaches⟩ | already
    · rcases mem_cons.mp mem with rfl | later
      · exact Or.inr (kept (Or.inl reaches))
      · exact Or.inl ⟨sender, later, reaches.imp_right fun both => ⟨both.1, first both.2⟩⟩
    · exact Or.inr (kept (Or.inr already))

end

theorem wake_up_of_second : ∃ cond next : Condition Bool, twoWaiters = some cond /\
      run step cond [.signal, .broadcast, .resume true] = some next /\
      next.signals false (next.sigbit false) := by
  have ends : (twoWaiters.bind fun cond => (run step cond [.signal, .broadcast, .resume true]).map
      fun _ => cond.waiters) = some [true, false] := by
    decide +kernel
  rcases Option.bind_eq_some_iff.mp ends with ⟨cond, queued, rest⟩
  rcases Option.map_eq_some_iff.mp rest with ⟨next, ran, waiters⟩
  exact ⟨cond, next, queued, ran, (wake_up_not_lost (by simp [waiters]) (by decide)
    (Or.inl ⟨.broadcast, by simp, Or.inl rfl⟩) ran).2⟩

end Condition

end Clib4.Pthread
