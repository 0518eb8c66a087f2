import Mathlib.Data.Finset.Card
import Mathlib.Data.Finset.Insert

namespace Foundation

/-!
# Threads that share a lock

Each thread is at a place of its program, and one of them may own a lock.
`Exclusive` says that the owner is the thread at a critical place, and
`Collected` that a finite set is made of the threads at places of some kind.
The rules say how both survive a step of one thread.
-/

variable {Thread Place : Type}

/-- A thread is at a critical place exactly if it owns the lock. -/
def Exclusive (critical : Place -> Bool) (place : Thread -> Place) (owner : Option Thread) :
    Prop :=
  ∀ thread, critical (place thread) <-> owner = some thread

namespace Exclusive

variable {critical : Place -> Bool} {place next : Thread -> Place} {owner : Option Thread}
  {thread : Thread}

/-- No thread enters or leaves a critical place. -/
theorem stay (excl : Exclusive critical place owner)
    (same : ∀ other, critical (next other) = critical (place other)) :
    Exclusive critical next owner := by
  intro other
  rw [same other]
  exact excl other

theorem acquire (excl : Exclusive critical place none)
    (enters : critical (next thread))
    (same : ∀ other, other ≠ thread -> critical (next other) = critical (place other)) :
    Exclusive critical next (some thread) := by
  intro other
  by_cases this : other = thread
  · subst this
    simp [enters]
  · rw [same other this, excl other]
    simp [Ne.symm this]

theorem release (excl : Exclusive critical place (some thread))
    (leaves : critical (next thread) = false)
    (same : ∀ other, other ≠ thread -> critical (next other) = critical (place other)) :
    Exclusive critical next none := by
  intro other
  by_cases this : other = thread
  · subst this
    simp [leaves]
  · rw [same other this, excl other]
    simp [Ne.symm this]

end Exclusive

def Collected (kind : Place -> Bool) (place : Thread -> Place) (threads : Finset Thread) : Prop :=
  ∀ thread, thread ∈ threads <-> kind (place thread)

namespace Collected

variable {kind : Place -> Bool} {place next : Thread -> Place} {threads : Finset Thread}
  {thread : Thread}

theorem stay (collected : Collected kind place threads)
    (same : ∀ other, kind (next other) = kind (place other)) :
    Collected kind next threads := by
  intro other
  rw [same other]
  exact collected other

variable [DecidableEq Thread]

theorem insert (collected : Collected kind place threads) (arrives : kind (next thread))
    (same : ∀ other, other ≠ thread -> kind (next other) = kind (place other)) :
    Collected kind next (Insert.insert thread threads) := by
  intro other
  rw [Finset.mem_insert]
  by_cases this : other = thread
  · subst this
    simp [arrives]
  · rw [same other this, collected other]
    simp [this]

theorem erase (collected : Collected kind place threads) (leaves : kind (next thread) = false)
    (same : ∀ other, other ≠ thread -> kind (next other) = kind (place other)) :
    Collected kind next (threads.erase thread) := by
  intro other
  rw [Finset.mem_erase]
  by_cases this : other = thread
  · subst this
    simp [leaves]
  · rw [same other this, collected other]
    simp [this]

end Collected

end Foundation
