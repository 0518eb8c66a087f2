import Clib4.Pthread.Barrier
import Mathlib.Tactic.Common

namespace Clib4.Pthread.Barrier

open Foundation

/-!
# The counter of a barrier

The counter counts up while a round fills and, with the flag set, down while it
drains.  What it stands for depends on where the owner of the mutex is; `Shape`
says what, for every place, and `Control.step` that every step keeps it so.
-/

variable {Thread : Type}

/-- The counter between two critical sections: it fills or drains. -/
def Stable (n total entries waiting : Nat) : Prop :=
  (total = barrierFlag + waiting /\ entries % n = 0 /\ waiting < n) \/
    (total = waiting /\ entries % n = waiting /\ 0 < waiting /\ waiting < n)

/-- What the counter stands for, with the owner of the mutex at a place. -/
def Shape (n total entries waiting : Nat) : Place -> Prop
  | .reset => Stable n total entries waiting /\ total <= barrierFlag
  | .enter => total = waiting /\ entries % n = waiting /\ waiting < n
  | .compare => total = waiting + 1 /\ entries % n = (waiting + 1) % n /\ waiting < n
  | .raise => total = n /\ entries % n = 0 /\ waiting + 1 = n
  | .leave => total = barrierFlag + waiting /\ entries % n = 0 /\ 0 < waiting /\ waiting < n
  | _ => Stable n total entries waiting

def State.holder (state : State Thread) : Place :=
  match state.owner with
  | none => .idle
  | some thread => state.place thread

/-- The mutex, the calls that wait and the counter fit together. -/
structure Control (n : Nat) (state : State Thread) (waiting : Finset Thread) : Prop where
  height : state.currHeight = n
  excl : Exclusive Place.critical state.place state.owner
  collected : Collected Place.waits state.place waiting
  shape : Shape n state.totalHeight state.entered.length waiting.card state.holder

section Moves

variable {n total : Nat} {state : State Thread} {waiting : Finset Thread} {thread : Thread}
  {place : Place}

namespace Control

theorem owner_eq (control : Control n state waiting)
    (critical : (state.place thread).critical) : state.owner = some thread :=
  (control.excl thread).mp critical

theorem shape_at (control : Control n state waiting)
    (critical : (state.place thread).critical) :
    Shape n state.totalHeight state.entered.length waiting.card (state.place thread) := by
  have shape := control.shape
  rw [State.holder, control.owner_eq critical] at shape
  exact shape

theorem broadcast (control : Control n state waiting) : Control n state.broadcast waiting where
  height := control.height
  excl := control.excl.stay (fun other => Place.critical_woken _)
  collected := control.collected.stay (fun other => Place.waits_woken _)
  shape := by
    have shape := control.shape
    unfold State.holder at shape ⊢
    cases owner : state.owner with
    | none =>
      simpa only [State.broadcast, owner] using shape
    | some holder =>
      rw [owner] at shape
      simp only [State.broadcast, owner]
      dsimp only at shape
      cases place : state.place holder <;> rw [place] at shape <;> exact shape

end Control

variable [DecidableEq Thread]

theorem goto_self : (state.goto thread place).place thread = place :=
  Function.update_self ..

theorem goto_other {other : Thread} (differ : other ≠ thread) :
    (state.goto thread place).place other = state.place other :=
  Function.update_of_ne differ ..

theorem kind_goto {kind : Place -> Bool} (same : kind place = kind (state.place thread))
    (other : Thread) : kind ((state.goto thread place).place other) = kind (state.place other) := by
  by_cases this : other = thread
  · subst this
    rw [goto_self, same]
  · rw [goto_other this]

namespace Control

section

variable (control : Control n state waiting)
include control

theorem quiet (before : (state.place thread).critical = false) (after : place.critical = false)
    (waits : place.waits = (state.place thread).waits) :
    Control n (state.goto thread place) waiting where
  height := control.height
  excl := control.excl.stay (kind_goto (after.trans before.symm))
  collected := control.collected.stay (kind_goto waits)
  shape := by
    have shape := control.shape
    unfold State.holder at shape ⊢
    cases owner : state.owner with
    | none =>
      simpa only [State.goto, owner] using shape
    | some holder =>
      have differ : holder ≠ thread := by
        intro same
        subst same
        have critical := (control.excl holder).mpr owner
        rw [before] at critical
        cases critical
      rw [owner] at shape
      simp only [State.goto, owner, Function.update_of_ne differ]
      exact shape

theorem inner {after : Finset Thread} (before : (state.place thread).critical)
    (critical : place.critical)
    (collected : Collected Place.waits (state.goto thread place).place after)
    (shape : Shape n total state.entered.length after.card place) :
    Control n { state.goto thread place with totalHeight := total } after where
  height := control.height
  excl := control.excl.stay (kind_goto (critical.trans before.symm))
  collected := collected
  shape := by
    have owner : (state.goto thread place).owner = some thread := control.owner_eq before
    simp only [State.holder, owner]
    rw [goto_self]
    exact shape

theorem acquire {next : State Thread} (taken : state.acquire thread place = some next)
    (after : place.critical) (waits : place.waits = (state.place thread).waits)
    (stable : ∀ total entries waiting, Shape n total entries waiting place = Stable n total
      entries waiting) : Control n next waiting := by
  unfold State.acquire at taken
  split at taken
  · rename_i free
    have owner := Option.isNone_iff_eq_none.mp free
    cases taken
    have excl := control.excl
    have shape := control.shape
    rw [owner] at excl
    rw [State.holder, owner] at shape
    refine ⟨control.height, ?_, control.collected.stay (kind_goto waits), ?_⟩
    · exact excl.acquire (by rw [goto_self]; exact after)
        (fun other differ => by rw [goto_other differ])
    · simp only [State.holder]
      rw [goto_self, stable]
      exact shape
  · cases taken

theorem release (before : (state.place thread).critical) (after : place.critical = false)
    (waits : place.waits = (state.place thread).waits)
    (stable : Shape n state.totalHeight state.entered.length waiting.card (state.place thread) =
      Stable n state.totalHeight state.entered.length waiting.card) :
    Control n (state.release thread place) waiting where
  height := control.height
  excl := by
    have excl := control.excl
    rw [control.owner_eq before] at excl
    exact excl.release (by rw [State.release, goto_self]; exact after)
      (fun other differ => by rw [State.release, goto_other differ])
  collected := control.collected.stay (kind_goto waits)
  shape := by
    have shape := control.shape_at before
    rw [stable] at shape
    exact shape

theorem count (small : n <= threadsMax) (before : state.place thread = .enter) :
    Control n (state.count thread) waiting where
  height := control.height
  excl := control.excl.stay (kind_goto (by rw [before]; rfl))
  collected := control.collected.stay (kind_goto (by rw [before]; rfl))
  shape := by
    have critical : (state.place thread).critical := by rw [before]; rfl
    have shape := control.shape_at critical
    have owner : (state.count thread).owner = some thread := control.owner_eq critical
    rw [before] at shape
    obtain ⟨total, entries, less⟩ := shape
    rw [State.holder, owner]
    change Shape _ _ _ _ ((state.goto thread .compare).place thread)
    rw [goto_self]
    refine ⟨?_, ?_, less⟩
    · change (state.totalHeight + 1) % 2 ^ 32 = _
      unfold threadsMax at small
      omega
    · change (state.entered ++ [_]).length % n = _
      rw [List.length_append, List.length_singleton, <- Nat.mod_add_mod, entries]

theorem wait (before : state.place thread = .compare)
    (more : state.totalHeight ≠ state.currHeight) :
    Control n (state.goto thread .enoughTest) (insert thread waiting) := by
  have critical : (state.place thread).critical := by rw [before]; rfl
  have shape := control.shape_at critical
  have outside : thread ∉ waiting := by
    intro inside
    have waits := (control.collected thread).mp inside
    rw [before] at waits
    cases waits
  rw [before] at shape
  obtain ⟨total, entries, less⟩ := shape
  rw [control.height] at more
  have room : waiting.card + 1 < n := by omega
  refine control.inner critical rfl ?_ ?_
  · exact control.collected.insert (by rw [goto_self]; rfl)
      (fun other differ => by rw [goto_other differ])
  · rw [Finset.card_insert_of_notMem outside]
    exact Or.inr ⟨total, by rw [<- Nat.mod_eq_of_lt room]; exact entries, Nat.succ_pos _, room⟩

theorem leave (small : n <= threadsMax) (before : state.place thread = .leave) : Control n
      { state.goto thread .lastTest with
        totalHeight := (state.totalHeight + (2 ^ 32 - 1)) % 2 ^ 32 }
      (waiting.erase thread) := by
  have critical : (state.place thread).critical := by rw [before]; rfl
  have shape := control.shape_at critical
  have inside := (control.collected thread).mpr (by rw [before]; rfl)
  rw [before] at shape
  obtain ⟨total, entries, some, less⟩ := shape
  refine control.inner critical rfl ?_ ?_
  · exact control.collected.erase (by rw [goto_self]; rfl)
      (fun other differ => by rw [goto_other differ])
  · rw [Finset.card_erase_of_mem inside]
    have lower : (state.totalHeight + (2 ^ 32 - 1)) % 2 ^ 32 =
        barrierFlag + (waiting.card - 1) := by
      unfold barrierFlag threadsMax at *
      omega
    exact Or.inl ⟨lower, entries, by omega⟩

theorem finish (value : Nat) (before : (state.place thread).critical)
    (waits : (state.place thread).waits = false)
    (stable : Shape n state.totalHeight state.entered.length waiting.card (state.place thread) =
      Stable n state.totalHeight state.entered.length waiting.card) :
    Control n (state.finish thread value) waiting := by
  have released : Control n (state.release thread .idle) waiting :=
    control.release before rfl waits.symm stable
  exact ⟨released.height, released.excl, released.collected, released.shape⟩

theorem onward (before : (state.place thread).critical) (critical : place.critical)
    (waits : place.waits = (state.place thread).waits)
    (shape : Shape n state.totalHeight state.entered.length waiting.card place) :
    Control n (state.goto thread place) waiting :=
  control.inner before critical (control.collected.stay (kind_goto waits)) shape

end

end Control

/-- Each step keeps the mutex, the calls that wait and the counter in order. -/
theorem Control.step (control : Control n state waiting) (pos : 0 < n)
    (small : n <= threadsMax) {next : State Thread}
    (stepped : Barrier.step state thread = some next) : ∃ waiting, Control n next waiting := by
  unfold Barrier.step at stepped
  have kinds : ∀ {place}, state.place thread = place ->
      (state.place thread).critical = place.critical /\
        (state.place thread).waits = place.waits := by
    rintro place rfl
    exact ⟨rfl, rfl⟩
  have shape : (state.place thread).critical -> _ := control.shape_at
  cases before : state.place thread <;> rw [before] at shape <;>
    simp only [before, Option.some.injEq] at stepped <;> obtain ⟨critical, waits⟩ := kinds before
  case idle | exitSleep | enoughSleep =>
    subst stepped
    exact ⟨waiting, control.quiet critical rfl waits.symm⟩
  case lock | exitRelock | enoughRelock =>
    exact ⟨waiting, control.acquire stepped rfl waits.symm (fun _ _ _ => rfl)⟩
  case exitTest =>
    have stable := shape rfl
    split at stepped
    · cases stepped
      exact ⟨waiting, control.release critical rfl waits.symm (by rw [before]; rfl)⟩
    · rename_i low
      cases stepped
      exact ⟨waiting, control.onward critical rfl waits.symm ⟨stable, not_lt.mp low⟩⟩
  case reset =>
    subst stepped
    refine ⟨waiting, control.inner critical rfl
      (control.collected.stay (kind_goto waits.symm)) ?_⟩
    rcases shape rfl with ⟨⟨total, entries, less⟩ | ⟨total, entries, some, less⟩, low⟩
    · have none : waiting.card = 0 := by omega
      rw [if_pos (by omega)]
      exact ⟨none.symm, by omega, less⟩
    · have differ : state.totalHeight ≠ barrierFlag := by
        unfold barrierFlag threadsMax at *
        omega
      rw [if_neg differ]
      exact ⟨total, entries, less⟩
  case enter =>
    subst stepped
    exact ⟨waiting, control.count small before⟩
  case compare =>
    split at stepped
    · rename_i filled
      cases stepped
      obtain ⟨total, entries, less⟩ : _ /\ _ /\ _ := shape rfl
      rw [control.height] at filled
      refine ⟨waiting, control.onward critical rfl waits.symm ⟨filled, ?_, by omega⟩⟩
      rw [entries, <- total, filled, Nat.mod_self]
    · rename_i more
      cases stepped
      exact ⟨_, control.wait before more⟩
  case raise =>
    subst stepped
    obtain ⟨total, entries, last⟩ : _ /\ _ /\ _ := shape rfl
    refine ⟨waiting, control.inner critical rfl
      (control.collected.stay (kind_goto waits.symm)) ?_⟩
    have raised : (state.totalHeight + (barrierFlag - 1)) % 2 ^ 32 =
        barrierFlag + waiting.card := by
      unfold barrierFlag threadsMax at *
      omega
    exact Or.inl ⟨raised, entries, by omega⟩
  case wakeWaiting | wakeEntering =>
    subst stepped
    refine ⟨waiting, control.broadcast.onward ?_ rfl ?_ (shape rfl)⟩ <;>
      simp only [State.broadcast, before] <;> rfl
  case unlockSerial | unlock =>
    subst stepped
    exact ⟨waiting, control.finish _ critical waits (by rw [before]; rfl)⟩
  case enoughTest =>
    have stable := shape rfl
    split at stepped
    · cases stepped
      exact ⟨waiting, control.release critical rfl waits.symm (by rw [before]; rfl)⟩
    · rename_i high
      cases stepped
      have inside := (control.collected thread).mpr waits
      have some := Finset.card_pos.mpr ⟨thread, inside⟩
      refine ⟨waiting, control.onward critical rfl waits.symm ?_⟩
      rcases stable with ⟨total, entries, less⟩ | ⟨total, entries, -, less⟩
      · exact ⟨total, entries, some, less⟩
      · unfold barrierFlag threadsMax at *
        omega
  case leave =>
    subst stepped
    exact ⟨_, control.leave small before⟩
  case lastTest =>
    split at stepped <;> cases stepped <;>
      exact ⟨waiting, control.onward critical rfl waits.symm (shape rfl)⟩

end Moves

end Clib4.Pthread.Barrier
