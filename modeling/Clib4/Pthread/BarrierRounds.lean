import Clib4.Pthread.BarrierCounter
import Clib4.Foundation.Run
import Mathlib.Order.Interval.Finset.Nat

namespace Clib4.Pthread.Barrier

open Foundation List

/-!
# Rounds of a barrier

The calls of a round are those with consecutive tickets.  `History` says that
each call is counted where its ticket says and returns behind the end of its
round; together with the counter it is kept by every step, and so holds in
every state that an interleaving leads to.
-/

variable {Thread : Type}

/-! ## Tickets and rounds -/

def roundEnd (n ticket : Nat) : Nat :=
  (ticket / n + 1) * n

section Arithmetic

variable {n ticket entries : Nat}

theorem roundEnd_eq (n ticket : Nat) : roundEnd n ticket = ticket - ticket % n + n := by
  have parts := Nat.div_add_mod ticket n
  have whole : ticket / n * n = ticket - ticket % n := by
    rw [Nat.mul_comm]
    omega
  rw [roundEnd, Nat.add_mul, Nat.one_mul, whole]

theorem lt_roundEnd (pos : 0 < n) (ticket : Nat) : ticket < roundEnd n ticket := by
  have small := Nat.mod_lt ticket pos
  rw [roundEnd_eq]
  omega

theorem eq_roundEnd (pos : 0 < n) (counted : ticket < entries)
    (within : entries <= roundEnd n ticket) (filled : entries % n = 0) :
    entries = roundEnd n ticket := by
  obtain ⟨rounds, rfl⟩ := Nat.dvd_of_mod_eq_zero filled
  unfold roundEnd at *
  rw [Nat.mul_comm n rounds] at *
  have lower := (Nat.div_lt_iff_lt_mul pos).mpr counted
  have upper := Nat.le_of_mul_le_mul_right within pos
  have same : rounds = ticket / n + 1 := by omega
  rw [same]

theorem succ_le_roundEnd (within : entries <= roundEnd n ticket) (open_ : entries % n ≠ 0) :
    entries + 1 <= roundEnd n ticket := by
  have differ : entries ≠ roundEnd n ticket := by
    intro same
    rw [same, roundEnd, Nat.mul_mod_left] at open_
    exact open_ rfl
  omega

theorem last_of_filled (pos : 0 < n) (last : ticket + 1 = entries)
    (filled : entries % n = 0) : ticket % n = n - 1 /\ roundEnd n ticket = entries := by
  have whole := eq_roundEnd pos (by omega : ticket < entries)
    (by have := lt_roundEnd pos ticket; omega) filled
  have le := Nat.mod_le ticket n
  refine ⟨?_, whole.symm⟩
  rw [roundEnd_eq] at whole
  omega

theorem not_last_of_open (pos : 0 < n) (last : ticket + 1 = entries)
    (open_ : entries % n ≠ 0) : ticket % n ≠ n - 1 /\ entries <= roundEnd n ticket := by
  have upper := lt_roundEnd pos ticket
  refine ⟨?_, by omega⟩
  intro final
  have le := Nat.mod_le ticket n
  have whole := roundEnd_eq n ticket
  have same : entries = roundEnd n ticket := by omega
  rw [same, roundEnd, Nat.mul_mod_left] at open_
  exact open_ rfl

end Arithmetic

/-! ## The history of calls -/

def TicketOk (n entries ticket : Nat) : Place -> Prop
  | .compare => ticket + 1 = entries
  | .raise => ticket + 1 = entries /\ entries % n = 0
  | .wakeWaiting | .unlockSerial => ticket % n = n - 1 /\ roundEnd n ticket <= entries
  | .enoughTest | .enoughSleep | .enoughRelock =>
    ticket % n ≠ n - 1 /\ ticket < entries /\ entries <= roundEnd n ticket
  | .leave | .lastTest | .wakeEntering | .unlock =>
    ticket % n ≠ n - 1 /\ roundEnd n ticket <= entries
  | _ => True

/--
The history of a barrier.  Each call is counted at the height its ticket says,
a counted call holds its ticket until it returns, and it returns behind the
end of its round.
-/
structure History (n : Nat) (state : State Thread) : Prop where
  heights : ∀ ticket thread height,
    state.entered[ticket]? = some (thread, height) -> height = ticket % n + 1
  held : ∀ thread, (state.place thread).counted ->
    ∃ height, state.entered[state.ticket thread]? = some (thread, height)
  tickets : ∀ thread,
    TicketOk n state.entered.length (state.ticket thread) (state.place thread)
  ended : ∀ ticket thread height, state.entered[ticket]? = some (thread, height) ->
    ((state.place thread).counted /\ state.ticket thread = ticket) \/
      roundEnd n ticket <= state.entered.length
  later : ∀ first second thread height height',
    state.entered[first]? = some (thread, height) ->
    state.entered[second]? = some (thread, height') -> first < second ->
    first / n < second / n
  returns : ∀ call ∈ state.returned, call.ticket < state.entered.length /\
    (call.value = barrierSerialThread <-> call.ticket % n = n - 1) /\
    roundEnd n call.ticket <= call.entries
  fresh : ∀ thread, (state.place thread).counted ->
    state.ticket thread ∉ state.returned.map Return.ticket
  once : (state.returned.map Return.ticket).Nodup

section Calls

variable {n : Nat} {state : State Thread} {waiting : Finset Thread} {thread : Thread}

namespace History

theorem relocate (history : History n state) {next : State Thread}
    (entered : next.entered = state.entered) (ticket : next.ticket = state.ticket)
    (returned : next.returned = state.returned)
    (counted : ∀ thread, (next.place thread).counted = (state.place thread).counted)
    (tickets : ∀ thread,
      TicketOk n state.entered.length (state.ticket thread) (next.place thread)) :
    History n next where
  heights := by rw [entered]; exact history.heights
  held := by
    intro thread
    rw [counted, entered, ticket]
    exact history.held thread
  tickets := by rw [entered, ticket]; exact tickets
  ended := by
    intro number thread
    rw [counted, entered, ticket]
    exact history.ended number thread
  later := by rw [entered]; exact history.later
  returns := by rw [entered, returned]; exact history.returns
  fresh := by
    intro thread
    rw [counted, ticket, returned]
    exact history.fresh thread
  once := by rw [returned]; exact history.once

theorem broadcast (history : History n state) : History n state.broadcast :=
  history.relocate rfl rfl rfl (fun thread => Place.counted_woken _)
    (fun thread => by
      change TicketOk n _ _ (state.place thread).woken
      have ticket := history.tickets thread
      cases place : state.place thread <;> rw [place] at ticket <;> exact ticket)

theorem ticketOk_succ {entries ticket : Nat} {place : Place}
    (ok : TicketOk n entries ticket place)
    (outside : place ≠ .compare /\ place ≠ .raise)
    (filling : place.waits -> entries % n ≠ 0) :
    TicketOk n (entries + 1) ticket place := by
  cases place with
  | idle | lock | exitTest | exitSleep | exitRelock | reset | enter => trivial
  | compare => exact absurd rfl outside.1
  | raise => exact absurd rfl outside.2
  | wakeWaiting | unlockSerial | leave | lastTest | wakeEntering | unlock =>
    exact ⟨ok.1, Nat.le_succ_of_le ok.2⟩
  | enoughTest | enoughSleep | enoughRelock =>
    exact ⟨ok.1, Nat.lt_succ_of_lt ok.2.1, succ_le_roundEnd ok.2.2 (filling rfl)⟩

variable {other : Thread}

/-- While a call is being counted, those that wait are of a round that is not
full. -/
theorem ticketOk_count (history : History n state) (ordered : Control n state waiting)
    (before : state.place thread = .enter) (differ : other ≠ thread) :
    TicketOk n (state.entered.length + 1) (state.ticket other) (state.place other) := by
  have critical : (state.place thread).critical := by rw [before]; rfl
  have notCritical : (state.place other).critical ≠ true := by
    intro also
    have owner := (ordered.owner_eq critical).symm.trans (ordered.owner_eq also)
    exact differ (Option.some.inj owner).symm
  refine ticketOk_succ (history.tickets other) ⟨?_, ?_⟩ ?_
  · intro there
    exact notCritical (by rw [there]; rfl)
  · intro there
    exact notCritical (by rw [there]; rfl)
  · intro waits
    have inside := (ordered.collected other).mpr waits
    have some := Finset.card_pos.mpr ⟨other, inside⟩
    have shape := ordered.shape_at critical
    rw [before] at shape
    have entries := shape.2.1
    omega

variable [DecidableEq Thread] {place : Place}

theorem goto (history : History n state) (place : Place)
    (counted : place.counted = (state.place thread).counted)
    (ticket : TicketOk n state.entered.length (state.ticket thread) place)
    {total : Nat} {owner : Option Thread} :
    History n { state.goto thread place with totalHeight := total, owner := owner } := by
  refine history.relocate rfl rfl rfl (kind_goto counted) ?_
  intro other
  by_cases this : other = thread
  · subst this
    rw [goto_self]
    exact ticket
  · rw [goto_other this]
    exact history.tickets other

theorem acquire (history : History n state) {next : State Thread}
    (taken : state.acquire thread place = some next)
    (counted : place.counted = (state.place thread).counted)
    (ticket : TicketOk n state.entered.length (state.ticket thread) place) :
    History n next := by
  unfold State.acquire at taken
  split at taken
  · cases taken
    exact history.goto place counted ticket
  · cases taken

theorem count_ticket_self : (state.count thread).ticket thread = state.entered.length :=
  Function.update_self ..

theorem count_ticket_other (differ : other ≠ thread) :
    (state.count thread).ticket other = state.ticket other :=
  Function.update_of_ne differ ..

theorem count_place_self : (state.count thread).place thread = .compare :=
  goto_self

theorem count_place_other (differ : other ≠ thread) :
    (state.count thread).place other = state.place other :=
  goto_other differ

theorem count_entered {ticket : Nat} {height : Nat}
    (found : (state.count thread).entered[ticket]? = some (other, height)) :
    state.entered[ticket]? = some (other, height) \/
      (ticket = state.entered.length /\ other = thread /\
        height = (state.totalHeight + 1) % 2 ^ 32) := by
  change (state.entered ++ [_])[ticket]? = _ at found
  rw [List.getElem?_append] at found
  split at found
  · exact Or.inl found
  · rename_i beyond
    obtain ⟨bound, same⟩ := List.getElem?_eq_some_iff.mp found
    rw [length_singleton] at bound
    have first : ticket - state.entered.length = 0 := by omega
    simp only [first, getElem_cons_zero, Prod.mk.injEq] at same
    exact Or.inr ⟨by omega, same.1.symm, same.2.symm⟩

theorem count (history : History n state) (ordered : Control n state waiting)
    (pos : 0 < n) (small : n <= threadsMax) (before : state.place thread = .enter) :
    History n (state.count thread) := by
  have outside : (state.place thread).counted = false := by rw [before]; rfl
  have length : (state.count thread).entered.length = state.entered.length + 1 :=
    length_append ..
  have critical : (state.place thread).critical := by rw [before]; rfl
  have shape := ordered.shape_at critical
  rw [before] at shape
  obtain ⟨total, entries, less⟩ : _ /\ _ /\ _ := shape
  -- The calls this thread has made before are over.
  have past : ∀ ticket height, state.entered[ticket]? = some (thread, height) ->
      roundEnd n ticket <= state.entered.length := by
    intro ticket height found
    refine (history.ended ticket thread height found).resolve_left ?_
    rintro ⟨counted, -⟩
    rw [outside] at counted
    cases counted
  constructor
  case heights =>
    intro ticket other height found
    rcases count_entered found with old | ⟨rfl, -, rfl⟩
    · exact history.heights ticket other height old
    · unfold threadsMax at small
      omega
  case held =>
    intro other counted
    by_cases this : other = thread
    · subst this
      rw [count_ticket_self]
      exact ⟨_, List.getElem?_concat_length ..⟩
    · rw [count_place_other this] at counted
      rw [count_ticket_other this]
      obtain ⟨height, found⟩ := history.held other counted
      refine ⟨height, ?_⟩
      change (state.entered ++ [_])[state.ticket other]? = _
      rw [List.getElem?_append_left (List.getElem?_eq_some_iff.mp found).1]
      exact found
  case tickets =>
    intro other
    rw [length]
    by_cases this : other = thread
    · subst this
      rw [count_place_self, count_ticket_self]
      rfl
    · rw [count_place_other this, count_ticket_other this]
      exact history.ticketOk_count ordered before this
  case ended =>
    intro ticket other height found
    rw [length]
    rcases count_entered found with old | ⟨rfl, rfl, -⟩
    · by_cases this : other = thread
      · subst this
        exact Or.inr (Nat.le_succ_of_le (past ticket height old))
      · rw [count_place_other this, count_ticket_other this]
        exact (history.ended ticket other height old).imp_right Nat.le_succ_of_le
    · left
      rw [count_place_self, count_ticket_self]
      exact ⟨rfl, rfl⟩
  case later =>
    intro first second other height height' found found' less
    rcases count_entered found' with old' | ⟨rfl, rfl, -⟩
    · rcases count_entered found with old | ⟨rfl, -, -⟩
      · exact history.later first second other height height' old old' less
      · have := (List.getElem?_eq_some_iff.mp old').1
        omega
    · rcases count_entered found with old | ⟨rfl, -, -⟩
      · exact (Nat.le_div_iff_mul_le pos).mpr (past first height old)
      · exact absurd less (lt_irrefl _)
  case returns =>
    intro call mem
    obtain ⟨counted, value, behind⟩ := history.returns call mem
    exact ⟨by rw [length]; omega, value, behind⟩
  case fresh =>
    intro other counted
    by_cases this : other = thread
    · subst this
      rw [count_ticket_self]
      intro mem
      obtain ⟨call, returned, same⟩ := mem_map.mp mem
      have := (history.returns call returned).1
      omega
    · rw [count_place_other this] at counted
      rw [count_ticket_other this]
      exact history.fresh other counted
  case once => exact history.once

theorem finish (history : History n state) {value : Nat}
    (counted : (state.place thread).counted)
    (serial : value = barrierSerialThread <-> state.ticket thread % n = n - 1)
    (behind : roundEnd n (state.ticket thread) <= state.entered.length) :
    History n (state.finish thread value) := by
  have place_self : (state.finish thread value).place thread = .idle := goto_self
  have place_other : ∀ other, other ≠ thread ->
      (state.finish thread value).place other = state.place other := fun _ => goto_other
  constructor
  case heights => exact history.heights
  case held =>
    intro other still
    by_cases this : other = thread
    · subst this
      rw [place_self] at still
      cases still
    · rw [place_other other this] at still
      exact history.held other still
  case tickets =>
    intro other
    by_cases this : other = thread
    · subst this
      rw [place_self]
      trivial
    · rw [place_other other this]
      exact history.tickets other
  case ended =>
    intro ticket other height found
    by_cases this : other = thread
    · subst this
      right
      rcases history.ended ticket other height found with ⟨-, same⟩ | past
      · exact same ▸ behind
      · exact past
    · rw [place_other other this]
      exact history.ended ticket other height found
  case later => exact history.later
  case returns =>
    intro call mem
    rcases mem_append.mp mem with old | new
    · exact history.returns call old
    · rw [mem_singleton] at new
      subst new
      obtain ⟨height, held⟩ := history.held _ counted
      exact ⟨(List.getElem?_eq_some_iff.mp held).1, serial, behind⟩
  case fresh =>
    intro other still
    by_cases this : other = thread
    · subst this
      rw [place_self] at still
      cases still
    · rw [place_other other this] at still
      obtain ⟨height, found⟩ := history.held other still
      obtain ⟨height', found'⟩ := history.held thread counted
      change state.ticket other ∉ (state.returned ++ [_]).map Return.ticket
      rw [map_append, mem_append, map_singleton, mem_singleton, not_or]
      refine ⟨history.fresh other still, fun same => ?_⟩
      rw [same, found'] at found
      cases found
      exact this rfl
  case once =>
    change ((state.returned ++ [_]).map Return.ticket).Nodup
    rw [map_append, map_singleton]
    exact nodup_append.mpr ⟨history.once, nodup_singleton _, fun ticket old other new => by
      rw [mem_singleton] at new
      subst new
      rintro rfl
      exact history.fresh thread counted old⟩

end History

/-- Each step keeps the history in order. -/
theorem History.step [DecidableEq Thread] (history : History n state)
    (ordered : Control n state waiting) (pos : 0 < n) (small : n <= threadsMax)
    {next : State Thread} (stepped : Barrier.step state thread = some next) : History n next := by
  unfold Barrier.step at stepped
  have ticket := history.tickets thread
  have shape : (state.place thread).critical -> _ := ordered.shape_at
  have kind : ∀ {place}, state.place thread = place ->
      (state.place thread).counted = place.counted := by
    rintro place rfl
    rfl
  cases before : state.place thread <;> rw [before] at ticket shape <;>
    simp only [before, Option.some.injEq] at stepped <;> have counted := kind before
  case idle | exitSleep | reset =>
    subst stepped
    exact history.goto _ (by exact counted.symm) (by trivial)
  case lock | exitRelock => exact history.acquire stepped counted.symm trivial
  case exitTest =>
    split at stepped <;> cases stepped <;>
      exact history.goto _ (by exact counted.symm) (by trivial)
  case enter =>
    subst stepped
    exact history.count ordered pos small before
  case compare =>
    obtain ⟨total, entries, less⟩ : _ /\ _ /\ _ := shape rfl
    have last : state.ticket thread + 1 = state.entered.length := ticket
    rw [ordered.height] at stepped
    split at stepped <;> rename_i filled <;> cases stepped
    · refine history.goto .raise counted.symm ⟨last, ?_⟩
      rw [entries, <- total, filled, Nat.mod_self]
    · have more : waiting.card + 1 < n := by omega
      have open_ : state.entered.length % n ≠ 0 := by
        rw [entries, Nat.mod_eq_of_lt more]
        exact Nat.succ_ne_zero _
      obtain ⟨notLast, within⟩ := not_last_of_open pos last open_
      exact history.goto .enoughTest counted.symm ⟨notLast, by omega, within⟩
  case raise =>
    subst stepped
    obtain ⟨last, filled⟩ : _ /\ _ := ticket
    obtain ⟨serial, whole⟩ := last_of_filled pos last filled
    exact history.goto .wakeWaiting counted.symm ⟨serial, le_of_eq whole⟩
  case wakeWaiting | wakeEntering =>
    subst stepped
    refine history.broadcast.goto _ ?_ (by exact ticket)
    simp only [State.broadcast, before]
    rfl
  case unlockSerial =>
    subst stepped
    exact history.finish counted (iff_of_true rfl ticket.1) ticket.2
  case enoughTest =>
    split at stepped <;> rename_i low <;> cases stepped
    · exact history.goto .enoughSleep counted.symm ticket
    · have stable := shape rfl
      obtain ⟨notLast, before_, within⟩ : _ /\ _ /\ _ := ticket
      refine history.goto .leave counted.symm ⟨notLast, ?_⟩
      rcases stable with ⟨-, filled, -⟩ | ⟨total, -, -, less⟩
      · exact le_of_eq (eq_roundEnd pos before_ within filled).symm
      · unfold barrierFlag threadsMax at *
        omega
  case enoughSleep | leave =>
    subst stepped
    exact history.goto _ (by exact counted.symm) (by exact ticket)
  case enoughRelock => exact history.acquire stepped counted.symm ticket
  case lastTest =>
    split at stepped <;> cases stepped <;>
      exact history.goto _ (by exact counted.symm) (by exact ticket)
  case unlock =>
    subst stepped
    exact history.finish counted (iff_of_false (by decide) ticket.1) ticket.2

end Calls

/-! ## Every interleaving -/

def State.returnsOf (state : State Thread) (n round : Nat) : List Return :=
  state.returned.filter fun call => call.ticket / n = round

/-- Those of them that returned `PTHREAD_BARRIER_SERIAL_THREAD`. -/
def State.serialsOf (state : State Thread) (n round : Nat) : List Return :=
  (state.returnsOf n round).filter fun call => call.value = barrierSerialThread

namespace History

variable {n : Nat} {state : State Thread}

variable {round : Nat} {call : Return}

theorem mem_returnsOf :
    call ∈ state.returnsOf n round <-> call ∈ state.returned /\ call.ticket / n = round := by
  simp [State.returnsOf]

theorem mem_serialsOf : call ∈ state.serialsOf n round <->
      call ∈ state.returnsOf n round /\ call.value = barrierSerialThread := by
  simp [State.serialsOf]

section

variable (history : History n state)
include history

theorem returnsOf_once (round : Nat) : ((state.returnsOf n round).map Return.ticket).Nodup :=
  history.once.sublist (filter_sublist.map _)

theorem serialsOf_le_one (round : Nat) : (state.serialsOf n round).length <= 1 := by
  have once : ((state.serialsOf n round).map Return.ticket).Nodup :=
    (history.returnsOf_once round).sublist (filter_sublist.map _)
  have same : (state.serialsOf n round).map Return.ticket =
      List.replicate (state.serialsOf n round).length (n * round + (n - 1)) := by
    rw [eq_replicate_iff]
    refine ⟨length_map .., ?_⟩
    intro ticket mem
    obtain ⟨call, serial, rfl⟩ := mem_map.mp mem
    obtain ⟨ofRound, last⟩ := mem_serialsOf.mp serial
    obtain ⟨returned, same⟩ := mem_returnsOf.mp ofRound
    have place := (history.returns call returned).2.1.mp last
    have parts := Nat.div_add_mod call.ticket n
    rw [same, place] at parts
    exact parts.symm
  rw [same, nodup_replicate] at once
  exact once

theorem mem_returnsOf_of_full (pos : 0 < n) (full : (state.returnsOf n round).length = n) :
    n * round + (n - 1) ∈ (state.returnsOf n round).map Return.ticket := by
  have once := history.returnsOf_once round
  have inside : ((state.returnsOf n round).map Return.ticket).toFinset ⊆
      Finset.Ico (n * round) (n * round + n) := by
    intro ticket mem
    rw [mem_toFinset] at mem
    obtain ⟨call, ofRound, rfl⟩ := mem_map.mp mem
    obtain ⟨-, same⟩ := mem_returnsOf.mp ofRound
    have parts := Nat.div_add_mod call.ticket n
    have small := Nat.mod_lt call.ticket pos
    rw [same] at parts
    rw [Finset.mem_Ico]
    omega
  have whole := Finset.eq_of_subset_of_card_le inside (by
    rw [toFinset_card_of_nodup once, length_map, Nat.card_Ico]
    omega)
  rw [<- mem_toFinset, whole, Finset.mem_Ico]
  omega

theorem serialsOf_of_full (pos : 0 < n) (full : (state.returnsOf n round).length = n) :
    (state.serialsOf n round).length = 1 := by
  obtain ⟨call, ofRound, ticket⟩ :=
    mem_map.mp (history.mem_returnsOf_of_full pos full)
  have last : call.ticket % n = n - 1 := by
    rw [ticket, Nat.mul_add_mod, Nat.mod_eq_of_lt (by omega)]
  have serial := (history.returns call (mem_returnsOf.mp ofRound).1).2.1.mpr last
  have mem := mem_serialsOf.mpr ⟨ofRound, serial⟩
  have some := length_pos_of_mem mem
  have one := history.serialsOf_le_one round
  omega

end

end History

theorem init_ordered {n : Nat} (pos : 0 < n) {start : State Thread}
    (started : init n = some start) : Control n start ∅ /\ History n start := by
  rw [init, if_neg (Nat.ne_of_gt pos)] at started
  cases started
  refine ⟨⟨rfl, ?_, ?_, ?_⟩, ?_⟩
  · intro thread
    simp [Place.critical]
  · intro thread
    simp [Place.waits]
  · exact Or.inl ⟨(Nat.add_zero _).symm, Nat.zero_mod n, pos⟩
  · constructor <;> simp [Place.counted, TicketOk]

variable [DecidableEq Thread]

/-- What every reachable state of a barrier satisfies. -/
theorem ordered_of_run {n : Nat} (pos : 0 < n) (small : n <= threadsMax)
    {start state : State Thread} (started : init n = some start) {schedule : List Thread}
    (ran : run step start schedule = some state) :
    (∃ waiting, Control n state waiting) /\ History n state := by
  have keeps : ∀ (state : State Thread) (thread : Thread) (next : State Thread),
      (∃ waiting, Control n state waiting) /\ History n state ->
      step state thread = some next ->
      (∃ waiting, Control n next waiting) /\ History n next := by
    rintro state thread next ⟨⟨waiting, control⟩, history⟩ stepped
    exact ⟨control.step pos small stepped, history.step control pos small stepped⟩
  obtain ⟨control, history⟩ := init_ordered pos started
  exact run_preserves keeps ⟨⟨∅, control⟩, history⟩ ran

/--
A barrier for `n` threads, in every state that any interleaving leads to: a
call returns only after all `n` tickets of its round were taken; at most one
call of a round returns `PTHREAD_BARRIER_SERIAL_THREAD`, and exactly one once
all have returned; a call is counted at the height that its place in its round
says, so that the count of a round is of its own calls alone; and the next call
of a thread is of a later round.
-/
theorem barrier_wait_rounds {n : Nat} (pos : 0 < n) (small : n <= threadsMax)
    {start state : State Thread} (started : init n = some start) (schedule : List Thread)
    (ran : run step start schedule = some state) :
    (∀ call ∈ state.returned, (call.ticket / n + 1) * n <= call.entries) /\
    (∀ round, (state.serialsOf n round).length <= 1 /\
      ((state.returnsOf n round).length = n -> (state.serialsOf n round).length = 1)) /\
    (∀ ticket thread height, state.entered[ticket]? = some (thread, height) ->
      height = ticket % n + 1) /\
    (∀ first second thread height height', state.entered[first]? = some (thread, height) ->
      state.entered[second]? = some (thread, height') -> first < second ->
      first / n < second / n) := by
  obtain ⟨-, history⟩ := ordered_of_run pos small started ran
  refine ⟨?_, ?_, history.heights, history.later⟩
  · intro call mem
    exact (history.returns call mem).2.2
  · intro round
    exact ⟨history.serialsOf_le_one round, history.serialsOf_of_full pos⟩

/-- One thread goes to sleep, the other fills the round, the first leaves. -/
def twoThreads : List Bool :=
  List.replicate 7 true ++ List.replicate 9 false ++ List.replicate 6 true

theorem barrier_wait_rounds_of_two : ∃ start state : State Bool, init 2 = some start /\
      run step start twoThreads = some state /\
      state.returned = [⟨1, barrierSerialThread, 2⟩, ⟨0, 0, 2⟩] /\
      ∀ call ∈ state.returned, (call.ticket / 2 + 1) * 2 <= call.entries := by
  have ends : ((init 2).bind fun start : State Bool =>
      (run step start twoThreads).map State.returned) =
        some [⟨1, barrierSerialThread, 2⟩, ⟨0, 0, 2⟩] := by
    decide +kernel
  obtain ⟨start, started, rest⟩ := Option.bind_eq_some_iff.mp ends
  obtain ⟨state, ran, returned⟩ := Option.map_eq_some_iff.mp rest
  exact ⟨start, state, started, ran, returned,
    (barrier_wait_rounds (by decide) (by decide) started twoThreads ran).1⟩

end Clib4.Pthread.Barrier
