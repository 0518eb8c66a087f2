import Clib4.Foundation.MachineInt

namespace Clib4.Time

open Foundation List

/-!
# `clock_nanosleep`

With `TIMER_ABSTIME` the function sleeps for what is left until the request and
looks at the clock again.  Only a reading that is the request itself ends the
loop; after a later one a negative interval is handed to `nanosleep`.
-/

/-- `struct timespec`. -/
structure Timespec where
  sec : Int
  nsec : Int
deriving DecidableEq

namespace Timespec

def total (time : Timespec) : Int := time.sec * 10 ^ 9 + time.nsec

/-- The seconds are those of a `time_t`, and the nanoseconds less than a second. -/
structure Valid (time : Timespec) : Prop where
  sec : -2 ^ 31 <= time.sec /\ time.sec < 2 ^ 31
  nsec : 0 <= time.nsec /\ time.nsec < 10 ^ 9

def remaining (request now : Timespec) : Timespec :=
  let sec := signed 32 (request.sec - now.sec)
  let nsec := request.nsec - now.nsec
  if nsec < 0 then ⟨signed 32 (sec - 1), nsec + 10 ^ 9⟩ else ⟨sec, nsec⟩

end Timespec

/-- How a call ends: with 0, with -1 and `EINVAL`, or with -1 from `nanosleep`. -/
inductive SleepEnd
  | slept | invalid | failed
deriving DecidableEq

/-- The loop over readings of the clock: the intervals for `nanosleep`, of which
`sleeps` tells whether it succeeds, and the end of the loop, if it has one. -/
def sleepUntil (sleeps : Timespec -> Bool) (request : Timespec) :
    List Timespec -> List Timespec × Option SleepEnd
  | [] => ([], none)
  | now :: readings =>
    let interval := request.remaining now
    if interval.sec = 0 /\ interval.nsec = 0 then ([], some .slept)
    else if sleeps interval then
      let (intervals, ending) := sleepUntil sleeps request readings
      (interval :: intervals, ending)
    else ([interval], some .failed)

inductive ClockId
  | monotonic | realtime | other
deriving DecidableEq

def timerAbstime : Int := 1

def clockNanosleep (sleeps : Timespec -> Bool) (clock : ClockId) (flags : Int)
    (request : Timespec) (readings : List Timespec) : List Timespec × Option SleepEnd :=
  if request.nsec < 0 \/ 10 ^ 9 <= request.nsec then ([], some .invalid)
  else if clock = .other then ([], some .invalid)
  else if flags = timerAbstime then sleepUntil sleeps request readings
  else if flags = 0 then ([request], some (if sleeps request then .slept else .failed))
  else ([], some .invalid)

def early (request : Timespec) (readings : List Timespec) : List Timespec :=
  readings.takeWhile fun now => now.total < request.total

/-- The call sleeps for what is left from each reading before the request, and
returns 0 at the next one. -/
def Awaits (request : Timespec) (readings : List Timespec)
    (result : List Timespec × Option SleepEnd) : Prop :=
  result.1.map Timespec.total =
      (early request readings).map (fun now => request.total - now.total) /\
    result.2 = if early request readings = readings then none else some .slept

variable {request now : Timespec}

theorem remaining_eq (valid : request.Valid) (got : now.Valid) :
    request.remaining now = ⟨signed 32 ((request.total - now.total) / 10 ^ 9),
      (request.total - now.total) % 10 ^ 9⟩ := by
  have requested := valid.nsec
  have read := got.nsec
  unfold Timespec.remaining Timespec.total
  dsimp only
  split_ifs with borrow
  · have sec : signed 32 (signed 32 (request.sec - now.sec) - 1) =
        signed 32 (request.sec - now.sec - 1) :=
      signed_congr ((signed_modEq 32 _).sub_right 1)
    rw [sec]
    congr 2 <;> omega
  · congr 2 <;> omega

theorem remaining_eq_zero_iff (valid : request.Valid) (got : now.Valid) :
    (request.remaining now).sec = 0 /\ (request.remaining now).nsec = 0 <-> now = request := by
  have bounds := valid.sec
  have requested := valid.nsec
  have bounds' := got.sec
  have read := got.nsec
  constructor
  · rw [remaining_eq valid got]
    dsimp only
    rintro ⟨sec, nsec⟩
    have multiple := (signed_modEq 32 ((request.total - now.total) / 10 ^ 9)).symm
    rw [sec, Int.modEq_zero_iff_dvd] at multiple
    unfold Timespec.total at multiple nsec
    cases request
    cases now
    dsimp only at *
    congr 1 <;> omega
  · rintro rfl
    simp [Timespec.remaining, signed]

theorem total_remaining_iff (valid : request.Valid) (got : now.Valid)
    (before : now.total < request.total) :
    (request.remaining now).total = request.total - now.total <->
      request.total - now.total < 2 ^ 31 * 10 ^ 9 := by
  have pos : 0 < request.total - now.total := by omega
  rw [remaining_eq valid got]
  generalize request.total - now.total = left at pos ⊢
  change signed 32 (left / 10 ^ 9) * 10 ^ 9 + left % 10 ^ 9 = left <-> _
  constructor
  · intro same
    have most : signed 32 (left / 10 ^ 9) < 2 ^ 31 := signed_lt 31 _
    omega
  · intro short
    have fits : signed 32 (left / 10 ^ 9) = _ := signed_of_fits (by omega) (by omega)
    omega

/-- The call is right when each reading before the request is less than `2 ^ 31`
seconds before it, and the first reading that is not is the request itself. -/
theorem clock_nanosleep_awaits_iff {sleeps : Timespec -> Bool}
    (sleep : ∀ interval : Timespec, 0 < interval.total -> sleeps interval)
    {clock : ClockId} (known : clock ≠ .other) (valid : request.Valid)
    {readings : List Timespec} (read : ∀ now ∈ readings, now.Valid) :
    Awaits request readings (clockNanosleep sleeps clock timerAbstime request readings) <->
      (∀ now ∈ early request readings, request.total - now.total < 2 ^ 31 * 10 ^ 9) /\
        ∀ now ∈ readings[(early request readings).length]?, now = request := by
  have nsec := valid.nsec
  rw [clockNanosleep, if_neg (by omega), if_neg known, if_pos rfl]
  induction readings with
  | nil => simp [Awaits, early, sleepUntil]
  | cons now readings ih =>
    obtain ⟨got, others⟩ := forall_mem_cons.mp read
    have zero := remaining_eq_zero_iff valid got
    unfold sleepUntil
    by_cases before : now.total < request.total
    · have first : early request (now :: readings) = now :: early request readings :=
        takeWhile_cons_of_pos (decide_eq_true before)
      have exact := total_remaining_iff valid got before
      have differs : now ≠ request := by
        rintro rfl
        omega
      rw [if_neg (mt zero.mp differs)]
      unfold Awaits
      rw [first]
      by_cases short : request.total - now.total < 2 ^ 31 * 10 ^ 9
      · have sleeping := sleep (request.remaining now) (by rw [exact.mpr short]; omega)
        rw [if_pos sleeping]
        have rest := ih others
        simp only [map_cons, exact.mpr short, List.cons.injEq, true_and, forall_mem_cons,
          short, length_cons, List.getElem?_cons_succ]
        exact rest
      · refine iff_of_false ?_ fun both => short (both.1 now mem_cons_self)
        split_ifs
        all_goals
          rintro ⟨intervals, _⟩
          exact short (exact.mp (List.cons.inj intervals).1)
    · have none : early request (now :: readings) = [] :=
        takeWhile_cons_of_neg (by simpa using before)
      unfold Awaits
      rw [none]
      by_cases same : now = request
      · rw [if_pos (zero.mpr same)]
        simp [same]
      · refine iff_of_false ?_ fun both => same (both.2 now rfl)
        rw [if_neg (mt zero.mp same)]
        split_ifs
        all_goals
          rintro ⟨intervals, _⟩
          cases intervals

theorem clock_nanosleep_awaits_two : Awaits ⟨5, 0⟩ [⟨3, 10⟩, ⟨5, 0⟩]
    (clockNanosleep (fun _ => true) .realtime timerAbstime ⟨5, 0⟩ [⟨3, 10⟩, ⟨5, 0⟩]) :=
  (clock_nanosleep_awaits_iff (fun _ _ => rfl) (by decide) ⟨by decide, by decide⟩
    (by rintro now (_ | ⟨_, _ | ⟨_, ⟨⟩⟩⟩) <;> exact ⟨by decide, by decide⟩)).mpr
      ⟨by decide, by decide⟩

/-- A nanosecond after the request an interval of -1 nanoseconds is slept. -/
theorem clock_nanosleep_oversleeps :
    clockNanosleep (fun interval => 0 < interval.total) .realtime timerAbstime ⟨5, 0⟩ [⟨5, 1⟩] =
      ([⟨-1, 999999999⟩], some .failed) := by
  decide

end Clib4.Time
