import Clib4.Foundation.Calendar

namespace Clib4.Time

open Foundation.Calendar

/-!
# Broken-down time

`struct tm` with the fields that show a date and a time set apart from those that
tell of the zone.  `Shows` relates the former to an instant of the calendar, given
in seconds since the first midnight of 1970.  An instant has one way to be shown,
and what is shown has one instant.
-/

/-- The fields of `struct tm` that show a date and a time. -/
@[ext]
structure DateTime where
  tmSec : Int
  tmMin : Int
  tmHour : Int
  tmMday : Int
  tmMon : Int
  tmYear : Int
  tmWday : Int
  tmYday : Int
deriving DecidableEq, Repr

/-- `struct tm`. -/
structure Tm extends DateTime where
  tmIsdst : Int
  tmGmtoff : Int
  tmZone : List Char
deriving DecidableEq, Repr

def unixEpoch : Int := 86400 * dayNumber 1970 1 1

theorem unixEpoch_eq : unixEpoch = 86400 * 719162 := by
  decide

namespace DateTime

/-- A date and time as `struct tm` holds it. -/
def ofCivil (civil : Civil) : DateTime where
  tmSec := civil.second
  tmMin := civil.minute
  tmHour := civil.hour
  tmMday := civil.day
  tmMon := civil.month - 1
  tmYear := civil.year - 1900
  tmWday := civil.weekday
  tmYday := civil.dayOfYear

theorem ofCivil_injective : Function.Injective ofCivil := by
  intro first second same
  have month := congrArg tmMon same
  have year := congrArg tmYear same
  simp only [ofCivil] at month year
  exact Civil.ext (by omega) (by omega) (congrArg tmMday same) (congrArg tmHour same)
    (congrArg tmMin same) (congrArg tmSec same)

/-- The fields show the instant `seconds` after the first midnight of 1970. -/
def Shows (fields : DateTime) (seconds : Int) : Prop :=
  ∃ civil : Civil, civil.seconds = unixEpoch + seconds /\ fields = ofCivil civil

namespace Shows

variable {first second : DateTime} {early late : Int}

theorem unique (shown : first.Shows early) (shown' : second.Shows early) : first = second := by
  obtain ⟨civil, counts, rfl⟩ := shown
  obtain ⟨civil', counts', rfl⟩ := shown'
  rw [Civil.seconds_injective (counts.trans counts'.symm)]

theorem instant_eq (shown : first.Shows early) (shown' : first.Shows late) : early = late := by
  obtain ⟨civil, counts, fields⟩ := shown
  obtain ⟨civil', counts', fields'⟩ := shown'
  rw [ofCivil_injective (fields.symm.trans fields')] at counts
  omega

end Shows

end DateTime

end Clib4.Time
