import NetWorth.Calendar.Fault
import NetWorth.Word

/-! Shifts of a date by years, months, weeks and days. Every step is exact, with the day clamped to
the end of the month, and its result has to lie in the calendar. -/
namespace NetWorth

/-- The largest number of months that a date can be shifted by, in either direction. -/
def maxMonths : Nat := UInt32.size - 1

namespace Date

def shiftMonths (d : Date) (months : Int) : Except DateFault Date :=
  if maxMonths < months.natAbs then .error (.monthsOverflow months)
  else match ofCivil? (d.addMonths months) with
    | some r => .ok r
    | none => .error (.monthsOutOfRange d months)

def shiftYears (d : Date) (years : Int) : Except DateFault Date :=
  if FitsWord (years * 12) then d.shiftMonths (years * 12) else .error (.yearsOverflow years)

def shiftDays (d : Date) (days : Int) : Except DateFault Date :=
  match ofCivil? (d.addDays days) with
  | some r => .ok r
  | none => .error (.daysOutOfRange d days)

end Date

/-- A calendar offset; `negative` makes it count backward. -/
structure Offset where
  negative : Bool := false
  years : Int64 := 0
  months : Int64 := 0
  weeks : Int64 := 0
  days : Int64 := 0
  deriving DecidableEq

namespace Offset

def directed (o : Offset) (unit : OffsetUnit) (count : Int) : Except DateFault Int :=
  if !o.negative then .ok count
  else if FitsWord (-count) then .ok (-count)
  else .error (.negationOverflows unit count)

/-- The date at an offset: the years are added first, then the months, the weeks and the days, each
to the result of the step before. -/
def apply (o : Offset) (base : Date) : Except DateFault Date :=
  if FitsWord (o.weeks.toInt * 7) then do
    let date ← base.shiftYears (← o.directed .year o.years.toInt)
    let date ← date.shiftMonths (← o.directed .month o.months.toInt)
    let date ← date.shiftDays (← o.directed .week (o.weeks.toInt * 7))
    date.shiftDays (← o.directed .day o.days.toInt)
  else .error .weeksOverflow

end Offset

end NetWorth
