import NetWorth.Calendar.Date

/-! Evenly spaced dates of a period, with its last day always among them if the budget allows. -/
namespace NetWorth

inductive Interval
  | daily
  | weekly
  | monthly
  | yearly
  deriving DecidableEq

namespace Interval

/-- The date after a number of intervals, counted from the start so that month ends do not drift. -/
def nth (i : Interval) (start : Date) (index : Nat) : CivilDate :=
  match i with
  | daily => start.addDays index
  | weekly => start.addDays (7 * index)
  | monthly => start.addMonths index
  | yearly => start.addMonths (12 * index)

/-- Intervals are counted in unsigned words of 32 bits, and so are the months of years. -/
def Counts (i : Interval) (index : Nat) : Prop :=
  index < UInt32.size ∧ (i = yearly → 12 * index < UInt32.size)

instance (i : Interval) (index : Nat) : Decidable (i.Counts index) :=
  inferInstanceAs (Decidable (_ ∧ _))

def nth? (i : Interval) (start : Date) (index : Nat) : Option Date :=
  if i.Counts index then Date.ofCivil? (i.nth start index) else none

end Interval

structure Timeline where
  start : Date
  stop : Date
  interval : Interval
  budget : UInt64
  deriving DecidableEq

namespace Timeline

/-- The sample dates from a given index on, up to the end of the period or of the budget. -/
def regularFrom (t : Timeline) : Nat → Nat → List Date
  | 0, _ => []
  | budget + 1, index =>
    match t.interval.nth? t.start index with
    | some date => if date ≤ t.stop then date :: regularFrom t budget (index + 1) else []
    | none => []

/-- The regular sample dates, and then the last day if it is not one of them. -/
def dates (t : Timeline) : List Date :=
  if t.stop < t.start then []
  else
    let regular := t.regularFrom t.budget.toNat 0
    if regular.length < t.budget.toNat ∧ regular.getLast? ≠ some t.stop then regular ++ [t.stop]
    else regular

end Timeline

end NetWorth
