import NetWorth.Amount
import NetWorth.Calendar.Fault

/-! Monthly flows of money: salaries, rents, subscriptions. A flow pays once in every month, on its
day or on the last day of a shorter month. -/
namespace NetWorth

/-- A monthly payment up to a last day. -/
structure Flow where
  stop : Date
  amount : Amount
  day : Nat
  day_mem : 1 ≤ day ∧ day ≤ 31
  deriving DecidableEq

namespace Flow

def ofDay (stop : Date) (amount : Amount) (day : Nat) : Except DateFault Flow :=
  if h : 1 ≤ day ∧ day ≤ 31 then .ok ⟨stop, amount, day, h⟩ else .error (.noSuchPaymentDay day)

def payday (f : Flow) (month : Int) : CivilDate :=
  CivilDate.inMonth month f.day f.day_mem.1

/-- The number of payments after one date and up to another. The months between the two have one
each; the first and the last are looked at by themselves. -/
def payments (f : Flow) (after upTo : Date) : Int :=
  if upTo ≤ after then 0
  else
    let first := after.monthNumber
    let last := upTo.monthNumber
    let inFirst :=
      if after.toCivilDate < f.payday first ∧ f.payday first ≤ upTo.toCivilDate then 1 else 0
    let inLast := if f.payday last ≤ upTo.toCivilDate then 1 else 0
    if first = last then inFirst else last - first - 1 + inFirst + inLast

/-- The value on a date of a flow that was worth `value` on an earlier one. Payments on the earlier
date are in that value already. -/
def carry (f : Flow) (since : Date) (value : Amount) (date : Date) : Amount :=
  value.plus (f.amount.times (f.payments since (min date f.stop)))

end Flow

end NetWorth
