import NetWorth.Estate

/-! Objectives: what an estate has to have reached by a date. Whatever can be checked of an estate
may be one. Scenarios declare two of them, that the net worth or one possession comes to an amount.
-/
namespace NetWorth

/-- Something to be reached by a date. Checking an estate gives nothing where it is met, and the
reason where it is missed. -/
structure Objective where
  describe : String
  date : Date
  shortfall? : Estate → Option String

namespace Objective

/-- The net worth has to be at least an amount on a date. -/
def aggregate (target : Amount) (date : Date) : Objective where
  describe := "aggregate >= " ++ Numeral.text target.toInt ++ " on " ++ date.text
  date
  shortfall? e :=
    let actual := (e.moveTo date).aggregate
    if target ≤ actual then none
    else some ("aggregate on " ++ date.text ++ " is " ++ Numeral.text actual.toInt)

def absence (name : String) (date : Date) : String :=
  "possession '" ++ name ++ "' is absent on " ++ date.text

def shortage (name : String) (date : Date) (actual : Amount) : String :=
  "'" ++ name ++ "' on " ++ date.text ++ " is " ++ Numeral.text actual.toInt

/-- A named possession has to be held on a date, and to be worth at least an amount there. -/
def possession (name : String) (target : Amount) (date : Date) : Objective where
  describe := "'" ++ name ++ "' >= " ++ Numeral.text target.toInt ++ " on " ++ date.text
  date
  shortfall? e :=
    match (e.moveTo date).held.find? fun p => p.name = name with
    | none => some (absence name date)
    | some p => if target ≤ p.value then none else some (shortage name date p.value)

end Objective

end NetWorth
