import NetWorth.Error
import NetWorth.Flow

/-! Possessions: what somebody owns or owes, with a value that follows a law of its kind. Moving a
possession to a later date gives it the value that the law has for that date. Labels around a
possession leave all this to it. -/
namespace NetWorth

/-- A yearly rate of appreciation, or of depreciation when it is negative. -/
structure Rate where
  value : Float
  finite : value.isFinite = true
  deriving DecidableEq

namespace Rate

def ofFloat (x : Float) : Except ValidationError Rate :=
  if h : x.isFinite = true then .ok ⟨x, h⟩ else .error (.invalidRate x)

/-- A value after a number of years, linear in them and rounded toward zero. -/
def appreciate (r : Rate) (value : Amount) (years : Int) : Amount :=
  clampedWholePart (nearestFloat value.toInt * (1.0 + r.value * nearestFloat years))

end Rate

inductive Law
  | asset (rate : Rate)
  | cash
  | debt
  | flow (flow : Flow)
  deriving DecidableEq

namespace Law

def kind : Law → String
  | asset _ => "materiel"
  | cash => "argent"
  | debt => "dette"
  | flow _ => "flux_argent"

/-- The value on a date of something that was worth `value` on an earlier one. Assets gain with
every turn of the year, flows with every payment; cash and debts stay. -/
def carry (law : Law) (since : Date) (value : Amount) (date : Date) : Amount :=
  match law with
  | asset rate => rate.appreciate value (since.yearsUntil date)
  | cash | debt => value
  | flow f => f.carry since value date

end Law

/-- Something owned or owed under a name. Its value is the one on the date since which it is held.
-/
structure Holding where
  name : String
  since : Date
  value : Amount
  law : Law
  deriving DecidableEq

namespace Holding

/-- Its value on a date, which is zero as long as it is not held. -/
def valueOn (h : Holding) (date : Date) : Amount :=
  if h.since ≤ date then h.law.carry h.since h.value date else 0

/-- The holding as of a later date. An earlier date leaves it as it is. -/
def moveTo (h : Holding) (date : Date) : Holding :=
  if h.since ≤ date then { h with since := date, value := h.valueOn date } else h

end Holding

inductive Possession
  | plain (holding : Holding)
  | labeled (label : String) (inner : Possession)
  deriving DecidableEq

namespace Possession

def asset (name : String) (since : Date) (value : Amount) (rate : Float) :
    Except ValidationError Possession :=
  (Rate.ofFloat rate).map fun r => .plain ⟨name, since, value, .asset r⟩

def cash (name : String) (since : Date) (value : Amount) : Possession :=
  .plain ⟨name, since, value, .cash⟩

/-- A debt, whose value is negative whatever the sign of the amount. -/
def debt (name : String) (since : Date) (amount : Amount) : Possession :=
  .plain ⟨name, since, Amount.nearest (-amount.magnitude.toInt), .debt⟩

def flow (name : String) (since stop : Date) (value amount : Amount) (day : Nat) :
    Except DateFault Possession :=
  (Flow.ofDay stop amount day).map fun f => .plain ⟨name, since, value, .flow f⟩

def label (p : Possession) (label : String) : Possession := .labeled label p

def labelName (label name : String) : String := label ++ ": " ++ name

def name : Possession → String
  | plain h => h.name
  | labeled label inner => labelName label inner.name

def since : Possession → Date
  | plain h => h.since
  | labeled _ inner => inner.since

def value : Possession → Amount
  | plain h => h.value
  | labeled _ inner => inner.value

def law : Possession → Law
  | plain h => h.law
  | labeled _ inner => inner.law

def kind : Possession → String
  | plain h => h.law.kind
  | labeled _ inner => inner.kind

def valueOn : Possession → Date → Amount
  | plain h, date => h.valueOn date
  | labeled _ inner, date => inner.valueOn date

def moveTo : Possession → Date → Possession
  | plain h, date => plain (h.moveTo date)
  | labeled label inner, date => labeled label (inner.moveTo date)

def heldOn (p : Possession) (date : Date) : Bool := p.since ≤ date

theorem name_label (p : Possession) (label : String) :
    (p.label label).name = labelName label p.name := rfl

/-- It does not matter whether a possession is labeled before or after it is moved. -/
theorem label_moveTo (p : Possession) (label : String) (date : Date) :
    (p.moveTo date).label label = (p.label label).moveTo date := rfl

/-- Moving a possession to a date does not change whether it is held there. -/
theorem heldOn_moveTo (p : Possession) (date : Date) :
    (p.moveTo date).heldOn date = p.heldOn date := by
  induction p with
  | plain h =>
    by_cases hheld : h.since ≤ date
    · have hmoved : h.moveTo date = { h with since := date, value := h.valueOn date } :=
        if_pos hheld
      have hdate : date ≤ date := Date.le_def.mpr (Int.le_refl _)
      rw [moveTo, hmoved]
      exact (decide_eq_true hdate).trans (decide_eq_true hheld).symm
    · have hmoved : h.moveTo date = h := if_neg hheld
      rw [moveTo, hmoved]
  | labeled label inner ih => exact ih

end Possession

end NetWorth
