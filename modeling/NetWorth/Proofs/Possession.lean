import NetWorth.Estate
import NetWorth.Proofs.Calendar.Order

/-! What a possession keeps when it is moved to another date or put under a label. Labels can be
nested, so what is said of a possession is proved for a holding first and then handed on through the
labels around it: `valueOn_eq` and `moveTo_of_held`. -/
namespace NetWorth.Possession
variable {p : Possession} {between date : Date}

/-- The possession with another value as of another date, and the rest of it as it is. -/
def update : Possession → Date → Amount → Possession
  | plain h, date, value => plain { h with since := date, value }
  | labeled label inner, date, value => labeled label (inner.update date value)

section
variable (p : Possession) (date : Date) (value : Amount)

@[simp] theorem since_update : (p.update date value).since = date := by
  induction p with
  | plain h => rfl
  | labeled label inner ih => exact ih

@[simp] theorem value_update : (p.update date value).value = value := by
  induction p with
  | plain h => rfl
  | labeled label inner ih => exact ih

@[simp] theorem law_update : (p.update date value).law = p.law := by
  induction p with
  | plain h => rfl
  | labeled label inner ih => exact ih

@[simp] theorem update_update (later : Date) (other : Amount) :
    (p.update date value).update later other = p.update later other := by
  induction p with
  | plain h => rfl
  | labeled label inner ih => exact congrArg (labeled label) ih

end

/-- Under whatever labels, a possession is worth what its law makes of its value. -/
theorem valueOn_eq (p : Possession) (date : Date) :
    p.valueOn date = if p.since ≤ date then p.law.carry p.since p.value date else 0 := by
  induction p with
  | plain h => rfl
  | labeled label inner ih => exact ih

theorem valueOn_of_held (h : p.since ≤ date) :
    p.valueOn date = p.law.carry p.since p.value date := by
  rw [valueOn_eq, if_pos h]

theorem valueOn_of_not_held (h : ¬ p.since ≤ date) : p.valueOn date = 0 := by
  rw [valueOn_eq, if_neg h]

/-- Under whatever labels, moving a possession gives it the value that it has on the date. -/
theorem moveTo_of_held (h : p.since ≤ date) : p.moveTo date = p.update date (p.valueOn date) := by
  induction p with
  | plain holding => exact congrArg plain (if_pos h)
  | labeled label inner ih => exact congrArg (labeled label) (ih h)

/-- What is not held yet is left as it is. -/
theorem moveTo_of_not_held (h : ¬ p.since ≤ date) : p.moveTo date = p := by
  induction p with
  | plain holding => exact congrArg plain (if_neg h)
  | labeled label inner ih => exact congrArg (labeled label) (ih h)

theorem since_moveTo_of_held (h : p.since ≤ date) : (p.moveTo date).since = date := by
  rw [moveTo_of_held h, since_update]

theorem value_moveTo_of_held (h : p.since ≤ date) : (p.moveTo date).value = p.valueOn date := by
  rw [moveTo_of_held h, value_update]

@[simp] theorem law_moveTo (p : Possession) (date : Date) : (p.moveTo date).law = p.law := by
  by_cases h : p.since ≤ date
  · rw [moveTo_of_held h, law_update]
  · rw [moveTo_of_not_held h]

@[simp] theorem name_moveTo (p : Possession) (date : Date) : (p.moveTo date).name = p.name := by
  induction p with
  | plain h =>
    change (h.moveTo date).name = h.name
    unfold Holding.moveTo
    split <;> rfl
  | labeled label inner ih => exact congrArg (labelName label) ih

@[simp] theorem kind_label (p : Possession) (label : String) : (p.label label).kind = p.kind := rfl

/-- No label changes the kind of a possession. -/
theorem kind_eq (p : Possession) : p.kind = p.law.kind := by
  induction p with
  | plain h => rfl
  | labeled label inner ih => exact ih

@[simp] theorem kind_moveTo (p : Possession) (date : Date) : (p.moveTo date).kind = p.kind := by
  rw [kind_eq, kind_eq, law_moveTo]

/-- Nothing is of an earlier date than that to which it was moved. -/
theorem le_since_moveTo (p : Possession) (date : Date) : date ≤ (p.moveTo date).since := by
  by_cases h : p.since ≤ date
  · rw [since_moveTo_of_held h]
  · rw [moveTo_of_not_held h]
    exact le_of_not_ge h

/-- What moving a possession to a date changes is its date, and its value if that is another one. -/
theorem moveTo_eq_iff (h : p.since ≤ date) :
    p.moveTo date = p.update date p.value ↔ p.valueOn date = p.value := by
  rw [moveTo_of_held h]
  constructor
  · intro hsame
    simpa using congrArg value hsame
  · intro hvalue
    rw [hvalue]

/-- Moved to a date in between, a possession has the same value later if its law carries the value
over that date without loss. -/
theorem valueOn_moveTo_of_carry (hheld : p.since ≤ between) (h : between ≤ date)
    (hcarry : p.law.carry between (p.law.carry p.since p.value between) date =
      p.law.carry p.since p.value date) :
    (p.moveTo between).valueOn date = p.valueOn date := by
  rw [moveTo_of_held hheld, valueOn_eq, since_update, value_update, law_update, if_pos h,
    valueOn_of_held hheld, hcarry, valueOn_of_held (le_trans hheld h)]

/-- The possession as of a date, which is the possession itself if it is of that date already. -/
def restated (p : Possession) (date : Date) : Possession :=
  if p.since = date then p else p.moveTo date

theorem le_since_restated (p : Possession) (date : Date) : date ≤ (p.restated date).since := by
  unfold restated
  split
  · rename_i h
    exact le_of_eq h.symm
  · exact p.le_since_moveTo date

/-- What is acquired on a date or later has nothing to be restated to it. -/
theorem restated_of_le {p : Possession} {date : Date} (h : date ≤ p.since) :
    p.restated date = p := by
  unfold restated
  split
  · rfl
  · rename_i hne
    exact moveTo_of_not_held (not_le_of_gt (lt_of_le_of_ne h (Ne.symm hne)))

@[simp] theorem name_restated (p : Possession) (date : Date) :
    (p.restated date).name = p.name := by
  unfold restated
  split
  · rfl
  · exact p.name_moveTo date

end NetWorth.Possession
