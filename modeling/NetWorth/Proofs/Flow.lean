import NetWorth.Flow
import NetWorth.Proofs.Amount
import NetWorth.Proofs.Calendar.Order

/-! Flows over several stretches of time. The payments of adjoining stretches add up, since those up
to a date are as many as the months that the flow has paid for by then. So carrying a value over a
date in between gives what carrying it at once gives, as long as no sum is cut off on the way. -/
namespace NetWorth.Flow
variable {f : Flow} {a b c : Date}

/-- The last month that is paid for on a date, as a count of months. -/
def paidThrough (f : Flow) (date : Date) : Int :=
  date.monthNumber + if f.payday date.monthNumber ≤ date.toCivilDate then 1 else 0

theorem monthNumber_payday (f : Flow) (month : Int) : (f.payday month).monthNumber = month :=
  CivilDate.monthNumber_inMonth _ _ _

theorem payday_lt (f : Flow) {month : Int} {date : CivilDate}
    (h : month < date.monthNumber) : f.payday month < date := by
  apply CivilDate.lt_of_monthNumber_lt
  rwa [monthNumber_payday]

/-- Payments are the months that are paid for at the end and were not at the beginning. -/
theorem payments_eq (f : Flow) (h : a ≤ b) :
    f.payments a b = f.paidThrough b - f.paidThrough a := by
  have hmonths := CivilDate.monthNumber_mono h
  unfold payments paidThrough
  split
  · rename_i hba
    rw [le_antisymm h hba, Int.sub_self]
  · rename_i hlt
    have hab : a.toCivilDate < b.toCivilDate := not_le.mp hlt
    rw [CivilDate.lt_def] at hab
    by_cases hm : a.monthNumber = b.monthNumber
    · -- The only payday is before, between or after the two dates.
      simp only [hm, if_true, CivilDate.le_def, CivilDate.lt_def]
      split <;> split <;> split <;> omega
    · -- In the first month nothing is left to pay on the later date.
      have hfirst := f.payday_lt (Int.lt_iff_le_and_ne.mpr ⟨hmonths, hm⟩)
      simp only [if_neg hm, CivilDate.le_def, CivilDate.lt_def] at hfirst ⊢
      split <;> split <;> split <;> omega

theorem payments_nonneg (f : Flow) (a b : Date) : 0 ≤ f.payments a b := by
  unfold payments
  split
  · exact Int.le_refl 0
  · rename_i hlt
    have hmonths := CivilDate.monthNumber_mono (le_of_lt (not_le.mp hlt))
    by_cases hm : a.monthNumber = b.monthNumber
    · simp only [hm, if_true]
      split <;> omega
    · simp only [if_neg hm]
      split <;> split <;> omega

/-- No payment is lost or counted twice where two stretches of time meet. -/
theorem payments_add (f : Flow) (hab : a ≤ b) (hbc : b ≤ c) :
    f.payments a b + f.payments b c = f.payments a c := by
  rw [f.payments_eq hab, f.payments_eq hbc, f.payments_eq (le_trans hab hbc)]
  omega

theorem payments_of_le (f : Flow) (h : b ≤ a) : f.payments a b = 0 := if_pos h

/-- The same with the last day of the flow as the limit of both stretches. -/
theorem payments_add_stop (f : Flow) (hab : a ≤ b) (hbc : b ≤ c) :
    f.payments a (min b f.stop) + f.payments b (min c f.stop) = f.payments a (min c f.stop) := by
  rcases le_total b f.stop with hstop | hstop
  · rw [min_eq_left hstop, f.payments_add hab (le_min hbc hstop)]
  · rw [min_eq_right hstop, min_eq_right (le_trans hstop hbc), f.payments_of_le hstop,
      Int.add_zero]

/-- Carried over a date in between, the value is cut off: payments fall into both stretches, they
lead away from the sign of the value, and no amount can hold all of them together. -/
structure Overruns (f : Flow) (since : Date) (value : Amount) (between date : Date) : Prop where
  before : 0 < f.payments since (min between f.stop)
  after : 0 < f.payments between (min date f.stop)
  opposed : value.toInt < 0 ∧ 0 < f.amount.toInt ∨ 0 < value.toInt ∧ f.amount.toInt < 0
  overflow : ¬ FitsWord (f.amount.toInt * f.payments since (min date f.stop))

/-- A value may be carried in two stretches exactly if it is not cut off in between. -/
theorem carry_carry_iff (f : Flow) (value : Amount) (hab : a ≤ b) (hbc : b ≤ c) :
    f.carry b (f.carry a value b) c = f.carry a value c ↔ ¬ f.Overruns a value b c := by
  have hbefore := f.payments_nonneg a (min b f.stop)
  have hafter := f.payments_nonneg b (min c f.stop)
  have hsum := f.payments_add_stop hab hbc
  unfold carry
  rw [← hsum, Amount.plus_plus_times_iff value f.amount hbefore hafter, hsum]
  apply not_congr
  constructor
  · rintro ⟨before, after, opposed, overflow⟩
    exact ⟨before, after, opposed, overflow⟩
  · rintro ⟨before, after, opposed, overflow⟩
    exact ⟨before, after, opposed, overflow⟩

end NetWorth.Flow
