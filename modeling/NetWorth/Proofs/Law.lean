import NetWorth.Possession
import NetWorth.Proofs.Decimal.Whole
import NetWorth.Proofs.Flow

/-! Values that are carried over a date in between. Cash and debts stay, and flows add up. The
second stretch of an asset is linear in its value at the beginning of that stretch, so it compounds
where both stretches have turns of the year. -/
namespace NetWorth

/-- An amount as the nearest float has it. -/
def Amount.viaFloat (a : Amount) : Amount := clampedWholePart (nearestFloat a.toInt)

namespace Rate
variable {r : Rate} {years more : Int}

theorem appreciate_of_isZero (a : Amount) (h : IsZero (r.value * nearestFloat years)) :
    r.appreciate a years = a.viaFloat := by
  unfold appreciate Amount.viaFloat
  rw [one_add_isZero h, nearestFloat_mul_one]

theorem appreciate_zero (r : Rate) (a : Amount) : r.appreciate a 0 = a.viaFloat :=
  appreciate_of_isZero a (isZero_mul r.finite (isFinite_nearestFloat 0) (.inr ⟨_, rfl⟩))

/-- At no rate, an asset is worth what its float is, after any number of years. -/
theorem appreciate_of_rate_zero (h : (r.value == 0) = true) (a : Amount) (years : Int) :
    r.appreciate a years = a.viaFloat :=
  appreciate_of_isZero a
    (isZero_mul r.finite (isFinite_nearestFloat years) (.inl (isZero_of_beq h)))

/-- What rounding to a float has done to a value makes no difference to a later one. -/
theorem appreciate_viaFloat (r : Rate) (a : Amount) (years : Int) :
    r.appreciate a.viaFloat years = r.appreciate a years := by
  unfold appreciate Amount.viaFloat
  rw [nearestFloat_idem]

/-- A value that was appreciated has come from a float. -/
theorem viaFloat_appreciate (r : Rate) (a : Amount) (years : Int) :
    (r.appreciate a years).viaFloat = r.appreciate a years :=
  clampedWholePart_idem _

/-- Two stretches are as good as one if the year does not turn in both of them, or at no rate. -/
theorem appreciate_appreciate (r : Rate) (a : Amount)
    (h : years = 0 ∨ more = 0 ∨ (r.value == 0) = true) :
    r.appreciate (r.appreciate a years) more = r.appreciate a (years + more) := by
  rcases h with rfl | rfl | hzero
  · rw [appreciate_zero, appreciate_viaFloat, Int.zero_add]
  · rw [appreciate_zero, viaFloat_appreciate, Int.add_zero]
  · rw [appreciate_of_rate_zero hzero (r.appreciate a years), viaFloat_appreciate,
      appreciate_of_rate_zero hzero, appreciate_of_rate_zero hzero]

end Rate

namespace Law

/-- Carried over a date in between, a value may come out different: the year turns in both stretches
of an asset that has a rate, or a flow is cut off. -/
def MayDrift (law : Law) (since : Date) (value : Amount) (between date : Date) : Prop :=
  match law with
  | asset rate => (rate.value == 0) = false ∧ since.year < between.year ∧ between.year < date.year
  | cash | debt => False
  | flow f => f.Overruns since value between date

/-- A value may be carried in two stretches, unless the law drifts over the day in between. -/
theorem carry_carry {law : Law} {value : Amount} {a b c : Date} (hab : a ≤ b) (hbc : b ≤ c)
    (h : ¬ law.MayDrift a value b c) :
    law.carry b (law.carry a value b) c = law.carry a value c := by
  cases law with
  | asset rate =>
    have hfirst := Date.year_mono hab
    have hsecond := Date.year_mono hbc
    have hyears : a.yearsUntil b + b.yearsUntil c = a.yearsUntil c := by
      unfold Date.yearsUntil
      omega
    have hstill : a.yearsUntil b = 0 ∨ b.yearsUntil c = 0 ∨ (rate.value == 0) = true := by
      by_contra hturns
      simp only [not_or, Bool.not_eq_true, Date.yearsUntil] at hturns
      exact h ⟨hturns.2.2, by omega, by omega⟩
    change rate.appreciate (rate.appreciate value (a.yearsUntil b)) (b.yearsUntil c) = _
    rw [rate.appreciate_appreciate value hstill, hyears]
    rfl
  | cash => rfl
  | debt => rfl
  | flow f => exact (f.carry_carry_iff value hab hbc).mpr h

end Law

end NetWorth
