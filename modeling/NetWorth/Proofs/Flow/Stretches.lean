import NetWorth.Proofs.Flow
import NetWorth.Proofs.Possession

/-! Flows that are moved on from date to date. Each move starts a new stretch, and what the
stretches pay is what the flow pays over all of them at once: no payment is lost or counted twice at
a seam. The value comes out the same too, as long as an amount can hold all the payments together.
-/
namespace NetWorth

theorem FitsWord.of_mul_le {a m n : Int} (h : FitsWord (a * n)) (hm : 0 ≤ m) (hmn : m ≤ n) :
    FitsWord (a * m) := by
  rw [fitsWord_iff] at h ⊢
  rcases Int.le_total 0 a with ha | ha
  · have hlow := Int.mul_nonneg ha hm
    have hhigh := Int.mul_le_mul_of_nonneg_left hmn ha
    omega
  · have hlow := Int.mul_le_mul_of_nonpos_left ha hmn
    have hhigh := Int.mul_nonpos_of_nonpos_of_nonneg ha hm
    omega

namespace Possession
variable {p : Possession} {f : Flow} {between stop date : Date} {stops : List Date}

/-- How often a flow pays by a date, after the date since which it is held and up to its last day.
-/
def paymentsBy (p : Possession) (date : Date) : Int :=
  match p.law with
  | .flow f => f.payments p.since (min date f.stop)
  | .asset _ | .cash | .debt => 0

/-- How often it pays on the way through some dates, moved to each of them in turn. -/
def paymentsThrough (p : Possession) : List Date → Int
  | [] => 0
  | date :: dates => p.paymentsBy date + (p.moveTo date).paymentsThrough dates

/-- How often a flow pays by a date is limited by its last day. -/
theorem paymentsBy_eq (hlaw : p.law = .flow f) (date : Date) :
    p.paymentsBy date = f.payments p.since (min date f.stop) := by
  unfold paymentsBy
  rw [hlaw]

theorem paymentsBy_nonneg (p : Possession) (date : Date) : 0 ≤ p.paymentsBy date := by
  unfold paymentsBy
  split
  · exact Flow.payments_nonneg _ _ _
  · exact Int.le_refl 0
  · exact Int.le_refl 0
  · exact Int.le_refl 0

/-- Where a flow is moved on, one stretch ends and the next one begins. -/
theorem paymentsBy_add (hheld : p.since ≤ between) (h : between ≤ date) :
    p.paymentsBy between + (p.moveTo between).paymentsBy date = p.paymentsBy date := by
  unfold paymentsBy
  rw [law_moveTo, since_moveTo_of_held hheld]
  cases p.law with
  | flow f => exact f.payments_add_stop hheld h
  | asset | cash | debt => exact Int.add_zero 0

/-- Once a flow is moved to the first of some dates, the others still lie ahead of it. -/
theorem ahead_of_moveTo (h : (p.since :: (stop :: stops ++ [date])).Pairwise (· ≤ ·)) :
    p.since ≤ stop ∧ stop ≤ date ∧
      ((p.moveTo stop).since :: (stops ++ [date])).Pairwise (· ≤ ·) := by
  obtain ⟨hafter, hrest⟩ := List.pairwise_cons.mp h
  have hheld : p.since ≤ stop := hafter stop List.mem_cons_self
  rw [since_moveTo_of_held hheld]
  exact ⟨hheld, (List.pairwise_cons.mp hrest).1 date List.mem_concat_self, hrest⟩

/-- No payment is lost or counted twice on the way. -/
theorem paymentsThrough_concat (h : (p.since :: (stops ++ [date])).Pairwise (· ≤ ·)) :
    p.paymentsThrough (stops ++ [date]) = p.paymentsBy date := by
  induction stops generalizing p with
  | nil => exact Int.add_zero _
  | cons stop stops ih =>
    obtain ⟨hheld, hstop, hahead⟩ := ahead_of_moveTo h
    rw [List.cons_append, paymentsThrough, ih hahead, paymentsBy_add hheld hstop]

/-- A flow that is moved to a date in between has the same value later. -/
theorem valueOn_moveTo (hlaw : p.law = .flow f) (hheld : p.since ≤ between) (h : between ≤ date)
    (hfits : FitsWord (f.amount.toInt * p.paymentsBy date)) :
    (p.moveTo between).valueOn date = p.valueOn date := by
  rw [paymentsBy_eq hlaw] at hfits
  apply valueOn_moveTo_of_carry hheld h
  rw [hlaw]
  exact (f.carry_carry_iff p.value hheld h).mpr fun hover => hover.overflow hfits

/-- Nor does it matter how many dates in between it is moved to. -/
theorem valueOn_foldl_moveTo (hlaw : p.law = .flow f)
    (h : (p.since :: (stops ++ [date])).Pairwise (· ≤ ·))
    (hfits : FitsWord (f.amount.toInt * p.paymentsBy date)) :
    (stops.foldl moveTo p).valueOn date = p.valueOn date := by
  induction stops generalizing p with
  | nil => rfl
  | cons stop stops ih =>
    obtain ⟨hheld, hstop, hahead⟩ := ahead_of_moveTo h
    -- What is left to pay fits if the whole does.
    have hleft : (p.moveTo stop).paymentsBy date ≤ p.paymentsBy date := by
      have hadd := paymentsBy_add hheld hstop
      have hpaid := p.paymentsBy_nonneg stop
      omega
    have hfits' := hfits.of_mul_le ((p.moveTo stop).paymentsBy_nonneg date) hleft
    rw [List.foldl_cons, ih ((p.law_moveTo stop).trans hlaw) hahead hfits',
      valueOn_moveTo hlaw hheld hstop hfits]

/-- Moved on through dates that follow each other, a flow pays on the way what it pays at once. It
is also worth the same in the end, provided that an amount can hold its payments. -/
theorem flow_composes (hlaw : p.law = .flow f)
    (h : (p.since :: (stops ++ [date])).Pairwise (· ≤ ·)) :
    p.paymentsThrough (stops ++ [date]) = f.payments p.since (min date f.stop) ∧
    (FitsWord (f.amount.toInt * f.payments p.since (min date f.stop)) →
      (stops.foldl moveTo p).valueOn date = p.valueOn date) := by
  rw [paymentsThrough_concat h, ← paymentsBy_eq hlaw]
  exact ⟨rfl, valueOn_foldl_moveTo hlaw h⟩

def yearEnd : Date := (Date.ofParts? 2023 12 31).get (by decide)

/-- The day before a payment at the end of a February, the day of it, and the day before the next.
-/
def aroundPaydays : List Date :=
  [(2, 28), (2, 29), (3, 30)].filterMap fun day => Date.ofParts? 2024 day.1 day.2

/-- An allowance that tops up what is nearly the greatest amount, at the end of each month. -/
theorem flow_composes_allowance : ∃ p f,
    flow "allowance" yearEnd .last 9223372036854775800 10 31 = .ok p ∧ p.law = .flow f ∧
    (p.since :: (aroundPaydays ++ [.last])).Pairwise (· ≤ ·) ∧
    FitsWord (f.amount.toInt * f.payments p.since (min .last f.stop)) ∧
    p.paymentsThrough (aroundPaydays ++ [.last]) = f.payments p.since (min .last f.stop) ∧
    (aroundPaydays.foldl moveTo p).valueOn .last = p.valueOn .last := by
  have hnew : ∃ p, flow "allowance" yearEnd .last 9223372036854775800 10 31 = .ok p := ⟨_, rfl⟩
  obtain ⟨p, hp⟩ := hnew
  have hflow : ∃ f, p.law = .flow f ∧ (p.since :: (aroundPaydays ++ [.last])).Pairwise (· ≤ ·) ∧
      FitsWord (f.amount.toInt * f.payments p.since (min .last f.stop)) := by
    cases hp
    exact ⟨_, rfl, by decide, by decide +kernel⟩
  obtain ⟨f, hlaw, hahead, hfits⟩ := hflow
  obtain ⟨hpaid, hvalue⟩ := flow_composes hlaw hahead
  exact ⟨p, f, hp, hlaw, hahead, hfits, hpaid, hvalue hfits⟩

end Possession
end NetWorth
