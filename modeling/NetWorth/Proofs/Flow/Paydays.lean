import Mathlib.Data.Finset.Card
import NetWorth.Possession
import NetWorth.Proofs.Flow

/-! The payments of a flow, date by date. The number that is found from the months between two dates
is that of the dates after the first and up to the second on which the flow pays. -/
namespace NetWorth

namespace Flow
variable {f : Flow} {a b x : Date}

/-- The flow pays on its day of the month, or on the last day of a month that is shorter. -/
def PaysOn (f : Flow) (x : Date) : Prop := x.day = min f.day (daysInMonth x.year x.month)

/-- A flow pays on a day exactly if this is its payday of the month. -/
theorem paysOn_iff : f.PaysOn x ↔ f.payday x.monthNumber = x.toCivilDate := by
  rw [CivilDate.ext_iff]
  simp only [payday, CivilDate.inMonth, ← CivilDate.year_eq, ← CivilDate.month_eq, true_and, PaysOn]
  exact eq_comm

/-- No two months share a payday. -/
theorem payday_inj {m n : Int} (h : f.payday m = f.payday n) : m = n := by
  rw [← f.monthNumber_payday m, h, monthNumber_payday]

/-- What is paid by a date is what falls into the months that are paid for by then. -/
theorem payday_le_iff (f : Flow) (month : Int) (x : Date) :
    f.payday month ≤ x.toCivilDate ↔ month < f.paidThrough x := by
  unfold paidThrough
  rcases Int.lt_trichotomy month x.monthNumber with hlt | rfl | hgt
  · have hbefore := f.payday_lt hlt
    rw [CivilDate.lt_def] at hbefore
    rw [CivilDate.le_def]
    split <;> omega
  · split
    · rename_i hpaid
      exact iff_of_true hpaid (by omega)
    · rename_i hpaid
      exact iff_of_false hpaid (by omega)
  · have hafter : x.toCivilDate < f.payday month := by
      apply CivilDate.lt_of_monthNumber_lt
      rwa [monthNumber_payday]
    rw [CivilDate.lt_def] at hafter
    rw [CivilDate.le_def]
    split <;> omega

theorem paidThrough_mono (f : Flow) (h : a ≤ b) : f.paidThrough a ≤ f.paidThrough b := by
  have hnonneg := f.payments_nonneg a b
  rw [f.payments_eq h] at hnonneg
  omega

theorem lt_payments_iff (f : Flow) (a b : Date) (i : Nat) :
    i < (f.payments a b).toNat ↔ f.paidThrough a + i < f.paidThrough b := by
  rcases le_total a b with h | h
  · have hmono := f.paidThrough_mono h
    rw [f.payments_eq h]
    omega
  · have hmono := f.paidThrough_mono h
    rw [f.payments_of_le h]
    omega

def paydays (f : Flow) (after upTo : Date) : Finset Date :=
  (Finset.range (f.payments after upTo).toNat).filterMap
    (fun i : Nat => Date.ofCivil? (f.payday (f.paidThrough after + i))) fun i j x hi hj => by
      rw [Option.mem_def, Date.ofCivil?_eq_some_iff] at hi hj
      have hmonth := payday_inj (hi.symm.trans hj)
      omega

/-- The days on which a flow pays, found month by month, are all there are. -/
theorem mem_paydays_iff : x ∈ f.paydays a b ↔ a < x ∧ x ≤ b ∧ f.PaysOn x := by
  rw [paysOn_iff, paydays, Finset.mem_filterMap]
  simp only [Finset.mem_range, f.lt_payments_iff, Date.ofCivil?_eq_some_iff]
  constructor
  · rintro ⟨i, hb, hx⟩
    have ha : f.paidThrough a ≤ f.paidThrough a + i := by omega
    rw [← f.payday_le_iff, ← hx] at hb
    rw [← not_lt, ← f.payday_le_iff, ← hx] at ha
    refine ⟨not_le.mp ha, hb, ?_⟩
    rw [hx, monthNumber_payday]
  · rintro ⟨ha, hb, hx⟩
    have hafter : f.paidThrough a ≤ x.monthNumber := by
      rw [← not_lt, ← f.payday_le_iff, hx]
      exact not_le.mpr ha
    obtain ⟨i, hi⟩ := Int.le.dest hafter
    refine ⟨i, ?_, ?_⟩
    · rw [hi, ← f.payday_le_iff, hx]
      exact hb
    · rw [hi, hx]

/-- The months of the paydays are those that are counted, without a gap. -/
theorem image_monthNumber_paydays (f : Flow) (a b : Date) :
    (f.paydays a b).image (fun x => x.monthNumber) =
      (Finset.range (f.payments a b).toNat).image (fun i : Nat => f.paidThrough a + i) := by
  ext month
  simp only [paydays, Finset.mem_image, Finset.mem_filterMap, Date.ofCivil?_eq_some_iff,
    Finset.mem_range, f.lt_payments_iff]
  constructor
  · rintro ⟨x, ⟨i, hi, hx⟩, rfl⟩
    exact ⟨i, hi, by rw [hx, monthNumber_payday]⟩
  · rintro ⟨i, hb, rfl⟩
    have hi := hb
    have ha : f.paidThrough a ≤ f.paidThrough a + i := by omega
    rw [← f.payday_le_iff] at hb
    rw [← not_lt, ← f.payday_le_iff, CivilDate.le_def] at ha
    -- between two dates of the calendar there is no day outside it
    have hafter : a.toCivilDate ≤ f.payday (f.paidThrough a + i) :=
      Int.le_of_lt (Int.not_le.mp ha)
    obtain ⟨x, hx⟩ := Date.exists_of_between hafter hb
    exact ⟨x, ⟨i, hi, hx⟩, by rw [hx, monthNumber_payday]⟩

/-- The months between two dates count the days on which a flow pays there. -/
theorem payments_eq_card (f : Flow) (a b : Date) : f.payments a b = (f.paydays a b).card := by
  have hinj : Set.InjOn (fun x : Date => x.monthNumber) (f.paydays a b) := by
    intro x hx y hy hxy
    obtain ⟨_, _, hx⟩ := mem_paydays_iff.mp hx
    obtain ⟨_, _, hy⟩ := mem_paydays_iff.mp hy
    rw [paysOn_iff] at hx hy
    have hxy : x.monthNumber = y.monthNumber := hxy
    rw [hxy, hy] at hx
    exact Date.dayNumber_inj.mp (congrArg CivilDate.dayNumber hx.symm)
  have hshift : Function.Injective fun i : Nat => f.paidThrough a + (i : Int) := by
    intro i j hij
    have hij : f.paidThrough a + (i : Int) = f.paidThrough a + j := hij
    omega
  rw [← Finset.card_image_of_injOn hinj, image_monthNumber_paydays,
    Finset.card_image_of_injective _ hshift, Finset.card_range,
    Int.toNat_of_nonneg (f.payments_nonneg a b)]

end Flow

namespace Possession

/-- A flow is worth its value and its amount for every day after its own up to its last on which it
pays, whatever dates these are. -/
theorem valueOn_flow (name : String) (since stop : Date) (value amount : Amount) (day : Nat) :
    ((∃ p, flow name since stop value amount day = .ok p) ↔ 1 ≤ day ∧ day ≤ 31) ∧
    ∀ p, flow name since stop value amount day = .ok p → ∀ date,
      (date < since → p.valueOn date = 0) ∧
      (since ≤ date → ∃ paydays : Finset Date,
        (∀ x, x ∈ paydays ↔
          since < x ∧ x ≤ min date stop ∧ x.day = min day (daysInMonth x.year x.month)) ∧
        p.valueOn date = value.plus (amount.times paydays.card)) := by
  unfold flow Flow.ofDay
  split
  · rename_i hday
    refine ⟨⟨fun _ => hday, fun _ => ⟨_, rfl⟩⟩, ?_⟩
    rintro p ⟨⟩ date
    refine ⟨fun h => if_neg (not_le.mpr h), fun h => ?_⟩
    refine ⟨Flow.paydays ⟨stop, amount, day, hday⟩ since (min date stop),
      fun x => Flow.mem_paydays_iff, ?_⟩
    rw [← Flow.payments_eq_card]
    exact if_pos h
  · rename_i hday
    refine ⟨⟨fun ⟨_, h⟩ => ?_, fun h => absurd h hday⟩, fun p h => ?_⟩
    · cases h
    · cases h

def monthEnd : Date := (Date.ofParts? 2024 1 31).get (by decide)

def leapDay : Date := (Date.ofParts? 2024 2 29).get (by decide)

/-- A rent from a month's end, due at the end of each month, is due once by the next one. -/
theorem valueOn_flow_leapDay : ∃ p, flow "rent" monthEnd .last 1000 (-10) 31 = .ok p ∧
    p.valueOn .first = 0 ∧ p.valueOn leapDay = 990 ∧
    ∃ paydays : Finset Date,
      (∀ x, x ∈ paydays ↔ monthEnd < x ∧ x ≤ min leapDay .last ∧
        x.day = min 31 (daysInMonth x.year x.month)) ∧
      p.valueOn leapDay = (1000 : Amount).plus ((-10 : Amount).times paydays.card) := by
  obtain ⟨haccepted, hvalues⟩ := valueOn_flow "rent" monthEnd .last 1000 (-10) 31
  obtain ⟨p, hp⟩ := haccepted.mpr (by decide)
  refine ⟨p, hp, (hvalues p hp .first).1 (by decide), ?_, (hvalues p hp leapDay).2 (by decide)⟩
  cases hp
  decide +kernel

end Possession
end NetWorth
