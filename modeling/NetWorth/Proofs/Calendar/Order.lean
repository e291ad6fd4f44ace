import Mathlib.Order.Defs.LinearOrder
import NetWorth.Calendar.Date

/-! Dates in linear order. -/
namespace NetWorth

instance : LinearOrder Date where
  le_refl a := Int.le_refl a.dayNumber
  le_trans _ _ _ hab hbc := Int.le_trans hab hbc
  lt_iff_le_not_ge a b := by
    rw [Date.lt_def, Date.le_def, Date.le_def]
    omega
  le_antisymm _ _ hab hba := Date.dayNumber_inj.mp (Int.le_antisymm hab hba)
  le_total a b := Int.le_total a.dayNumber b.dayNumber
  toDecidableLE := inferInstance
  min_def _ _ := rfl
  max_def _ _ := rfl

/-- A date in an earlier month is an earlier date. -/
theorem CivilDate.lt_of_monthNumber_lt {a b : CivilDate} (h : a.monthNumber < b.monthNumber) :
    a < b := by
  have ha := a.month_le
  have hb := b.month_le
  unfold monthNumber at h
  rw [lt_iff]
  omega

/-- Months follow each other as their days do. -/
theorem CivilDate.monthNumber_mono {a b : CivilDate} (h : a ≤ b) :
    a.monthNumber ≤ b.monthNumber := by
  by_contra hlt
  have := lt_of_monthNumber_lt (Int.not_le.mp hlt)
  rw [lt_def] at this
  rw [le_def] at h
  omega

theorem CivilDate.year_eq (d : CivilDate) : d.year = d.monthNumber / 12 := by
  have hle := d.month_le
  unfold monthNumber
  omega

theorem CivilDate.month_eq (d : CivilDate) : d.month = (d.monthNumber % 12).toNat + 1 := by
  have hmonth := d.one_le_month
  have hle := d.month_le
  unfold monthNumber
  omega

theorem CivilDate.year_mono {a b : CivilDate} (h : a ≤ b) : a.year ≤ b.year := by
  have hmonths := monthNumber_mono h
  rw [a.year_eq, b.year_eq]
  omega

theorem Date.year_mono {a b : Date} (h : a ≤ b) : a.year ≤ b.year := CivilDate.year_mono h

/-- Whatever lies between two dates of the calendar of plans is one of them. -/
theorem Date.exists_of_between {a b : Date} {c : CivilDate} (hac : a.toCivilDate ≤ c)
    (hcb : c ≤ b.toCivilDate) : ∃ x : Date, x.toCivilDate = c := by
  have hfirst := Int.le_trans a.firstYear_le (CivilDate.year_mono hac)
  have hlast := Int.le_trans (CivilDate.year_mono hcb) b.le_lastYear
  exact ⟨⟨c, hfirst, hlast⟩, rfl⟩

theorem Date.first_le (d : Date) : first ≤ d := by
  apply not_lt.mp
  intro h
  have hyear := d.firstYear_le
  have hmonth := d.one_le_month
  have hday := d.one_le_day
  have h : d.toCivilDate < first.toCivilDate := h
  simp only [CivilDate.lt_iff, first] at h
  omega

theorem Date.le_last (d : Date) : d ≤ last := by
  apply not_lt.mp
  intro h
  have hyear := d.le_lastYear
  have hmonth := d.month_le
  have hday := Nat.le_trans d.day_le (daysInMonth_bounds _ _).2
  have h : last.toCivilDate < d.toCivilDate := h
  simp only [CivilDate.lt_iff, last] at h
  omega

/-- The whole calendar of plans has no more days than that. -/
theorem Date.natAbs_days_le (a b : Date) : (b.dayNumber - a.dayNumber).natAbs ≤ 191491528 := by
  have hspan : last.dayNumber = first.dayNumber + 191491528 := by decide
  have ha := le_def.mp a.first_le
  have ha' := le_def.mp a.le_last
  have hb := le_def.mp b.first_le
  have hb' := le_def.mp b.le_last
  omega

/-- The whole calendar of plans has no more months than that. -/
theorem Date.natAbs_months_le (a b : Date) :
    (b.monthNumber - a.monthNumber).natAbs ≤ 6291431 := by
  have hspan : last.monthNumber = first.monthNumber + 6291431 := by decide
  have ha := CivilDate.monthNumber_mono a.first_le
  have ha' := CivilDate.monthNumber_mono a.le_last
  have hb := CivilDate.monthNumber_mono b.first_le
  have hb' := CivilDate.monthNumber_mono b.le_last
  omega

namespace CivilDate
variable {a b c : CivilDate}

def InCalendar (d : CivilDate) : Prop := Date.first.toCivilDate ≤ d ∧ d ≤ Date.last.toCivilDate

/-- The days of the calendar of plans are those of its dates. -/
theorem inCalendar_iff : c.InCalendar ↔ ∃ x : Date, x.toCivilDate = c := by
  constructor
  · rintro ⟨hfirst, hlast⟩
    exact Date.exists_of_between hfirst hlast
  · rintro ⟨x, rfl⟩
    exact ⟨x.first_le, x.le_last⟩

/-- The calendar has no gaps. -/
theorem InCalendar.of_between (ha : a.InCalendar) (hb : b.InCalendar) (hac : a ≤ c)
    (hcb : c ≤ b) : c.InCalendar :=
  ⟨Int.le_trans ha.1 hac, Int.le_trans hcb hb.2⟩

end CivilDate

end NetWorth
