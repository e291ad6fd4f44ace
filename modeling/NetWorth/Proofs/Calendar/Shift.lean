import NetWorth.Proofs.Calendar.Order

/-! Exact shifts of a day by months and by days. Both keep the order of days, the months in spite of
the days that are clamped to the end of a shorter month: `addMonths_mono`. -/
namespace NetWorth.CivilDate
variable {a b d r : CivilDate}

/-- In one month, days are told apart by their day of the month. -/
theorem le_iff_of_monthNumber_eq (h : a.monthNumber = b.monthNumber) : a ≤ b ↔ a.day ≤ b.day := by
  have hyear : a.year = b.year := by rw [year_eq, year_eq, h]
  have hmonth : a.month = b.month := by rw [month_eq, month_eq, h]
  rw [le_def, dayNumber, dayNumber, hyear, hmonth]
  omega

theorem le_of_monthNumber_lt (h : a.monthNumber < b.monthNumber) : a ≤ b :=
  Int.le_of_lt (lt_of_monthNumber_lt h)

theorem addDays_zero (d : CivilDate) : d.addDays 0 = d := by
  apply dayNumber_inj.mp
  rw [dayNumber_addDays, Int.add_zero]

/-- Days that are added one after the other are added at once. -/
theorem addDays_addDays (d : CivilDate) (m n : Int) :
    (d.addDays m).addDays n = d.addDays (m + n) := by
  apply dayNumber_inj.mp
  simp only [dayNumber_addDays]
  rw [Int.add_assoc]

theorem addDays_mono (n : Int) (h : a ≤ b) : a.addDays n ≤ b.addDays n := by
  rw [le_def, dayNumber_addDays, dayNumber_addDays]
  exact Int.add_le_add_right h n

/-- Months are added to the number of a month, whatever becomes of the day. -/
theorem monthNumber_addMonths (d : CivilDate) (n : Int) :
    (d.addMonths n).monthNumber = d.monthNumber + n :=
  monthNumber_inMonth _ _ _

/-- A month later is the same day, or the last one of a shorter month. -/
theorem day_addMonths (d : CivilDate) (n : Int) :
    (d.addMonths n).day =
      min d.day (daysInMonth (d.addMonths n).year (d.addMonths n).month) := rfl

theorem addMonths_zero (d : CivilDate) : d.addMonths 0 = d := by
  have hmonth : (d.addMonths 0).monthNumber = d.monthNumber := by
    rw [monthNumber_addMonths, Int.add_zero]
  have hyear : (d.addMonths 0).year = d.year := by rw [year_eq, hmonth, ← year_eq]
  have hinYear : (d.addMonths 0).month = d.month := by rw [month_eq, hmonth, ← month_eq]
  have hday := d.day_addMonths 0
  rw [hyear, hinYear, Nat.min_eq_left d.day_le] at hday
  exact CivilDate.ext hyear hinYear hday

/-- Adding months keeps the order of dates, though a short month may bring two of them together. -/
theorem addMonths_mono (n : Int) (h : a ≤ b) : a.addMonths n ≤ b.addMonths n := by
  rcases Int.lt_or_eq_of_le (monthNumber_mono h) with hlt | heq
  · apply le_of_monthNumber_lt
    rw [monthNumber_addMonths, monthNumber_addMonths]
    omega
  · -- Both days are clamped to the length of the same month.
    have hmonth : (a.addMonths n).monthNumber = (b.addMonths n).monthNumber := by
      rw [monthNumber_addMonths, monthNumber_addMonths, heq]
    have hlength : daysInMonth (a.addMonths n).year (a.addMonths n).month =
        daysInMonth (b.addMonths n).year (b.addMonths n).month := by
      rw [year_eq, month_eq, hmonth, ← year_eq, ← month_eq]
    rw [le_iff_of_monthNumber_eq hmonth, day_addMonths, day_addMonths, hlength]
    have hday := (le_iff_of_monthNumber_eq heq).mp h
    omega

end NetWorth.CivilDate
