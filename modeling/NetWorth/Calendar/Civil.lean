/-! Exact arithmetic on the proleptic Gregorian calendar, without bounds on the year.
Days and dates correspond one to one: `ofDayNumber_dayNumber` and `dayNumber_ofDayNumber`. -/
namespace NetWorth

def isLeapYear (year : Int) : Bool :=
  year % 4 = 0 && (year % 100 ≠ 0 || year % 400 = 0)

def daysInMonth (year : Int) (month : Nat) : Nat :=
  match month with
  | 2 => if isLeapYear year then 29 else 28
  | 4 | 6 | 9 | 11 => 30
  | _ => 31

theorem daysInMonth_bounds (year : Int) (month : Nat) :
    28 ≤ daysInMonth year month ∧ daysInMonth year month ≤ 31 := by
  unfold daysInMonth
  split <;> (try split) <;> omega

/-- A day of the proleptic Gregorian calendar, in which the year 0 exists. -/
@[ext] structure CivilDate where
  year : Int
  month : Nat
  day : Nat
  one_le_month : 1 ≤ month
  month_le : month ≤ 12
  one_le_day : 1 ≤ day
  day_le : day ≤ daysInMonth year month
  deriving DecidableEq

namespace CivilDate

def ofParts? (year : Int) (month day : Nat) : Option CivilDate :=
  if h : (1 ≤ month ∧ month ≤ 12) ∧ 1 ≤ day ∧ day ≤ daysInMonth year month then
    some ⟨year, month, day, h.1.1, h.1.2, h.2.1, h.2.2⟩
  else none

/-- A date is found exactly for the parts of a day that the calendar has. -/
theorem ofParts?_eq_some_iff {year : Int} {month day : Nat} {d : CivilDate} :
    ofParts? year month day = some d ↔ d.year = year ∧ d.month = month ∧ d.day = day := by
  unfold ofParts?
  split
  · rw [Option.some.injEq]
    constructor
    · rintro rfl
      exact ⟨rfl, rfl, rfl⟩
    · rintro ⟨rfl, rfl, rfl⟩
      rfl
  · rename_i h
    constructor
    · intro he
      cases he
    · rintro ⟨rfl, rfl, rfl⟩
      exact absurd ⟨⟨d.one_le_month, d.month_le⟩, d.one_le_day, d.day_le⟩ h

end CivilDate

def daysBeforeYear (year : Int) : Int :=
  365 * (year - 1) + (year - 1) / 4 - (year - 1) / 100 + (year - 1) / 400

def daysBeforeMonth (year : Int) : Nat → Nat
  | 0 => 0
  | 1 => 0
  | month + 2 => daysBeforeMonth year (month + 1) + daysInMonth year (month + 1)

theorem daysBeforeMonth_succ (year : Int) {month : Nat} (h : 1 ≤ month) :
    daysBeforeMonth year (month + 1) = daysBeforeMonth year month + daysInMonth year month := by
  match month, h with
  | _ + 1, _ => rfl

def daysInYear (year : Int) : Nat :=
  if isLeapYear year then 366 else 365

theorem daysBeforeMonth_thirteen (year : Int) : daysBeforeMonth year 13 = daysInYear year := by
  simp only [daysBeforeMonth, daysInMonth, daysInYear]
  split <;> rfl

theorem daysBeforeYear_succ (year : Int) :
    daysBeforeYear (year + 1) = daysBeforeYear year + daysInYear year := by
  simp only [daysBeforeYear, daysInYear]
  split <;> rename_i leap <;> simp only [isLeapYear, Bool.and_eq_true, Bool.or_eq_true,
    decide_eq_true_eq] at leap <;> omega

/-- The year that holds a day, found from the mean length of a year and one correction. -/
def yearOfDay (n : Int) : Int :=
  let guess := 400 * (n - 1) / 146097 + 1
  if n ≤ daysBeforeYear guess then guess - 1
  else if daysBeforeYear (guess + 1) < n then guess + 1
  else guess

/-- The estimate from the mean length of a year, corrected once, is never off. -/
theorem yearOfDay_bounds (n : Int) :
    daysBeforeYear (yearOfDay n) < n ∧ n ≤ daysBeforeYear (yearOfDay n + 1) := by
  simp only [yearOfDay]
  split
  · simp only [daysBeforeYear] at *
    omega
  · split
    · simp only [daysBeforeYear] at *
      omega
    · simp only [daysBeforeYear] at *
      omega

/-- The last of the first months, at most `bound`, that starts before a given day of the year. -/
def monthOfDay (year : Int) (day : Nat) : Nat → Nat
  | 0 => 1
  | bound + 1 => if daysBeforeMonth year (bound + 1) < day then bound + 1 else monthOfDay year day bound

/-- The month that is found starts before the day, and the next one does not. -/
theorem monthOfDay_spec (year : Int) (day : Nat) (h : 1 ≤ day) :
    ∀ bound, day ≤ daysBeforeMonth year (bound + 1) → 1 ≤ bound →
      1 ≤ monthOfDay year day bound ∧ monthOfDay year day bound ≤ bound ∧
      daysBeforeMonth year (monthOfDay year day bound) < day ∧
      day ≤ daysBeforeMonth year (monthOfDay year day bound + 1)
  | 0, _, hb => by omega
  | bound + 1, hd, _ => by
    unfold monthOfDay
    split
    · exact ⟨by omega, by omega, by assumption, hd⟩
    · rename_i hle
      by_cases hb : 1 ≤ bound
      · obtain ⟨h1, h2, h3, h4⟩ := monthOfDay_spec year day h bound (by omega) hb
        exact ⟨h1, by omega, h3, h4⟩
      · obtain rfl : bound = 0 := by omega
        simp only [daysBeforeMonth] at hle
        omega

namespace CivilDate

/-- Days are numbered so that 0001-01-01 is day 1. -/
def dayNumber (d : CivilDate) : Int :=
  daysBeforeYear d.year + daysBeforeMonth d.year d.month + d.day

private theorem dayOfYear_bounds (n : Int) :
    1 ≤ (n - daysBeforeYear (yearOfDay n)).toNat ∧
      (n - daysBeforeYear (yearOfDay n)).toNat ≤ daysInYear (yearOfDay n) := by
  have h := yearOfDay_bounds n
  rw [daysBeforeYear_succ] at h
  omega

def ofDayOfYear (year : Int) (day : Nat) (h : 1 ≤ day) (hle : day ≤ daysInYear year) : CivilDate :=
  have found := monthOfDay_spec year day h 12 (by rwa [daysBeforeMonth_thirteen]) (by decide)
  { year
    month := monthOfDay year day 12
    day := day - daysBeforeMonth year (monthOfDay year day 12)
    one_le_month := found.1
    month_le := found.2.1
    one_le_day := by omega
    day_le := by have := daysBeforeMonth_succ year found.1; omega }

theorem dayNumber_ofDayOfYear (year : Int) (day : Nat) (h : 1 ≤ day) (hle : day ≤ daysInYear year) :
    (ofDayOfYear year day h hle).dayNumber = daysBeforeYear year + day := by
  have found := monthOfDay_spec year day h 12 (by rwa [daysBeforeMonth_thirteen]) (by decide)
  simp only [dayNumber, ofDayOfYear]
  omega

def ofDayNumber (n : Int) : CivilDate :=
  ofDayOfYear (yearOfDay n) (n - daysBeforeYear (yearOfDay n)).toNat
    (dayOfYear_bounds n).1 (dayOfYear_bounds n).2

/-- Every whole number numbers a day. -/
theorem dayNumber_ofDayNumber (n : Int) : (ofDayNumber n).dayNumber = n := by
  have := (dayOfYear_bounds n).1
  rw [ofDayNumber, dayNumber_ofDayOfYear]
  omega

def addDays (d : CivilDate) (n : Int) : CivilDate :=
  ofDayNumber (d.dayNumber + n)

/-- Days are added to the number of a day. -/
theorem dayNumber_addDays (d : CivilDate) (n : Int) :
    (d.addDays n).dayNumber = d.dayNumber + n :=
  dayNumber_ofDayNumber _

def monthNumber (d : CivilDate) : Int :=
  12 * d.year + (d.month - 1 : Nat)

/-- The date in a numbered month with the given day of the month, or the last day of the month
where it is too short. -/
def inMonth (number : Int) (day : Nat) (h : 1 ≤ day) : CivilDate :=
  let year := number / 12
  let month := (number % 12).toNat + 1
  { year
    month
    day := min day (daysInMonth year month)
    one_le_month := by omega
    month_le := by omega
    one_le_day := by have := (daysInMonth_bounds year month).1; omega
    day_le := Nat.min_le_right _ _ }

/-- The same day `n` months later, clamped to the end of the month. -/
def addMonths (d : CivilDate) (n : Int) : CivilDate :=
  inMonth (d.monthNumber + n) d.day d.one_le_day

/-- Clamping to the end of a month never leads out of it. -/
theorem monthNumber_inMonth (number : Int) (day : Nat) (h : 1 ≤ day) :
    (inMonth number day h).monthNumber = number := by
  simp only [monthNumber, inMonth]
  omega

instance : LE CivilDate := ⟨fun a b => a.dayNumber ≤ b.dayNumber⟩

instance : LT CivilDate := ⟨fun a b => a.dayNumber < b.dayNumber⟩

theorem le_def {a b : CivilDate} : a ≤ b ↔ a.dayNumber ≤ b.dayNumber := Iff.rfl

theorem lt_def {a b : CivilDate} : a < b ↔ a.dayNumber < b.dayNumber := Iff.rfl

private theorem daysBeforeMonth_mono (year : Int) {a b : Nat} (h : a ≤ b) :
    daysBeforeMonth year a ≤ daysBeforeMonth year b := by
  induction h with
  | refl => exact Nat.le_refl _
  | @step b _ ih =>
    cases b with
    | zero => simpa [daysBeforeMonth] using ih
    | succ b => exact Nat.le_trans ih (by simp only [daysBeforeMonth]; omega)

private theorem daysBeforeYear_mono {a b : Int} (h : a ≤ b) :
    daysBeforeYear a ≤ daysBeforeYear b := by
  simp only [daysBeforeYear]
  omega

private theorem dayOfYear_le (d : CivilDate) :
    daysBeforeMonth d.year d.month + d.day ≤ daysInYear d.year := by
  have hm := daysBeforeMonth_mono d.year (show d.month + 1 ≤ 13 by have := d.month_le; omega)
  rw [daysBeforeMonth_succ _ d.one_le_month, daysBeforeMonth_thirteen] at hm
  have := d.day_le
  omega

/-- Dates are compared by year, then by month, then by day. -/
private theorem lt_of_parts {a b : CivilDate}
    (h : a.year < b.year ∨ a.year = b.year ∧
      (a.month < b.month ∨ a.month = b.month ∧ a.day < b.day)) : a < b := by
  rw [lt_def, dayNumber, dayNumber]
  have ha := dayOfYear_le a
  have hb := b.one_le_day
  rcases h with h | ⟨hy, h | ⟨hm, h⟩⟩
  · have hs := daysBeforeYear_succ a.year
    have hle := daysBeforeYear_mono (show a.year + 1 ≤ b.year by omega)
    omega
  · have hs := daysBeforeMonth_succ a.year a.one_le_month
    have hle := daysBeforeMonth_mono a.year (show a.month + 1 ≤ b.month by omega)
    have := a.day_le
    rw [← hy]
    omega
  · rw [← hy, ← hm]
    omega

/-- A day is earlier exactly when its year, or else its month, or else its day is smaller. -/
theorem lt_iff {a b : CivilDate} :
    a < b ↔ a.year < b.year ∨ a.year = b.year ∧
      (a.month < b.month ∨ a.month = b.month ∧ a.day < b.day) := by
  refine ⟨fun h => ?_, lt_of_parts⟩
  rcases Classical.em (b.year < a.year ∨ b.year = a.year ∧
    (b.month < a.month ∨ b.month = a.month ∧ b.day < a.day)) with hp | hp
  · exact absurd h (Int.lt_asymm (lt_of_parts hp))
  · rcases Classical.em (a.year = b.year ∧ a.month = b.month ∧ a.day = b.day) with he | he
    · exact absurd (CivilDate.ext he.1 he.2.1 he.2.2 ▸ h) (Int.lt_irrefl _)
    · omega

/-- No two dates number the same day. -/
theorem dayNumber_inj {a b : CivilDate} : a.dayNumber = b.dayNumber ↔ a = b := by
  refine ⟨fun h => ?_, fun h => h ▸ rfl⟩
  have hab := mt lt_iff.2 (show ¬ a < b by rw [lt_def]; omega)
  have hba := mt lt_iff.2 (show ¬ b < a by rw [lt_def]; omega)
  exact CivilDate.ext (by omega) (by omega) (by omega)

/-- A day is found again by its number. -/
theorem ofDayNumber_dayNumber (d : CivilDate) : ofDayNumber d.dayNumber = d :=
  dayNumber_inj.1 (dayNumber_ofDayNumber _)

instance (a b : CivilDate) : Decidable (a ≤ b) := decidable_of_iff _ le_def.symm

instance (a b : CivilDate) : Decidable (a < b) := decidable_of_iff _ lt_def.symm

end CivilDate

end NetWorth
