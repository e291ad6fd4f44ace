import NetWorth.Calendar.Civil

/-! The dates that a plan can name: the days of the years -262143 to 262142.
The two ends also stand for "as early" and "as late as can be". -/
namespace NetWorth

def firstYear : Int := -262143

def lastYear : Int := 262142

@[ext] structure Date extends CivilDate where
  firstYear_le : firstYear ≤ year
  le_lastYear : year ≤ lastYear
  deriving DecidableEq

namespace Date

def ofCivil? (d : CivilDate) : Option Date :=
  if h : firstYear ≤ d.year ∧ d.year ≤ lastYear then some ⟨d, h.1, h.2⟩ else none

theorem ofCivil?_eq_some_iff {d : CivilDate} {r : Date} :
    ofCivil? d = some r ↔ r.toCivilDate = d := by
  unfold ofCivil?
  split
  · rw [Option.some.injEq]
    constructor
    · rintro rfl
      rfl
    · rintro rfl
      rfl
  · rename_i h
    constructor
    · intro he
      cases he
    · rintro rfl
      exact absurd ⟨r.firstYear_le, r.le_lastYear⟩ h

def ofParts? (year : Int) (month day : Nat) : Option Date :=
  (CivilDate.ofParts? year month day).bind ofCivil?

/-- A date is found exactly for the parts of a day of the calendar of plans. -/
theorem ofParts?_eq_some_iff {year : Int} {month day : Nat} {d : Date} :
    ofParts? year month day = some d ↔ d.year = year ∧ d.month = month ∧ d.day = day := by
  simp only [ofParts?, Option.bind_eq_some_iff, ofCivil?_eq_some_iff]
  constructor
  · rintro ⟨c, hc, rfl⟩
    exact CivilDate.ofParts?_eq_some_iff.1 hc
  · exact fun h => ⟨d.toCivilDate, CivilDate.ofParts?_eq_some_iff.2 h, rfl⟩

def first : Date :=
  ⟨⟨firstYear, 1, 1, by decide, by decide, by decide, by decide⟩, by decide, by decide⟩

def last : Date :=
  ⟨⟨lastYear, 12, 31, by decide, by decide, by decide, by decide⟩, by decide, by decide⟩

instance : Inhabited Date := ⟨first⟩

instance : LE Date := ⟨fun a b => a.toCivilDate ≤ b.toCivilDate⟩

instance : LT Date := ⟨fun a b => a.toCivilDate < b.toCivilDate⟩

theorem le_def {a b : Date} : a ≤ b ↔ a.dayNumber ≤ b.dayNumber := Iff.rfl

theorem lt_def {a b : Date} : a < b ↔ a.dayNumber < b.dayNumber := Iff.rfl

instance (a b : Date) : Decidable (a ≤ b) := decidable_of_iff _ le_def.symm

instance (a b : Date) : Decidable (a < b) := decidable_of_iff _ lt_def.symm

theorem dayNumber_inj {a b : Date} : a.dayNumber = b.dayNumber ↔ a = b := by
  refine ⟨fun h => ?_, fun h => h ▸ rfl⟩
  have := CivilDate.dayNumber_inj.1 h
  cases a
  cases b
  cases this
  rfl

instance : Min Date := ⟨fun a b => if a ≤ b then a else b⟩

instance : Max Date := ⟨fun a b => if a ≤ b then b else a⟩

/-- The number of turns of the year between two dates, negative when the second is earlier.
Days and months play no part. -/
def yearsUntil (start stop : Date) : Int :=
  stop.year - start.year

end Date

end NetWorth
