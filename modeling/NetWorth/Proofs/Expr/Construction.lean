import NetWorth.Expr.Eval
import NetWorth.Proofs.Attempt
import NetWorth.Proofs.Calendar.Order

/-! Dates that are constructed from a day, a month and a year. Whatever whole numbers these are, the
date has exactly these parts or it is refused: no bound of a word turns one day into another. -/
namespace NetWorth

namespace CivilDate

def HasParts (c : CivilDate) (year month day : Int) : Prop :=
  c.year = year ∧ c.month = month ∧ c.day = day

instance (c : CivilDate) (year month day : Int) : Decidable (c.HasParts year month day) :=
  inferInstanceAs (Decidable (_ ∧ _))

end CivilDate

namespace Date
variable {year month day : Int} {d : Date}

theorem construct_eq_ok_iff {month day : Nat} :
    construct year month day = .ok d ↔ d.HasParts year month day := by
  have hparts : d.HasParts year month day ↔ ofParts? year month day = some d := by
    rw [ofParts?_eq_some_iff, CivilDate.HasParts, Int.ofNat_inj, Int.ofNat_inj]
  rw [hparts]
  unfold construct
  split
  · cases ofParts? year month day <;> simp
  · rename_i hmonth
    refine iff_of_false nofun fun h => hmonth ?_
    rw [← (ofParts?_eq_some_iff.mp h).2.1]
    exact ⟨d.one_le_month, d.month_le⟩

/-- No date of the calendar has a part that the words for years, months and days cannot hold. -/
theorem fits_of_hasParts (h : d.HasParts year month day) :
    FitsHalfWord year ∧ FitsUnsignedHalfWord month ∧ FitsUnsignedHalfWord day := by
  obtain ⟨rfl, rfl, rfl⟩ := h
  have hfirst := d.firstYear_le
  have hlast := d.le_lastYear
  have hmonth := d.month_le
  have hday := Nat.le_trans d.day_le (daysInMonth_bounds _ _).2
  have hfirstYear : firstYear = -262143 := rfl
  have hlastYear : lastYear = 262142 := rfl
  have hsize : UInt32.size = 4294967296 := rfl
  refine ⟨⟨?_, ?_⟩, ⟨?_, ?_⟩, ?_, ?_⟩
  · rw [Int32.toInt_minValue]
    omega
  · rw [Int32.toInt_maxValue]
    omega
  all_goals omega

/-- A date is constructed exactly where the three numbers are the parts of a day. -/
theorem ofWhole_eq_ok_iff : ofWhole year month day = .ok d ↔ d.HasParts year month day := by
  unfold ofWhole
  split
  · rename_i hyear
    exact iff_of_false nofun fun h => hyear (fits_of_hasParts h).1
  · split
    · rename_i hmonth
      exact iff_of_false nofun fun h => hmonth (fits_of_hasParts h).2.1
    · split
      · rename_i hday
        exact iff_of_false nofun fun h => hday (fits_of_hasParts h).2.2
      · rename_i hmonth hday
        have hmonth : 0 ≤ month := (Classical.not_not.mp hmonth).1
        have hday : 0 ≤ day := (Classical.not_not.mp hday).1
        rw [construct_eq_ok_iff, Int.toNat_of_nonneg hmonth, Int.toNat_of_nonneg hday]

end Date

/-- An expression stands for a number whose whole part is a word. -/
def NumExpr.Truncates (s : Scope) (e : NumExpr) (n : Int64) : Prop :=
  ∃ x, e.eval s = .ok x ∧ wholePart? x = some n

/-- An expression stands for the number of a month, whether there is such a month or not. -/
inductive MonthExpr.Denotes (s : Scope) : MonthExpr → Int → Prop
  | number {e : NumExpr} {n : Int64} (h : e.Truncates s n) : Denotes s (.number e) n.toInt
  | name {text : String} {n : Nat} (h : monthOfName text = .ok n) : Denotes s (.name text) n

section
variable {s : Scope}

theorem NumExpr.evalWhole_of_truncates {e : NumExpr} {n : Int64} (h : e.Truncates s n)
    (fault : Float → DateFault) : e.evalWhole s fault = .ok n := by
  obtain ⟨x, hx, hn⟩ := h
  refine Attempt.bind_eq_ok_iff.mpr ⟨x, hx, ?_⟩
  rw [hn]

/-- A month stands for its number, given by a number or by a name. -/
theorem MonthExpr.eval_of_denotes {e : MonthExpr} {n : Int} (h : e.Denotes s n) :
    e.eval s = .ok n := by
  cases h with
  | number h => exact Attempt.bind_eq_ok_iff.mpr ⟨_, NumExpr.evalWhole_of_truncates h _, rfl⟩
  | name h =>
    rw [eval, h]
    rfl

theorem BaseDate.eval_of_denotes {dayExpr yearExpr : NumExpr} {monthExpr : MonthExpr}
    {day year : Int64} {month : Int} (hday : dayExpr.Truncates s day)
    (hmonth : monthExpr.Denotes s month) (hyear : yearExpr.Truncates s year) :
    (construct dayExpr monthExpr yearExpr).eval s =
      (Date.ofWhole year.toInt month day.toInt).mapError .invalidDate := by
  rw [eval, NumExpr.evalWhole_of_truncates hday, NumExpr.evalWhole_of_truncates hyear,
    MonthExpr.eval_of_denotes hmonth]
  rfl

namespace DateExpr

/-- A constructed date without an offset is the one with exactly the parts that its expressions
stand for. It is refused as an invalid date where the calendar of plans has no such day. -/
theorem eval_construct {dayExpr yearExpr : NumExpr} {monthExpr : MonthExpr} {day year : Int64}
    {month : Int} (hday : dayExpr.Truncates s day) (hmonth : monthExpr.Denotes s month)
    (hyear : yearExpr.Truncates s year) :
    let e : DateExpr := { base := .construct dayExpr monthExpr yearExpr }
    (∀ date : Date, e.eval s = .ok date ↔ date.HasParts year.toInt month day.toInt) ∧
    ((∃ date, e.eval s = .ok date) ↔
      ∃ c : CivilDate, c.HasParts year.toInt month day.toInt ∧ c.InCalendar) ∧
    ((∃ fault, e.eval s = .error (.invalidDate fault)) ↔
      ¬ ∃ c : CivilDate, c.HasParts year.toInt month day.toInt ∧ c.InCalendar) := by
  intro e
  have heval : e.eval s = (Date.ofWhole year.toInt month day.toInt).mapError .invalidDate := by
    rw [eval, BaseDate.eval_of_denotes hday hmonth hyear]
    cases Date.ofWhole year.toInt month day.toInt <;> rfl
  have hok (date : Date) : e.eval s = .ok date ↔ date.HasParts year.toInt month day.toInt := by
    rw [heval, Attempt.mapError_eq_ok_iff, Date.ofWhole_eq_ok_iff]
  have hexists : (∃ date, e.eval s = .ok date) ↔
      ∃ c : CivilDate, c.HasParts year.toInt month day.toInt ∧ c.InCalendar := by
    simp only [hok, CivilDate.inCalendar_iff]
    constructor
    · rintro ⟨date, hparts⟩
      exact ⟨date.toCivilDate, hparts, date, rfl⟩
    · rintro ⟨_, hparts, date, rfl⟩
      exact ⟨date, hparts⟩
  refine ⟨hok, hexists, ?_⟩
  rw [← hexists, heval]
  cases Date.ofWhole year.toInt month day.toInt with
  | ok date => simp
  | error fault => simp

def leapDay (month : Float) : DateExpr :=
  { base := .construct (.literal 29.75) (.number (.literal month)) (.literal 2024) }

/-- A month that a word of 32 bits would take for February is refused like any other. -/
theorem eval_construct_leapDay :
    (∀ date, (leapDay 2.5).eval .empty = .ok date ↔ date.HasParts 2024 2 29) ∧
      ((leapDay 2.5).eval .empty).toOption.map (·.text) = some "2024-02-29" ∧
      ∃ fault, (leapDay 4294967298).eval .empty = .error (.invalidDate fault) := by
  have hday : (NumExpr.literal 29.75).Truncates .empty 29 := ⟨29.75, rfl, by decide +kernel⟩
  have hyear : (NumExpr.literal 2024).Truncates .empty 2024 := ⟨2024, rfl, by decide +kernel⟩
  have hmonth : (MonthExpr.number (.literal 2.5)).Denotes .empty 2 :=
    .number (n := 2) ⟨2.5, rfl, by decide +kernel⟩
  have hwrapped : (MonthExpr.number (.literal 4294967298)).Denotes .empty 4294967298 :=
    .number (n := 4294967298) ⟨4294967298, rfl, by decide +kernel⟩
  refine ⟨(eval_construct hday hmonth hyear).1, by decide +kernel,
    (eval_construct hday hwrapped hyear).2.2.mpr ?_⟩
  rintro ⟨c, ⟨_, hmonth, _⟩, _⟩
  have hbound := c.month_le
  omega

end DateExpr
end
end NetWorth
