import NetWorth.Calendar.Offset
import NetWorth.Proofs.Attempt
import NetWorth.Proofs.Calendar.Shift

/-! Offsets against exact arithmetic without bounds. A step of an offset fails exactly where the
exact step leaves the calendar: what the words cannot hold is longer than the calendar itself. So an
offset has a result exactly where no step leaves the calendar. Exact steps keep the order of days,
so offsets do too, and the dates to which an offset applies have no gaps between them. -/
namespace NetWorth

namespace Date
variable {d r : Date} {n : Int}

theorem natAbs_le_of_addDays (h : r.toCivilDate = d.addDays n) : n.natAbs ≤ 191491528 := by
  have hspan := natAbs_days_le d r
  rw [h, CivilDate.dayNumber_addDays] at hspan
  omega

theorem natAbs_le_of_addMonths (h : r.toCivilDate = d.addMonths n) : n.natAbs ≤ 6291431 := by
  have hspan := natAbs_months_le d r
  rw [h, CivilDate.monthNumber_addMonths] at hspan
  omega

/-- Within the calendar, days are shifted exactly; every other shift fails. -/
theorem shiftDays_eq_ok_iff : d.shiftDays n = .ok r ↔ r.toCivilDate = d.addDays n := by
  rw [← ofCivil?_eq_some_iff]
  unfold shiftDays
  cases ofCivil? (d.addDays n) <;> simp

/-- Within the calendar, months are shifted exactly; every other shift fails. -/
theorem shiftMonths_eq_ok_iff : d.shiftMonths n = .ok r ↔ r.toCivilDate = d.addMonths n := by
  unfold shiftMonths
  split
  · rename_i hlong
    refine ⟨nofun, fun h => ?_⟩
    have hspan := natAbs_le_of_addMonths h
    have hmax : maxMonths = 4294967295 := rfl
    omega
  · rw [← ofCivil?_eq_some_iff]
    cases ofCivil? (d.addMonths n) <;> simp

theorem shiftYears_eq_ok_iff : d.shiftYears n = .ok r ↔ r.toCivilDate = d.addMonths (n * 12) := by
  unfold shiftYears
  split
  · exact shiftMonths_eq_ok_iff
  · rename_i hlong
    refine ⟨nofun, fun h => ?_⟩
    have hspan := natAbs_le_of_addMonths h
    rw [fitsWord_iff] at hlong
    omega

end Date

namespace Offset
variable {o : Offset} {a b base r : Date}

def sign (o : Offset) : Int := if o.negative then -1 else 1

theorem natAbs_sign_mul (o : Offset) (n : Int) : (o.sign * n).natAbs = n.natAbs := by
  unfold sign
  split
  · rw [Int.neg_mul, Int.one_mul, Int.natAbs_neg]
  · rw [Int.one_mul]

/-- Only turning a part round can fail, where no word holds the opposite. -/
theorem directed_eq_ok_iff {unit : OffsetUnit} {count n : Int} :
    o.directed unit count = .ok n ↔ n = o.sign * count ∧ (o.negative → FitsWord n) := by
  unfold directed sign
  cases o.negative with
  | false => simp [eq_comm]
  | true =>
    simp only [Bool.not_true, Bool.false_eq_true, if_false, if_true, Int.neg_mul, Int.one_mul,
      forall_const]
    split
    · rename_i hfits
      rw [Except.ok.injEq]
      constructor
      · rintro rfl
        exact ⟨rfl, hfits⟩
      · exact fun h => h.1.symm
    · rename_i hlong
      exact ⟨nofun, fun h => absurd (h.1 ▸ h.2) hlong⟩

def afterYears (o : Offset) (base : Date) : CivilDate :=
  base.addMonths (o.sign * (12 * o.years.toInt))

def afterMonths (o : Offset) (base : Date) : CivilDate :=
  (o.afterYears base).addMonths (o.sign * o.months.toInt)

def afterWeeks (o : Offset) (base : Date) : CivilDate :=
  (o.afterMonths base).addDays (o.sign * (7 * o.weeks.toInt))

/-- The day that the whole offset leads to. -/
def destination (o : Offset) (base : Date) : CivilDate :=
  (o.afterWeeks base).addDays (o.sign * o.days.toInt)

def waypoints (o : Offset) (base : Date) : List CivilDate :=
  [o.afterYears base, o.afterMonths base, o.afterWeeks base, o.destination base]

theorem forall_waypoints_iff {p : CivilDate → Prop} : (∀ c ∈ o.waypoints base, p c) ↔
    p (o.afterYears base) ∧ p (o.afterMonths base) ∧ p (o.afterWeeks base) ∧
      p (o.destination base) := by
  simp [waypoints]

/-- The steps of an offset, each from a date of the calendar to the next. -/
structure Path (o : Offset) (base y m w r : Date) : Prop where
  years : y.toCivilDate = base.addMonths (o.sign * (12 * o.years.toInt))
  months : m.toCivilDate = y.addMonths (o.sign * o.months.toInt)
  weeks : w.toCivilDate = m.addDays (o.sign * (7 * o.weeks.toInt))
  days : r.toCivilDate = w.addDays (o.sign * o.days.toInt)

/-- An offset has a path exactly where all its exact steps stay in the calendar. -/
theorem exists_path_iff : (∃ y m w, o.Path base y m w r) ↔
    (∀ c ∈ o.waypoints base, c.InCalendar) ∧ r.toCivilDate = o.destination base := by
  rw [forall_waypoints_iff]
  simp only [CivilDate.inCalendar_iff]
  constructor
  · rintro ⟨y, m, w, hy, hm, hw, hr⟩
    rw [hy] at hm
    rw [hm] at hw
    rw [hw] at hr
    exact ⟨⟨⟨y, hy⟩, ⟨m, hm⟩, ⟨w, hw⟩, r, hr⟩, hr⟩
  · rintro ⟨⟨⟨y, hy⟩, ⟨m, hm⟩, ⟨w, hw⟩, _⟩, hr⟩
    refine ⟨y, m, w, hy, ?_, ?_, ?_⟩
    · rw [hy, hm, afterMonths]
    · rw [hm, hw, afterWeeks]
    · rw [hw, hr, destination]

/-- No part that a word cannot hold, in either direction, stays within the calendar. -/
theorem Path.fitsWord {y m w : Date} (h : o.Path base y m w r) :
    FitsWord (o.sign * o.years.toInt) ∧ FitsWord (o.sign * o.months.toInt) ∧
      FitsWord (7 * o.weeks.toInt) ∧ FitsWord (o.sign * (7 * o.weeks.toInt)) ∧
      FitsWord (o.sign * o.days.toInt) := by
  have hyears := Date.natAbs_le_of_addMonths h.years
  have hmonths := Date.natAbs_le_of_addMonths h.months
  have hweeks := Date.natAbs_le_of_addDays h.weeks
  have hdays := Date.natAbs_le_of_addDays h.days
  have hsign := o.natAbs_sign_mul (7 * o.weeks.toInt)
  rw [Int.mul_left_comm] at hyears
  simp only [fitsWord_iff]
  omega

/-- An offset is applied step by step. -/
theorem apply_eq_ok_iff_exists_path : o.apply base = .ok r ↔ ∃ y m w, o.Path base y m w r := by
  have hyears : o.sign * o.years.toInt * 12 = o.sign * (12 * o.years.toInt) := by
    rw [Int.mul_assoc, Int.mul_comm o.years.toInt]
  have hweeks : o.weeks.toInt * 7 = 7 * o.weeks.toInt := Int.mul_comm _ _
  unfold apply
  rw [hweeks]
  split
  · simp only [Attempt.bind_eq_ok_iff, directed_eq_ok_iff, Date.shiftYears_eq_ok_iff,
      Date.shiftMonths_eq_ok_iff, Date.shiftDays_eq_ok_iff]
    constructor
    · rintro ⟨_, ⟨rfl, _⟩, y, hy, _, ⟨rfl, _⟩, m, hm, _, ⟨rfl, _⟩, w, hw, _, ⟨rfl, _⟩, hr⟩
      rw [hyears] at hy
      exact ⟨y, m, w, hy, hm, hw, hr⟩
    · rintro ⟨y, m, w, hpath⟩
      obtain ⟨hfitYears, hfitMonths, _, hfitWeeks, hfitDays⟩ := hpath.fitsWord
      refine ⟨_, ⟨rfl, fun _ => hfitYears⟩, y, ?_, _, ⟨rfl, fun _ => hfitMonths⟩, m, hpath.months,
        _, ⟨rfl, fun _ => hfitWeeks⟩, w, hpath.weeks, _, ⟨rfl, fun _ => hfitDays⟩, hpath.days⟩
      rw [hyears]
      exact hpath.years
  · rename_i hlong
    refine ⟨nofun, ?_⟩
    rintro ⟨y, m, w, hpath⟩
    exact absurd hpath.fitsWord.2.2.1 hlong

/-- An offset applies exactly where it does not leave the calendar on its way. -/
theorem apply_eq_ok_iff : o.apply base = .ok r ↔
    (∀ c ∈ o.waypoints base, c.InCalendar) ∧ r.toCivilDate = o.destination base :=
  apply_eq_ok_iff_exists_path.trans exists_path_iff

theorem exists_apply_iff :
    (∃ r, o.apply base = .ok r) ↔ ∀ c ∈ o.waypoints base, c.InCalendar := by
  constructor
  · rintro ⟨r, h⟩
    exact (apply_eq_ok_iff.mp h).1
  · intro hinside
    obtain ⟨r, hr⟩ := CivilDate.inCalendar_iff.mp (forall_waypoints_iff.mp hinside).2.2.2
    exact ⟨r, apply_eq_ok_iff.mpr ⟨hinside, hr⟩⟩

/-- An offset has a result exactly where all four of its exact steps stay in the calendar, and this
is where they lead. It fails everywhere else, so the bounds of its words refuse nothing that there
is in the calendar. Weeks and days make one shift of all their days. -/
theorem apply_exact (o : Offset) (base : Date) :
    (∀ r, o.apply base = .ok r ↔
      (∀ c ∈ o.waypoints base, c.InCalendar) ∧ r.toCivilDate = o.destination base) ∧
    ((∃ fault, o.apply base = .error fault) ↔ ∃ c ∈ o.waypoints base, ¬ c.InCalendar) ∧
    o.destination base =
      (o.afterMonths base).addDays (o.sign * (7 * o.weeks.toInt + o.days.toInt)) := by
  refine ⟨fun r => apply_eq_ok_iff, ?_, ?_⟩
  · constructor
    · rintro ⟨fault, hfault⟩
      by_contra hnone
      have hinside : ∀ c ∈ o.waypoints base, c.InCalendar :=
        fun c hc => Classical.byContradiction fun hout => hnone ⟨c, hc, hout⟩
      obtain ⟨r, hr⟩ := exists_apply_iff.mpr hinside
      cases hfault.symm.trans hr
    · rintro ⟨c, hc, hout⟩
      cases happly : o.apply base with
      | error fault => exact ⟨fault, rfl⟩
      | ok r => exact absurd (exists_apply_iff.mp ⟨r, happly⟩ c hc) hout
  · rw [destination, afterWeeks, CivilDate.addDays_addDays, Int.mul_add]

theorem afterYears_mono (o : Offset) (h : a ≤ b) : o.afterYears a ≤ o.afterYears b :=
  CivilDate.addMonths_mono _ h

theorem afterMonths_mono (o : Offset) (h : a ≤ b) : o.afterMonths a ≤ o.afterMonths b :=
  CivilDate.addMonths_mono _ (o.afterYears_mono h)

theorem afterWeeks_mono (o : Offset) (h : a ≤ b) : o.afterWeeks a ≤ o.afterWeeks b :=
  CivilDate.addDays_mono _ (o.afterMonths_mono h)

/-- Exact offsets keep the order of days, also where the end of a month clamps them. -/
theorem destination_mono (o : Offset) (h : a ≤ b) : o.destination a ≤ o.destination b :=
  CivilDate.addDays_mono _ (o.afterWeeks_mono h)

/-- Where an offset applies to two dates, it keeps their order. -/
theorem le_of_apply {ra rb : Date} (ha : o.apply a = .ok ra) (hb : o.apply b = .ok rb)
    (h : a ≤ b) : ra ≤ rb := by
  have hle := o.destination_mono h
  rw [← (apply_eq_ok_iff.mp ha).2, ← (apply_eq_ok_iff.mp hb).2] at hle
  exact hle

/-- Between two dates to which an offset applies, every step stays between the steps from these. -/
theorem waypoints_of_between {c : Date} (hac : a ≤ c) (hcb : c ≤ b)
    (ha : ∀ d ∈ o.waypoints a, d.InCalendar) (hb : ∀ d ∈ o.waypoints b, d.InCalendar) :
    ∀ d ∈ o.waypoints c, d.InCalendar := by
  rw [forall_waypoints_iff] at ha hb ⊢
  obtain ⟨hay, ham, haw, har⟩ := ha
  obtain ⟨hby, hbm, hbw, hbr⟩ := hb
  exact ⟨hay.of_between hby (o.afterYears_mono hac) (o.afterYears_mono hcb),
    ham.of_between hbm (o.afterMonths_mono hac) (o.afterMonths_mono hcb),
    haw.of_between hbw (o.afterWeeks_mono hac) (o.afterWeeks_mono hcb),
    har.of_between hbr (o.destination_mono hac) (o.destination_mono hcb)⟩

/-- An offset keeps the order of dates, and applies to every date between two to which it applies.
-/
theorem apply_between {ra rb : Date} (hab : a ≤ b) (ha : o.apply a = .ok ra)
    (hb : o.apply b = .ok rb) :
    ra ≤ rb ∧ ∀ c, a ≤ c → c ≤ b → ∃ rc, o.apply c = .ok rc ∧ ra ≤ rc ∧ rc ≤ rb := by
  refine ⟨le_of_apply ha hb hab, fun c hac hcb => ?_⟩
  have hinside := waypoints_of_between hac hcb (exists_apply_iff.mp ⟨ra, ha⟩)
    (exists_apply_iff.mp ⟨rb, hb⟩)
  obtain ⟨rc, hc⟩ := exists_apply_iff.mpr hinside
  exact ⟨rc, hc, le_of_apply ha hc hac, le_of_apply hc hb hcb⟩

def marchEnd : Date := (Date.ofParts? 2024 3 31).get (by decide)

def backward : Offset := { negative := true, months := 1, weeks := 1, days := 1 }

/-- The last three days of a March lead back to one day of a February that is shorter by two. The
last day of that February leads to an earlier one. -/
theorem apply_between_marchEnd : ∃ leapDay eve q r,
    marchEnd.shiftDays (-31) = .ok leapDay ∧ marchEnd.shiftDays (-2) = .ok eve ∧
    backward.apply leapDay = .ok q ∧ backward.apply eve = .ok r ∧ backward.apply marchEnd = .ok r ∧
    q < r ∧
    (q ≤ r ∧ ∀ c, leapDay ≤ c → c ≤ eve → ∃ rc, backward.apply c = .ok rc ∧ q ≤ rc ∧ rc ≤ r) ∧
    r ≤ r ∧ ∀ c, eve ≤ c → c ≤ marchEnd → ∃ rc, backward.apply c = .ok rc ∧ r ≤ rc ∧ rc ≤ r := by
  obtain ⟨leapDay, hleap⟩ : ∃ leapDay, marchEnd.shiftDays (-31) = .ok leapDay := ⟨_, rfl⟩
  obtain ⟨eve, heve⟩ : ∃ eve, marchEnd.shiftDays (-2) = .ok eve := ⟨_, rfl⟩
  have hends : ∃ q r, leapDay ≤ eve ∧ eve ≤ marchEnd ∧ backward.apply leapDay = .ok q ∧
      backward.apply eve = .ok r ∧ backward.apply marchEnd = .ok r ∧ q < r := by
    cases hleap
    cases heve
    exact ⟨_, _, by decide, by decide, rfl, rfl, rfl, by decide⟩
  obtain ⟨q, r, hle, hlast, hq, hr, hend, hlt⟩ := hends
  exact ⟨leapDay, eve, q, r, hleap, heve, hq, hr, hend, hlt, apply_between hle hq hr,
    apply_between hlast hr hend⟩

end Offset
end NetWorth
