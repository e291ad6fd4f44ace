import NetWorth.Calendar.Timeline
import NetWorth.Proofs.Calendar.Shift

/-! Timelines against the list of all their dates. Regular dates ascend, so the scan that stops at
the first one after the end misses none before it, and no index that it comes to is too large for a
word. The budget cuts that list off and changes nothing else. -/
namespace NetWorth

namespace Interval
variable {i : Interval} {start stop x : Date} {m n : Nat}

theorem nth_zero (i : Interval) (start : Date) : i.nth start 0 = start.toCivilDate := by
  cases i with
  | daily => exact CivilDate.addDays_zero _
  | weekly => exact CivilDate.addDays_zero _
  | monthly => exact CivilDate.addMonths_zero _
  | yearly => exact CivilDate.addMonths_zero _

/-- Regular dates ascend, also where the end of a month clamps them. -/
theorem nth_lt_nth (i : Interval) (start : Date) (h : m < n) : i.nth start m < i.nth start n := by
  cases i with
  | daily | weekly =>
    simp only [nth, CivilDate.lt_def, CivilDate.dayNumber_addDays]
    omega
  | monthly | yearly =>
    apply CivilDate.lt_of_monthNumber_lt
    simp only [nth, CivilDate.monthNumber_addMonths]
    omega

theorem nth_le_nth (i : Interval) (start : Date) (h : m ≤ n) : i.nth start m ≤ i.nth start n := by
  rcases Nat.lt_or_eq_of_le h with hlt | rfl
  · exact Int.le_of_lt (i.nth_lt_nth start hlt)
  · exact Int.le_refl _

theorem start_le_nth (i : Interval) (start : Date) (n : Nat) :
    start.toCivilDate ≤ i.nth start n := by
  rw [← i.nth_zero start]
  exact i.nth_le_nth start (Nat.zero_le n)

/-- Every interval takes a day at least. -/
theorem add_le_dayNumber_nth (i : Interval) (start : Date) (n : Nat) :
    start.dayNumber + n ≤ (i.nth start n).dayNumber := by
  induction n with
  | zero =>
    rw [nth_zero]
    exact Int.le_of_eq (Int.add_zero _)
  | succ n ih =>
    have hstep := i.nth_lt_nth start (Nat.lt_add_one n)
    rw [CivilDate.lt_def] at hstep
    omega

theorem counts_of_nth (h : x.toCivilDate = i.nth start n) : i.Counts n := by
  have hspan := Date.natAbs_days_le start x
  have hdays := i.add_le_dayNumber_nth start n
  rw [← h] at hdays
  have hword : UInt32.size = 4294967296 := rfl
  refine ⟨by omega, ?_⟩
  rintro rfl
  have hspan := Date.natAbs_months_le start x
  rw [h, nth, CivilDate.monthNumber_addMonths] at hspan
  omega

/-- The bounds of the index keep no date of the calendar away. -/
theorem nth?_eq_some_iff : i.nth? start n = some x ↔ x.toCivilDate = i.nth start n := by
  rw [← Date.ofCivil?_eq_some_iff]
  unfold nth?
  split
  · rfl
  · rename_i hlarge
    refine ⟨nofun, fun h => ?_⟩
    exact absurd (counts_of_nth (Date.ofCivil?_eq_some_iff.mp h)) hlarge

/-- There are no gaps before a regular date. -/
theorem exists_nth_of_le (h : x.toCivilDate = i.nth start n) (hle : x ≤ stop) (hmn : m ≤ n) :
    ∃ d : Date, d.toCivilDate = i.nth start m ∧ d ≤ stop := by
  have hbefore : i.nth start m ≤ x.toCivilDate := h ▸ i.nth_le_nth start hmn
  obtain ⟨d, hd⟩ := Date.exists_of_between (i.start_le_nth start m) hbefore
  refine ⟨d, hd, le_trans ?_ hle⟩
  rw [← hd] at hbefore
  exact hbefore

/-- All regular dates of a period, each in its place. -/
def Regular (i : Interval) (start stop : Date) (dates : List Date) : Prop :=
  ∀ n x, dates[n]? = some x ↔ x.toCivilDate = i.nth start n ∧ x ≤ stop

/-- The last day of a period behind its regular dates, unless it is one of them. -/
def endingOn (stop : Date) (regular : List Date) : List Date :=
  if regular.getLast? = some stop then regular else regular ++ [stop]

theorem getLast?_endingOn (stop : Date) (regular : List Date) :
    (endingOn stop regular).getLast? = some stop := by
  unfold endingOn
  split
  · assumption
  · exact List.getLast?_concat

namespace Regular
variable {regular : List Date}

theorem lt_of_getElem? (h : i.Regular start stop regular) {m n : Nat} {a b : Date}
    (ha : regular[m]? = some a) (hb : regular[n]? = some b) (hmn : m < n) : a < b := by
  have hlt := i.nth_lt_nth start hmn
  rw [← ((h m a).mp ha).1, ← ((h n b).mp hb).1] at hlt
  exact hlt

/-- The regular dates of a period ascend. -/
theorem pairwise (h : i.Regular start stop regular) : regular.Pairwise (· < ·) := by
  rw [List.pairwise_iff_getElem]
  intro m n hm hn hmn
  exact h.lt_of_getElem? (List.getElem?_eq_getElem hm) (List.getElem?_eq_getElem hn) hmn

theorem head?_eq (h : i.Regular start stop regular) (hle : start ≤ stop) :
    regular.head? = some start := by
  rw [List.head?_eq_getElem?]
  exact (h 0 start).mpr ⟨(i.nth_zero start).symm, hle⟩

theorem le_stop (h : i.Regular start stop regular) (hx : x ∈ regular) : x ≤ stop := by
  obtain ⟨n, hn⟩ := List.mem_iff_getElem?.mp hx
  exact ((h n x).mp hn).2

theorem lt_stop (h : i.Regular start stop regular) (hlast : regular.getLast? ≠ some stop)
    (hx : x ∈ regular) : x < stop := by
  cases hend : regular.getLast? with
  | none =>
    rw [List.getLast?_eq_none_iff.mp hend] at hx
    cases hx
  | some z =>
    obtain ⟨front, rfl⟩ := List.getLast?_eq_some_iff.mp hend
    have hz : z < stop :=
      lt_of_le_of_ne (h.le_stop List.mem_concat_self) fun heq => hlast (heq ▸ hend)
    rcases List.mem_append.mp hx with hfront | hback
    · have hxz := (List.pairwise_append.mp h.pairwise).2.2 x hfront z (List.mem_singleton_self z)
      exact lt_trans hxz hz
    · rw [List.mem_singleton.mp hback]
      exact hz

/-- With the last day behind them they still do. -/
theorem pairwise_endingOn (h : i.Regular start stop regular) :
    (endingOn stop regular).Pairwise (· < ·) := by
  unfold endingOn
  split
  · exact h.pairwise
  · rename_i hlast
    refine List.pairwise_append.mpr ⟨h.pairwise, List.pairwise_singleton _ _, fun x hx y hy => ?_⟩
    rw [List.mem_singleton.mp hy]
    exact h.lt_stop hlast hx

theorem head?_endingOn (h : i.Regular start stop regular) (hle : start ≤ stop) :
    (endingOn stop regular).head? = some start := by
  unfold endingOn
  split
  · exact h.head?_eq hle
  · rw [List.head?_append, h.head?_eq hle, Option.some_or]

end Regular

end Interval

namespace Timeline
variable {t : Timeline} {regular : List Date}

theorem regularFrom_succ_of_le {budget index : Nat} {d : Date}
    (h : d.toCivilDate = t.interval.nth t.start index) (hle : d ≤ t.stop) :
    t.regularFrom (budget + 1) index = d :: t.regularFrom budget (index + 1) := by
  rw [regularFrom, Interval.nth?_eq_some_iff.mpr h]
  exact if_pos hle

theorem regularFrom_succ_of_not {budget index : Nat}
    (h : ¬ ∃ d : Date, d.toCivilDate = t.interval.nth t.start index ∧ d ≤ t.stop) :
    t.regularFrom (budget + 1) index = [] := by
  rw [regularFrom]
  split
  · rename_i d hd
    exact if_neg fun hle => h ⟨d, Interval.nth?_eq_some_iff.mp hd, hle⟩
  · rfl

/-- The scan finds the regular dates one by one, as many as the budget allows. -/
theorem getElem?_regularFrom (t : Timeline) (budget index k : Nat) (x : Date) :
    (t.regularFrom budget index)[k]? = some x ↔
      k < budget ∧ x.toCivilDate = t.interval.nth t.start (index + k) ∧ x ≤ t.stop := by
  induction budget generalizing index k with
  | zero => simp [regularFrom]
  | succ budget ih =>
    by_cases hgoes : ∃ d : Date, d.toCivilDate = t.interval.nth t.start index ∧ d ≤ t.stop
    · obtain ⟨d, hd, hle⟩ := hgoes
      rw [regularFrom_succ_of_le hd hle]
      cases k with
      | zero =>
        rw [List.getElem?_cons_zero, Option.some.injEq, Nat.add_zero]
        constructor
        · rintro rfl
          exact ⟨Nat.succ_pos _, hd, hle⟩
        · rintro ⟨_, hx, _⟩
          exact Date.dayNumber_inj.mp (congrArg CivilDate.dayNumber (hd.trans hx.symm))
      | succ k =>
        rw [List.getElem?_cons_succ, ih, Nat.succ_lt_succ_iff, Nat.add_right_comm, Nat.add_assoc]
    · -- the scan ends here for good: past this date, none lies in the period any more
      rw [regularFrom_succ_of_not hgoes]
      refine ⟨nofun, ?_⟩
      rintro ⟨_, hx, hle⟩
      exact absurd (Interval.exists_nth_of_le hx hle (Nat.le_add_right _ _)) hgoes

/-- A budget takes the first regular dates, and no others. -/
theorem regularFrom_eq_take (h : t.interval.Regular t.start t.stop regular) (budget : Nat) :
    t.regularFrom budget 0 = regular.take budget := by
  apply List.ext_getElem?
  intro n
  apply Option.ext
  intro x
  rw [getElem?_regularFrom, Nat.zero_add, ← h, List.getElem?_take]
  split
  · rename_i hn
    exact and_iff_right hn
  · rename_i hn
    exact iff_of_false (fun hx => hn hx.1) nofun

/-- A period has only so many regular dates, since no two of them fall on one day. -/
theorem exists_regular (start stop : Date) (i : Interval) :
    ∃ regular, i.Regular start stop regular := by
  let days := (stop.dayNumber - start.dayNumber).toNat
  refine ⟨regularFrom ⟨start, stop, i, 0⟩ (days + 1) 0, fun n x => ?_⟩
  rw [getElem?_regularFrom, Nat.zero_add, and_iff_right_iff_imp]
  rintro ⟨hx, hle⟩
  have hdays := i.add_le_dayNumber_nth start n
  rw [← hx] at hdays
  have hle : x.dayNumber ≤ stop.dayNumber := hle
  omega

/-- The last day of the period counts for the budget like a regular date. -/
theorem dates_eq_take (h : t.interval.Regular t.start t.stop regular) (hle : t.start ≤ t.stop) :
    t.dates = (Interval.endingOn t.stop regular).take t.budget.toNat := by
  simp only [dates, Interval.endingOn, if_neg (not_lt.mpr hle), regularFrom_eq_take h]
  rcases Nat.lt_or_ge regular.length t.budget.toNat with hroom | hfull
  · rw [List.take_of_length_le (Nat.le_of_lt hroom)]
    by_cases hlast : regular.getLast? = some t.stop
    · rw [if_neg fun hcond => hcond.2 hlast, if_pos hlast,
        List.take_of_length_le (Nat.le_of_lt hroom)]
    · rw [if_pos ⟨hroom, hlast⟩, if_neg hlast, List.take_of_length_le]
      rw [List.length_append, List.length_singleton]
      exact hroom
  · -- The budget is spent before the last day.
    have hspent : ¬ (regular.take t.budget.toNat).length < t.budget.toNat := by
      rw [List.length_take, Nat.min_eq_left hfull]
      exact Nat.lt_irrefl _
    rw [if_neg fun hcond => hspent hcond.1]
    split
    · rfl
    · rw [List.take_append_of_le_length hfull]

/-- The dates of a timeline are the first ones, as many as the budget allows, of one list for its
period: all the regular dates that are not after the last day, and then that day if it is none of
them. The list ascends from the first day of the period to the last. Turned round, a period has no
dates. -/
theorem dates_exact (start stop : Date) (i : Interval) :
    (∀ budget, stop < start ∨ budget = 0 → dates ⟨start, stop, i, budget⟩ = []) ∧
    (start ≤ stop → ∃ regular full : List Date,
      (∀ n x, regular[n]? = some x ↔ x.toCivilDate = i.nth start n ∧ x ≤ stop) ∧
      full = (if regular.getLast? = some stop then regular else regular ++ [stop]) ∧
      full.Pairwise (· < ·) ∧ full.head? = some start ∧ full.getLast? = some stop ∧
      ∀ budget, dates ⟨start, stop, i, budget⟩ = full.take budget.toNat) := by
  obtain ⟨regular, h⟩ := exists_regular start stop i
  refine ⟨?_, fun hle => ⟨regular, Interval.endingOn stop regular, h, rfl, h.pairwise_endingOn,
    h.head?_endingOn hle, Interval.getLast?_endingOn stop regular, fun budget => ?_⟩⟩
  · rintro budget (hlt | rfl)
    · exact if_pos hlt
    · rcases lt_or_ge stop start with hlt | hle
      · exact if_pos hlt
      · exact dates_eq_take (t := ⟨start, stop, i, 0⟩) h hle
  · exact dates_eq_take (t := ⟨start, stop, i, budget⟩) h hle

def winterStart : Date := (Date.ofParts? 2025 1 31).get (by decide)

def springStop : Date := (Date.ofParts? 2025 4 15).get (by decide)

/-- The ends of three months, the second one shorter, and then the middle of the fourth. -/
theorem dates_exact_monthEnds : winterStart ≤ springStop ∧
    dates ⟨springStop, winterStart, .monthly, 100⟩ = [] ∧
    (dates ⟨winterStart, springStop, .monthly, 100⟩).map (fun d => (d.month, d.day)) =
      [(1, 31), (2, 28), (3, 31), (4, 15)] ∧
    ∃ regular full : List Date,
      (∀ n x, regular[n]? = some x ↔
        x.toCivilDate = Interval.monthly.nth winterStart n ∧ x ≤ springStop) ∧
      full = (if regular.getLast? = some springStop then regular else regular ++ [springStop]) ∧
      full.Pairwise (· < ·) ∧ full.head? = some winterStart ∧ full.getLast? = some springStop ∧
      ∀ budget, dates ⟨winterStart, springStop, .monthly, budget⟩ = full.take budget.toNat := by
  refine ⟨by decide, ?_, by decide +kernel, ?_⟩
  · exact (dates_exact springStop winterStart .monthly).1 100 (.inl (by decide))
  · exact (dates_exact winterStart springStop .monthly).2 (by decide)

end Timeline
end NetWorth
