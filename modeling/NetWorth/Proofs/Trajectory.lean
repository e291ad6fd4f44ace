import Mathlib.Data.Option.Defs
import Mathlib.Order.Bounds.Basic
import Mathlib.Order.Lattice
import NetWorth.Proofs.Amount
import NetWorth.Proofs.NameMap
import NetWorth.Proofs.Possession
import NetWorth.Reconciliation

/-! Charts against the laws of value. A chart moves the whole estate to each of its dates and adds
up what is held there. That comes to what the laws of the possessions give for the date, in all and
by name. -/
namespace NetWorth

theorem Possession.map_value_moveTo {ps : List Possession} {date : Date}
    (h : ∀ p ∈ ps, p.since ≤ date) :
    (ps.map (·.moveTo date)).map (·.value) = ps.map (·.valueOn date) := by
  rw [List.map_map]
  apply List.map_congr_left
  intro p hp
  exact value_moveTo_of_held (h p hp)

namespace Estate

/-- What is not held yet is worth nothing, so that leaving it out changes no sum. -/
theorem aggregate_moveTo (e : Estate) (date : Date) :
    (e.moveTo date).aggregate = Amount.total (e.possessions.map (·.valueOn date)) := by
  rw [aggregate, held_moveTo, Possession.map_value_moveTo]
  · apply Amount.total_map_filter
    intro p _ hp
    exact Possession.valueOn_of_not_held (of_decide_eq_false hp)
  · intro p hp
    exact of_decide_eq_true (List.mem_filter.mp hp).2

theorem held_moveTo_named (e : Estate) (date : Date) (name : String) :
    (e.moveTo date).held.filter (·.name = name) =
      (e.possessions.filter fun p => p.name = name ∧ p.since ≤ date).map (·.moveTo date) := by
  rw [held_moveTo, List.filter_map, List.filter_filter]
  apply congrArg
  apply List.filter_congr
  intro p _
  simp [Possession.heldOn]

private def record (m : NameMap Amount) (p : Possession) : NameMap Amount :=
  m.insert p.name (((m.find? p.name).getD 0).plus p.value)

/-- Adding up by name keeps every name, of those before and of those that are added. -/
private theorem mem_names_record {ps : List Possession} {m : NameMap Amount} {name : String} :
    name ∈ (ps.foldl record m).names ↔ name ∈ m.names ∨ ∃ p ∈ ps, p.name = name := by
  induction ps generalizing m with
  | nil => simp
  | cons p ps ih =>
    rw [List.foldl_cons, ih, record, NameMap.mem_names_insert]
    simp only [List.mem_cons, exists_eq_or_imp]
    rw [or_comm (a := name = p.name), or_assoc, eq_comm (a := name)]

/-- What stands at a name is the sum of all that was recorded under it. -/
private theorem find?_record {ps : List Possession} {m : NameMap Amount} {name : String} :
    ((ps.foldl record m).find? name).getD 0 =
      ((ps.filter (·.name = name)).map (·.value)).foldl Amount.plus ((m.find? name).getD 0) := by
  induction ps generalizing m with
  | nil => rfl
  | cons p ps ih =>
    rw [List.foldl_cons, ih, record, NameMap.find?_insert]
    by_cases hn : p.name = name
    · subst hn
      simp
    · rw [if_neg (Ne.symm hn), List.filter_cons_of_neg (by simpa using hn)]

/-- A name is in the table exactly if something of this name is held. -/
theorem mem_names_valuesByName {e : Estate} {name : String} :
    name ∈ e.valuesByName.names ↔ ∃ p ∈ e.held, p.name = name :=
  mem_names_record.trans (or_iff_right List.not_mem_nil)

/-- The amount at a name is the sum of what is held under it. -/
theorem find?_valuesByName {e : Estate} {name : String} {value : Amount}
    (h : e.valuesByName.find? name = some value) :
    value = Amount.total ((e.held.filter (·.name = name)).map (·.value)) := by
  have hsum : (e.valuesByName.find? name).getD 0 = _ := find?_record
  rw [h] at hsum
  exact hsum

end Estate

/-- A point values possessions by their laws: all of them together, and those that are held by
name. -/
structure TrajectoryPoint.Values (ps : List Possession) (point : TrajectoryPoint) : Prop where
  aggregate_eq : point.aggregate = Amount.total (ps.map (·.valueOn point.date))
  mem_names_iff : ∀ name,
    name ∈ point.byName.names ↔ ∃ p ∈ ps, p.name = name ∧ p.since ≤ point.date
  find?_eq : ∀ name value, point.byName.find? name = some value →
    value = Amount.total
      ((ps.filter fun p => p.name = name ∧ p.since ≤ point.date).map (·.valueOn point.date))

/-- The point of an estate that was moved to a date values it by the laws. -/
theorem Estate.values_point_moveTo (e : Estate) (date : Date) :
    (e.moveTo date).point.Values e.possessions where
  aggregate_eq := e.aggregate_moveTo date
  mem_names_iff name := by
    change name ∈ (e.moveTo date).valuesByName.names ↔
      ∃ p ∈ e.possessions, p.name = name ∧ p.since ≤ date
    have hnamed : (∃ p ∈ (e.moveTo date).held, p.name = name) ↔
        (e.moveTo date).held.filter (·.name = name) ≠ [] := by
      simp
    rw [mem_names_valuesByName, hnamed, held_moveTo_named]
    simp
  find?_eq name value h := by
    rw [find?_valuesByName h, held_moveTo_named, Possession.map_value_moveTo]
    · rfl
    · intro p hp
      exact (of_decide_eq_true (List.mem_filter.mp hp).2).2

/-- A chart of a case has a point for each of some dates, which values what the case has. -/
structure Trajectory.Charts (dates : List Date) (c : Case) (t : Trajectory) : Prop where
  caseName_eq : t.caseName = c.name
  dates_eq : t.points.map (·.date) = dates
  values : ∀ point ∈ t.points, point.Values c.estate.possessions

/-- A chart has a point for every date of its timeline, in their order. -/
theorem Case.charts_sampleBetween (c : Case) (start stop : Date) (s : Settings) :
    (c.sampleBetween start stop s).Charts
      (Timeline.dates ⟨start, stop, s.interval, s.budget⟩) c where
  caseName_eq := rfl
  dates_eq := by
    rw [sampleBetween, List.map_map]
    exact List.map_id _
  values point h := by
    obtain ⟨date, _, rfl⟩ := List.mem_map.mp h
    exact c.estate.values_point_moveTo date

namespace CaseOutcome

/-- An outcome with a side has a period: from the first start to the last end. -/
theorem exists_period {o : CaseOutcome} (h : o.sides ≠ []) :
    ∃ start stop, o.period? = some (start, stop) ∧
      IsLeast {date | ∃ c ∈ o.sides, c.start = date} start ∧
      IsGreatest {date | ∃ c ∈ o.sides, c.stop = date} stop := by
  have hmin : (o.sides.map (·.start)).min? ≠ none := by simpa using h
  have hmax : (o.sides.map (·.stop)).max? ≠ none := by simpa using h
  obtain ⟨start, hstart⟩ := Option.ne_none_iff_exists'.mp hmin
  obtain ⟨stop, hstop⟩ := Option.ne_none_iff_exists'.mp hmax
  refine ⟨start, stop, ?_, ?_, ?_⟩
  · rw [period?, hstart, hstop]
    rfl
  · obtain ⟨hmem, hle⟩ := List.min?_eq_some_iff.mp hstart
    refine ⟨List.mem_map.mp hmem, ?_⟩
    rintro _ ⟨c, hc, rfl⟩
    exact hle _ (List.mem_map_of_mem hc)
  · obtain ⟨hmem, hle⟩ := List.max?_eq_some_iff.mp hstop
    refine ⟨List.mem_map.mp hmem, ?_⟩
    rintro _ ⟨c, hc, rfl⟩
    exact hle _ (List.mem_map_of_mem hc)

theorem trajectories_of_period {o : CaseOutcome} {start stop : Date}
    (h : o.period? = some (start, stop)) (s : Settings) :
    o.trajectories s = ⟨o.name, o.status, o.planned.map (·.sampleBetween start stop s),
      o.done.map (·.sampleBetween start stop s)⟩ := by
  unfold trajectories
  simp only [h, Option.bind_eq_bind, Option.bind_some]
  cases o.planned <;> cases o.done <;> rfl

/-- The charts of an outcome are the laws of value on one calendar: both sides that are there are
sampled on the dates from the first start to the last end of them. -/
theorem trajectories_value {o : CaseOutcome} (s : Settings) (h : o.sides ≠ []) :
    ∃ start stop, IsLeast {date | ∃ c ∈ o.sides, c.start = date} start ∧
      IsGreatest {date | ∃ c ∈ o.sides, c.stop = date} stop ∧
      let dates := Timeline.dates ⟨start, stop, s.interval, s.budget⟩
      Option.Rel (Trajectory.Charts dates) o.planned (o.trajectories s).planned ∧
        Option.Rel (Trajectory.Charts dates) o.done (o.trajectories s).done := by
  obtain ⟨start, stop, hperiod, hstart, hstop⟩ := exists_period h
  have hside (side : Option Case) : Option.Rel
      (Trajectory.Charts (Timeline.dates ⟨start, stop, s.interval, s.budget⟩)) side
      (side.map (·.sampleBetween start stop s)) := by
    cases side with
    | none => exact .none
    | some c => exact .some (c.charts_sampleBetween start stop s)
  refine ⟨start, stop, hstart, hstop, ?_⟩
  rw [trajectories_of_period hperiod]
  exact ⟨hside o.planned, hside o.done⟩

def winter : Date := (Date.ofParts? 2021 1 1).get (by decide)

def spring : Date := (Date.ofParts? 2021 4 1).get (by decide)

def purses : CaseOutcome where
  name := "savings"
  status := .matched
  planned := some ⟨"savings", ⟨"savings", "Ada", spring,
    [.cash "purse" spring 5, .cash "purse" winter 7, .debt "loan" Date.last 9]⟩, spring, [],
    by decide⟩
  done := some ⟨"savings", ⟨"savings", "Ada", winter,
    [((Possession.cash "purse" spring 1).label "inner").label "outer"]⟩, spring, [], by decide⟩

theorem trajectories_value_purses : purses.sides ≠ [] ∧
    ((purses.trajectories { interval := .yearly }).planned.map (·.aggregateSeries) =
      some [(winter, 7), (spring, 12)]) ∧
    ∃ start stop, IsLeast {date | ∃ c ∈ purses.sides, c.start = date} start ∧
      IsGreatest {date | ∃ c ∈ purses.sides, c.stop = date} stop ∧
      let dates := Timeline.dates ⟨start, stop, .yearly, 1200⟩
      Option.Rel (Trajectory.Charts dates) purses.planned
          (purses.trajectories { interval := .yearly }).planned ∧
        Option.Rel (Trajectory.Charts dates) purses.done
          (purses.trajectories { interval := .yearly }).done :=
  ⟨by decide, by decide +kernel, trajectories_value { interval := .yearly } (by decide)⟩

end CaseOutcome

end NetWorth
