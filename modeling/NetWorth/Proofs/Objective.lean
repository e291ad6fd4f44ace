import NetWorth.Proofs.Amount.Total
import NetWorth.Proofs.Trajectory

/-! Objectives against charts. An objective looks for the first possession of a name, a chart adds
up all of that name. Where no name occurs twice, what an objective finds can be read off the
chart. -/
namespace NetWorth

namespace Estate
variable {e : Estate} {name : String}

theorem names_moveTo (e : Estate) (date : Date) :
    (e.moveTo date).possessions.map (·.name) = e.possessions.map (·.name) := by
  rw [moveTo, List.map_map]
  exact List.map_congr_left fun p _ => p.name_moveTo date

/-- Of possessions with names of their own, only the one that is found has its name. -/
theorem filter_held_of_find? (h : (e.possessions.map (·.name)).Nodup) {p : Possession}
    (hfind : e.held.find? (·.name = name) = some p) : e.held.filter (·.name = name) = [p] := by
  obtain ⟨hp, before, after, hheld, hbefore⟩ := List.find?_eq_some_iff_append.mp hfind
  have hnodup : (e.held.map (·.name)).Nodup := h.sublist (List.filter_sublist.map _)
  rw [hheld, List.map_append, List.map_cons, List.nodup_append] at hnodup
  have hafter : ∀ q ∈ after, q.name ≠ p.name := fun q hq heq =>
    (List.nodup_cons.mp hnodup.2.1).1 (heq ▸ List.mem_map_of_mem hq)
  rw [decide_eq_true_eq] at hp
  rw [hheld, List.filter_append, List.filter_cons_of_pos (by simpa using hp),
    List.filter_eq_nil_iff.mpr fun q hq => by simpa using hbefore q hq,
    List.filter_eq_nil_iff.mpr fun q hq => by simpa [← hp] using hafter q hq, List.nil_append]

/-- Where no name occurs twice, the value at a name is that of one possession. -/
theorem find?_valuesByName_of_nodup (h : (e.possessions.map (·.name)).Nodup) :
    e.valuesByName.find? name = (e.held.find? (·.name = name)).map (·.value) := by
  cases hfind : e.held.find? (·.name = name) with
  | none =>
    rw [Option.map_none, ← Option.not_isSome_iff_eq_none, NameMap.find?_isSome_iff,
      mem_names_valuesByName]
    rintro ⟨p, hp, hname⟩
    exact List.find?_eq_none.mp hfind p hp (decide_eq_true hname)
  | some p =>
    have hname : p.name = name := by simpa using List.find?_some hfind
    have hmem : name ∈ e.valuesByName.names :=
      mem_names_valuesByName.mpr ⟨p, List.mem_of_find?_eq_some hfind, hname⟩
    obtain ⟨value, hvalue⟩ := Option.isSome_iff_exists.mp (NameMap.find?_isSome_iff.mpr hmem)
    have htotal := find?_valuesByName hvalue
    rw [filter_held_of_find? h hfind, List.map_singleton, Amount.total_singleton] at htotal
    rw [hvalue, htotal, Option.map_some]

end Estate

namespace Objective
variable {e : Estate} {name : String} {target : Amount} {date : Date}

theorem shortfall?_aggregate_eq_none_iff :
    (aggregate target date).shortfall? e = none ↔ target ≤ (e.moveTo date).aggregate := by
  change (if target ≤ (e.moveTo date).aggregate then none else some _) = none ↔ _
  split
  · rename_i hmet
    exact iff_of_true rfl hmet
  · rename_i hmissed
    exact iff_of_false nofun hmissed

/-- Where no name occurs twice, an objective about one possession judges what a chart has under its
name. -/
theorem shortfall?_possession_of_nodup (hnames : (e.possessions.map (·.name)).Nodup)
    (name : String) (target : Amount) (date : Date) :
    (possession name target date).shortfall? e =
      ((e.moveTo date).valuesByName.find? name).elim (some (absence name date)) fun value =>
        if target ≤ value then none else some (shortage name date value) := by
  have hmoved : ((e.moveTo date).possessions.map (·.name)).Nodup := by
    rw [Estate.names_moveTo]
    exact hnames
  rw [Estate.find?_valuesByName_of_nodup hmoved]
  unfold possession
  dsimp only
  cases (e.moveTo date).held.find? (·.name = name) with
  | none => rfl
  | some p => rfl

/-- A shortage is never worded like an absence. -/
theorem shortage_ne_absence (name : String) (date : Date) (value : Amount) :
    shortage name date value ≠ absence name date := by
  intro h
  have hchars : ("'" ++ name ++ "' on " ++ date.text ++ " is " ++ Numeral.text value.toInt).toList =
    ("possession '" ++ name ++ "' is absent on " ++ date.text).toList := congrArg String.toList h
  simp only [String.toList_append, List.append_assoc] at hchars
  -- The first characters differ already.
  have hquote : "'".toList = [Char.ofNat 39] := rfl
  have hword : "possession '".toList = 'p' :: "ossession '".toList := rfl
  rw [hquote, hword] at hchars
  exact absurd (List.cons.inj hchars).1 (by decide)

end Objective

namespace Case
variable {c : Case} {start stop : Date} {s : Settings} {point : TrajectoryPoint}

/-- The aggregate of a point decides about an objective on its date. -/
theorem shortfall?_aggregate_of_mem (hpoint : point ∈ (c.sampleBetween start stop s).points)
    (target : Amount) :
    (Objective.aggregate target point.date).shortfall? c.estate = none ↔
      target ≤ point.aggregate := by
  obtain ⟨date, _, rfl⟩ := List.mem_map.mp hpoint
  exact Objective.shortfall?_aggregate_eq_none_iff

/-- What a point has under a name decides about an objective for it on its date. -/
theorem shortfall?_possession_of_mem (hnames : (c.estate.possessions.map (·.name)).Nodup)
    (hpoint : point ∈ (c.sampleBetween start stop s).points) (name : String) (target : Amount) :
    (Objective.possession name target point.date).shortfall? c.estate =
      (point.byName.find? name).elim (some (Objective.absence name point.date)) fun value =>
        if target ≤ value then none else some (Objective.shortage name point.date value) := by
  obtain ⟨date, _, rfl⟩ := List.mem_map.mp hpoint
  exact Objective.shortfall?_possession_of_nodup hnames name target date

/-- Objectives that fall on the date of a point of a chart can be read off the point: the aggregate
decides about the whole, the amount at a name about a possession, and a name without an amount is
reported as absent. -/
theorem shortfall?_sampleBetween (hnames : (c.estate.possessions.map (·.name)).Nodup)
    (hpoint : point ∈ (c.sampleBetween start stop s).points) (name : String) (target : Amount) :
    ((Objective.aggregate target point.date).shortfall? c.estate = none ↔
      target ≤ point.aggregate) ∧
    ((Objective.possession name target point.date).shortfall? c.estate = none ↔
      ∃ value, point.byName.find? name = some value ∧ target ≤ value) ∧
    ((Objective.possession name target point.date).shortfall? c.estate =
      some ("possession '" ++ name ++ "' is absent on " ++ point.date.text) ↔
        point.byName.find? name = none) := by
  have hwording := Objective.shortage_ne_absence name point.date
  refine ⟨shortfall?_aggregate_of_mem hpoint target, ?_⟩
  rw [shortfall?_possession_of_mem hnames hpoint]
  change _ ∧ (_ = some (Objective.absence name point.date) ↔ _)
  -- of the wordings it matters only that they differ
  generalize Objective.absence name point.date = absent at hwording ⊢
  cases point.byName.find? name with
  | none => simp
  | some value =>
    by_cases hmet : target ≤ value
    · simp [hmet]
    · simp [hmet, hwording]

def opening : Date := (Date.ofParts? 2023 5 1).get (by decide)

def workshop : Case :=
  ⟨"workshop", ⟨"workshop", "Ada", opening, [.cash "till" opening 40, .debt "lease" opening 25,
    .cash "bequest" Date.last 100]⟩, opening, [], by decide⟩

/-- The lease stays above its limit, and the bequest is reported as absent. -/
theorem shortfall?_sampleBetween_workshop :
    let point := (workshop.estate.moveTo opening).point
    (workshop.estate.possessions.map (·.name)).Nodup ∧
      point ∈ (workshop.sampleBetween opening opening {}).points ∧
      point.aggregate = 15 ∧ point.byName.entries = [("lease", -25), ("till", 40)] ∧
      (Objective.possession "lease" (-30) opening).shortfall? workshop.estate = none ∧
      (Objective.possession "bequest" 0 opening).shortfall? workshop.estate =
        some "possession 'bequest' is absent on 2023-05-01" := by
  have hnames : (workshop.estate.possessions.map (·.name)).Nodup := by decide
  have hpoint : (workshop.estate.moveTo opening).point ∈
      (workshop.sampleBetween opening opening {}).points := by decide +kernel
  refine ⟨hnames, hpoint, by decide +kernel, by decide +kernel, ?_, ?_⟩
  · exact (shortfall?_sampleBetween hnames hpoint "lease" (-30)).2.1.mpr
      ⟨-25, by decide +kernel, by decide⟩
  · exact (shortfall?_sampleBetween hnames hpoint "bequest" 0).2.2.mpr (by decide +kernel)

end Case
end NetWorth
