import Mathlib.Data.List.Forall2
import NetWorth.Proofs.Declaration.Dating
import NetWorth.Proofs.Reconciliation.Pairing

/-! What labels do to the value of things. A labeled possession is restated to the start of its
merged case; nothing in a built case is older than that, so on the planned side, and in cases that
have no counterpart, labeling changes names and nothing else. -/
namespace NetWorth

/-- On a date, a possession stands for another one under a label. -/
structure Possession.StandsFor (label : String) (date : Date) (p q : Possession) : Prop where
  name_eq : q.name = label ++ ": " ++ p.name
  since_eq : q.since = p.since
  kind_eq : q.kind = p.kind
  value_eq : q.value = p.value
  held_eq : q.heldOn date = p.heldOn date

theorem Possession.standsFor_label (label : String) (date : Date) (p : Possession) :
    StandsFor label date p (p.label label) :=
  ⟨p.name_label label, rfl, rfl, rfl, rfl⟩

namespace Estate

/-- Under a label, every possession is restated first. -/
theorem labeled_eq (e : Estate) (label : String) (date : Date) :
    e.labeled label date = e.possessions.map fun p => (p.restated date).label label := rfl

theorem length_labeled (e : Estate) (label : String) (date : Date) :
    (e.labeled label date).length = e.possessions.length := by
  rw [labeled_eq, List.length_map]

/-- Nothing under a label is of an earlier date than the one it was restated to. -/
theorem le_since_of_mem_labeled {e : Estate} {label : String} {date : Date} {q : Possession}
    (h : q ∈ e.labeled label date) : date ≤ q.since := by
  rw [labeled_eq] at h
  obtain ⟨p, _, rfl⟩ := List.mem_map.mp h
  exact p.le_since_restated date

end Estate

namespace Case
variable {c : Case}

/-- A merged case has the planned possessions, and behind them what was done. -/
theorem possessions_joined (p d : Case) (s : Settings) : (p.joined d s).estate.possessions =
    p.estate.labeled s.plannedLabel p.start ++ d.estate.labeled s.doneLabel p.start := rfl

/-- Where nothing is older than the case, its start restates nothing. -/
theorem Dated.labeled_start (h : c.Dated) (label : String) :
    c.estate.labeled label c.start = c.estate.possessions.map (·.label label) := by
  rw [Estate.labeled_eq]
  apply List.map_congr_left
  intro p hp
  rw [Possession.restated_of_le (h p hp)]

/-- Labels and later dates do not get in each other's way. -/
theorem Dated.moveTo_labeled (h : c.Dated) (label : String) (date : Date) :
    (c.estate.labeled label c.start).map (·.moveTo date) =
      (c.estate.moveTo date).possessions.map (·.label label) := by
  rw [h.labeled_start, Estate.moveTo, List.map_map, List.map_map]
  apply List.map_congr_left
  intro p _
  exact (p.label_moveTo label date).symm

/-- Where nothing is older than the case, labeled possessions stand for those without label. -/
theorem Dated.forall₂_moveTo_labeled (h : c.Dated) (label : String) (date : Date) :
    List.Forall₂ (Possession.StandsFor label date) (c.estate.moveTo date).possessions
      ((c.estate.labeled label c.start).map (·.moveTo date)) := by
  rw [h.moveTo_labeled, List.forall₂_map_right_iff, List.forall₂_same]
  intro p _
  exact p.standsFor_label label date

theorem Dated.aggregate_moveTo_labeled (h : c.Dated) (label : String) (date : Date) :
    ((c.holding (c.estate.labeled label c.start)).estate.moveTo date).aggregate =
      (c.estate.moveTo date).aggregate := by
  have hheld : ((c.holding (c.estate.labeled label c.start)).estate.moveTo date).held =
      (c.estate.moveTo date).held.map (·.label label) := by
    simp only [Estate.held, Estate.moveTo, holding]
    rw [h.moveTo_labeled, List.filter_map]
    rfl
  rw [Estate.aggregate, hheld, List.map_map]
  rfl

end Case

/-- On a date, the merged case of an outcome shows what the outcome has: the planned side first
where both sides are there, and otherwise the only side, whose net worth it then has. -/
inductive Settings.Keeps (s : Settings) (date : Date) : CaseOutcome → Case → Prop
  | matched {name : String} {p d c : Case} {front back : List Possession}
      (split : (c.estate.moveTo date).possessions = front ++ back)
      (planned : List.Forall₂ (Possession.StandsFor s.plannedLabel date)
        (p.estate.moveTo date).possessions front)
      (done : back.map (·.name) = d.estate.possessions.map fun q => s.doneLabel ++ ": " ++ q.name) :
      Keeps s date ⟨name, .matched, some p, some d⟩ c
  | notYetRealized {name : String} {p c : Case}
      (possessions : List.Forall₂ (Possession.StandsFor s.plannedLabel date)
        (p.estate.moveTo date).possessions (c.estate.moveTo date).possessions)
      (aggregate : (c.estate.moveTo date).aggregate = (p.estate.moveTo date).aggregate) :
      Keeps s date ⟨name, .notYetRealized, some p, none⟩ c
  | unplannedActual {name : String} {d c : Case}
      (possessions : List.Forall₂ (Possession.StandsFor s.doneLabel date)
        (d.estate.moveTo date).possessions (c.estate.moveTo date).possessions)
      (aggregate : (c.estate.moveTo date).aggregate = (d.estate.moveTo date).aggregate) :
      Keeps s date ⟨name, .unplannedActual, none, some d⟩ c

section
variable {s : Settings} {planned done : CaseSet} {name : String} {o : CaseOutcome} {c : Case}

theorem Case.names_moveTo_labeled (d : Case) (label : String) (start date : Date) :
    ((d.estate.labeled label start).map (·.moveTo date)).map (·.name) =
      d.estate.possessions.map fun q => label ++ ": " ++ q.name := by
  rw [Estate.labeled_eq, List.map_map, List.map_map]
  apply List.map_congr_left
  intro q _
  simp [Possession.name_label, Possession.labelName]

/-- Where nothing is older than its case, joining cases keeps their values. -/
theorem Settings.keeps_of_join (hp : ∀ name p, planned.get? name = some p → p.Dated)
    (hd : ∀ name d, done.get? name = some d → d.Dated) (date : Date)
    (h : s.join name (planned.get? name) (done.get? name) = some (o, c)) : s.Keeps date o c := by
  unfold join at h
  split at h
  case h_1 p d hpn _ =>
    cases h
    have hsplit : ((p.joined d s).estate.moveTo date).possessions =
        (p.estate.labeled s.plannedLabel p.start).map (·.moveTo date) ++
          (d.estate.labeled s.doneLabel p.start).map (·.moveTo date) := by
      rw [Estate.moveTo, Case.possessions_joined, List.map_append]
    exact .matched hsplit ((hp name p hpn).forall₂_moveTo_labeled s.plannedLabel date)
      (d.names_moveTo_labeled ..)
  case h_2 p hpn _ =>
    cases h
    exact .notYetRealized ((hp name p hpn).forall₂_moveTo_labeled ..)
      ((hp name p hpn).aggregate_moveTo_labeled ..)
  case h_3 d _ hdn =>
    cases h
    exact .unplannedActual ((hd name d hdn).forall₂_moveTo_labeled ..)
      ((hd name d hdn).aggregate_moveTo_labeled ..)
  case h_4 => cases h

end

/-- Labels change no value on the planned side, nor of cases that only one side has: on every date
the merged case of built scenarios shows there what the source case shows, one by one. -/
theorem reconcile_keeps_values {s : Settings} {plan actual : ScenarioDecl} {planned done : CaseSet}
    {r : Reconciliation} (hp : plan.build = .ok planned) (hd : actual.build = .ok done)
    (h : reconcile s planned done = .ok r) (date : Date) :
    ∀ o ∈ r.outcomes, o.Pairs planned done ∧
      ∃ c, r.merged.get? o.name = some c ∧ s.Keeps date o c := by
  intro o ho
  obtain ⟨c, hc⟩ := (mem_outcomes_iff h).mp ho
  refine ⟨Settings.pairs_of_join hc, c, ?_, ?_⟩
  · rw [get?_merged h, hc]
    rfl
  · exact Settings.keeps_of_join (fun _ _ => ScenarioDecl.dated_of_build hp)
      (fun _ _ => ScenarioDecl.dated_of_build hd) date hc

def carPlan : ScenarioDecl where
  cases := [
    { name := "cars"
      owner := "Ada"
      start := .ofParts 2021 1 1
      stop := .ofParts 2024 1 1
      possessions := [
        .asset "old" (.ofParts 2020 7 1) (.ofInt 1000) (.literal 0.1),
        .asset "new" (.ofParts 2022 7 1) (.ofInt 5000) (.literal (-0.2))] }]

def carRecord : ScenarioDecl where
  cases := [
    { name := "cars"
      owner := "Ada"
      start := .ofParts 2020 7 1
      stop := .ofParts 2023 1 1
      possessions := [
        .asset "old" (.ofParts 2020 7 1) (.ofInt 1000) (.literal 0.1),
        .cash "purse" (.ofParts 2020 7 1) (.ofInt 30)] }]

theorem reconcile_keeps_cars : ∃ planned done r, carPlan.build = .ok planned ∧
    carRecord.build = .ok done ∧ reconcile {} planned done = .ok r ∧
    r.outcomes.map (·.status) = [.matched] ∧ ∀ o ∈ r.outcomes, o.Pairs planned done ∧
      ∃ c, r.merged.get? o.name = some c ∧ Settings.Keeps {} Date.last o c := by
  have hplan : ∃ planned, carPlan.build = .ok planned := ⟨_, rfl⟩
  have hrecord : ∃ done, carRecord.build = .ok done := ⟨_, rfl⟩
  obtain ⟨planned, hp⟩ := hplan
  obtain ⟨done, hd⟩ := hrecord
  have hr : ∃ r, reconcile {} planned done = .ok r := by
    cases hp
    cases hd
    exact ⟨_, rfl⟩
  obtain ⟨r, h⟩ := hr
  refine ⟨planned, done, r, hp, hd, h, ?_, reconcile_keeps_values hp hd h Date.last⟩
  cases hp
  cases hd
  cases h
  rfl

end NetWorth
