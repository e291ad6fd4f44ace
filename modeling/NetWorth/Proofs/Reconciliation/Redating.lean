import NetWorth.Proofs.Law
import NetWorth.Proofs.Reconciliation.Labeling

/-! The done side of merged cases. Its possessions are restated to the planned start, and later
values are carried on from there. That a possession is held, and since when, does not depend on it;
its value does where carrying over the planned start drifts. -/
namespace NetWorth

namespace Possession
variable {start date : Date}

theorem restated_of_lt {p : Possession} (h : p.since < start) :
    p.restated start = p.moveTo start := if_neg (ne_of_lt h)

/-- From the date on to which it is restated, a possession is held when it would be anyway. -/
theorem heldOn_moveTo_restated (p : Possession) (h : start ≤ date) :
    ((p.restated start).moveTo date).heldOn date = (p.moveTo date).heldOn date := by
  rw [heldOn_moveTo, heldOn_moveTo]
  rcases le_or_gt start p.since with hle | hlt
  · rw [restated_of_le hle]
  · rw [restated_of_lt hlt, heldOn, heldOn, since_moveTo_of_held (le_of_lt hlt), decide_eq_decide]
    exact iff_of_true h (le_trans (le_of_lt hlt) h)

/-- Restated to a date in between, a possession has the same future, unless its value drifts. -/
theorem moveTo_restated {p : Possession} (h : start ≤ date)
    (hdrift : ¬ p.law.MayDrift p.since p.value start date) :
    (p.restated start).moveTo date = p.moveTo date := by
  rcases le_or_gt start p.since with hle | hlt
  · rw [restated_of_le hle]
  · have hheld : p.since ≤ start := le_of_lt hlt
    have hlater : (p.moveTo start).since ≤ date := by
      rw [since_moveTo_of_held hheld]
      exact h
    have hvalue := valueOn_moveTo_of_carry hheld h (Law.carry_carry hheld h hdrift)
    rw [restated_of_lt hlt, moveTo_of_held hlater, hvalue, moveTo_of_held hheld, update_update,
      moveTo_of_held (le_trans hheld h)]

/-- On a date, a possession goes on with what another one was when the merged case started. -/
structure GoesOn (label : String) (start date : Date) (p q : Possession) : Prop where
  name_eq : q.name = label ++ ": " ++ p.name
  held_eq : q.heldOn date = (p.moveTo date).heldOn date
  restated_eq : q.value = ((p.restated start).moveTo date).value
  value_eq : ¬ p.law.MayDrift p.since p.value start date → q.value = (p.moveTo date).value

/-- Restated and under a label, a possession goes on with what it was then. -/
theorem goesOn_label (label : String) (h : start ≤ date) (p : Possession) :
    GoesOn label start date p (((p.restated start).label label).moveTo date) := by
  have hlabel := (p.restated start).label_moveTo label date
  refine ⟨?_, ?_, ?_, fun hdrift => ?_⟩
  · rw [name_moveTo, name_label, name_restated, labelName]
  · rw [← hlabel]
    exact p.heldOn_moveTo_restated h
  · rw [← hlabel]
    rfl
  · rw [← hlabel, ← moveTo_restated h hdrift]
    rfl

end Possession

theorem Estate.forall₂_moveTo_labeled (e : Estate) (label : String) {start date : Date}
    (h : start ≤ date) :
    List.Forall₂ (Possession.GoesOn label start date) e.possessions
      ((e.labeled label start).map (·.moveTo date)) := by
  rw [labeled_eq, List.map_map, List.forall₂_map_right_iff, List.forall₂_same]
  intro p _
  exact Possession.goesOn_label label h p

/-- From the planned start on, a merged case shows what was done behind what was planned, one by
one: held when the done possession is held, with the value that this has when it is restated to the
planned start first, and with its own value unless carrying it over that day drifts. -/
theorem reconcile_redates_done {s : Settings} {planned done : CaseSet} {r : Reconciliation}
    (h : reconcile s planned done = .ok r) {name : String} {p d : Case}
    (hp : planned.get? name = some p) (hd : done.get? name = some d) :
    ∃ c, r.merged.get? name = some c ∧ c.start = p.start ∧ ∀ date, c.start ≤ date →
      ∃ front back, (c.estate.moveTo date).possessions = front ++ back ∧
        front.length = p.estate.possessions.length ∧
        List.Forall₂ (Possession.GoesOn s.doneLabel c.start date) d.estate.possessions back := by
  refine ⟨p.joined d s, ?_, rfl, fun date hdate =>
    ⟨(p.estate.labeled s.plannedLabel p.start).map (·.moveTo date),
      (d.estate.labeled s.doneLabel p.start).map (·.moveTo date), ?_, ?_, ?_⟩⟩
  · rw [get?_merged h, hp, hd]
    rfl
  · rw [Estate.moveTo, Case.possessions_joined, List.map_append]
  · rw [List.length_map, Estate.length_labeled]
  · exact d.estate.forall₂_moveTo_labeled s.doneLabel hdate

def newYear : Date := (Date.ofParts? 2022 1 1).get (by decide)

/-- A year after the planned start, the car has gained on what it had gained before that day, and
the purse is as full as in the record. -/
theorem reconcile_redates_cars : ∃ planned done r d c, carPlan.build = .ok planned ∧
    carRecord.build = .ok done ∧ reconcile {} planned done = .ok r ∧
    done.get? "cars" = some d ∧ r.merged.get? "cars" = some c ∧ c.start < newYear ∧
    ∃ car purse front old money, d.estate.possessions = [car, purse] ∧
      car.law.MayDrift car.since car.value c.start newYear ∧
      ¬ purse.law.MayDrift purse.since purse.value c.start newYear ∧
      (c.estate.moveTo newYear).possessions = front ++ [old, money] ∧ front.length = 2 ∧
      car.GoesOn "Réalisé" c.start newYear old ∧ purse.GoesOn "Réalisé" c.start newYear money ∧
      old.value = 1210 ∧ (car.moveTo newYear).value = 1200 ∧
      money.value = 30 ∧ (purse.moveTo newYear).value = 30 := by
  obtain ⟨planned, hp⟩ : ∃ planned, carPlan.build = .ok planned := ⟨_, rfl⟩
  obtain ⟨done, hd⟩ : ∃ done, carRecord.build = .ok done := ⟨_, rfl⟩
  have hcases : ∃ p d r car purse, planned.get? "cars" = some p ∧
      p.estate.possessions.length = 2 ∧ done.get? "cars" = some d ∧
      reconcile {} planned done = .ok r ∧ d.estate.possessions = [car, purse] ∧
      p.start < newYear ∧ car.law.MayDrift car.since car.value p.start newYear ∧
      ((car.restated p.start).moveTo newYear).value = 1210 ∧
      (car.moveTo newYear).value = 1200 ∧ (purse.moveTo newYear).value = 30 ∧
      purse.law = .cash := by
    cases hp
    cases hd
    refine ⟨_, _, _, _, _, rfl, rfl, rfl, rfl, rfl, by decide, ⟨?_, by decide, by decide⟩, ?_, ?_, ?_,
      rfl⟩ <;> decide +kernel
  obtain ⟨p, d, r, car, purse, hpn, htwo, hdn, h, hrecord, hlater, hdrift, hcar, hcar', hpurse,
    hcash⟩ := hcases
  obtain ⟨c, hc, hstart, hall⟩ := reconcile_redates_done h hpn hdn
  rw [← hstart] at hlater hdrift hcar
  obtain ⟨front, back, hsplit, hlength, hgoes⟩ := hall newYear (le_of_lt hlater)
  rw [hrecord] at hgoes
  obtain ⟨old, rest, hold, hrest, rfl⟩ := List.forall₂_cons_left_iff.mp hgoes
  obtain ⟨money, last, hmoney, hlast, rfl⟩ := List.forall₂_cons_left_iff.mp hrest
  rw [List.forall₂_nil_left_iff.mp hlast] at hsplit
  have hstays : ¬ purse.law.MayDrift purse.since purse.value c.start newYear := by
    rw [hcash]
    exact id
  exact ⟨planned, done, r, d, c, hp, hd, h, hdn, hc, hlater, car, purse, front, old, money, hrecord,
    hdrift, hstays, hsplit, hlength.trans htwo, hold, hmoney, hold.restated_eq.trans hcar, hcar',
    (hmoney.value_eq hstays).trans hpurse, hpurse⟩

def latePlan : ScenarioDecl where
  cases := [
    { name := "cars"
      owner := "Ada"
      start := .ofParts 2021 1 1
      stop := .ofParts 2023 1 1 }]

/-- A record from the weeks before, with a car and with tolls that no amount can hold together. -/
def earlyRecord : ScenarioDecl where
  cases := [
    { name := "cars"
      owner := "Ada"
      start := .ofParts 2020 12 15
      stop := .ofParts 2023 1 1
      possessions := [
        .asset "car" (.ofParts 2020 12 15) (.ofInt 1000) (.literal 0.1),
        .flow "tolls" (.ofParts 2020 12 15) (.ofParts 2021 2 15) (.ofInt 5000000000000000000)
          (.ofInt 1) (some (.ofInt (-10)))] }]

/-- Restated at the beginning of the plan, the car gains on what it has gained before, and the tolls
are no longer cut off before they are added up. -/
theorem restated_values_drift : ∃ planned done r c d, latePlan.build = .ok planned ∧
    earlyRecord.build = .ok done ∧ Settings.validate {} = .ok () ∧
    reconcile {} planned done = .ok r ∧
    r.merged.get? "cars" = some c ∧ done.get? "cars" = some d ∧ c.start ≤ newYear ∧
    ((c.estate.moveTo newYear).possessions.map fun q => (q.name, q.value)) =
      [("Réalisé: car", 1210), ("Réalisé: tolls", 9223372036854775807)] ∧
    ((d.estate.moveTo newYear).possessions.map fun q => (q.name, q.value)) =
      [("car", 1200), ("tolls", 9223372036854775797)] := by
  have hplan : ∃ planned, latePlan.build = .ok planned := ⟨_, rfl⟩
  have hrecord : ∃ done, earlyRecord.build = .ok done := ⟨_, rfl⟩
  obtain ⟨planned, hp⟩ := hplan
  obtain ⟨done, hd⟩ := hrecord
  have hr : ∃ r c d, reconcile {} planned done = .ok r ∧
      r.merged.get? "cars" = some c ∧ done.get? "cars" = some d ∧ c.start ≤ newYear ∧
      ((c.estate.moveTo newYear).possessions.map fun q => (q.name, q.value)) =
        [("Réalisé: car", 1210), ("Réalisé: tolls", 9223372036854775807)] ∧
      ((d.estate.moveTo newYear).possessions.map fun q => (q.name, q.value)) =
        [("car", 1200), ("tolls", 9223372036854775797)] := by
    cases hp
    cases hd
    exact ⟨_, _, _, rfl, rfl, rfl, by decide, by decide +kernel, by decide +kernel⟩
  obtain ⟨r, c, d, h⟩ := hr
  exact ⟨planned, done, r, c, d, hp, hd, by decide, h⟩

end NetWorth
