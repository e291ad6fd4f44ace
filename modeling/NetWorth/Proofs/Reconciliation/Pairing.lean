import NetWorth.Proofs.Calendar.Order
import NetWorth.Proofs.Possession
import NetWorth.Proofs.Reconciliation.Join

/-! What a comparison makes of every name. -/
namespace NetWorth

/-- The possessions of a case by name and kind, the names under a label. -/
def Case.linesUnder (label : String) (c : Case) : List (String × String) :=
  c.estate.possessions.map fun p => (label ++ ": " ++ p.name, p.kind)

namespace CaseOutcome

/-- An outcome shows what the two sides have under its name, and its status says which have it. -/
structure Pairs (planned done : CaseSet) (o : CaseOutcome) : Prop where
  planned_eq : o.planned = planned.get? o.name
  done_eq : o.done = done.get? o.name
  matched_iff : o.status = .matched ↔ o.planned.isSome ∧ o.done.isSome
  notYetRealized_iff : o.status = .notYetRealized ↔ o.planned.isSome ∧ o.done = none
  unplannedActual_iff : o.status = .unplannedActual ↔ o.planned = none ∧ o.done.isSome

/-- A merged case has everything of both sides under their labels, the planned side first. It ends
with the later one and is otherwise the planned case, or the done case where nothing was planned. -/
structure Merges (s : Settings) (o : CaseOutcome) (c : Case) : Prop where
  name_eq : c.name = o.name
  possessions_eq : c.estate.possessions.map (fun p => (p.name, p.kind)) =
    o.planned.toList.flatMap (Case.linesUnder s.plannedLabel) ++
      o.done.toList.flatMap (Case.linesUnder s.doneLabel)
  lead : ∃ l, o.planned.or o.done = some l ∧ c.start = l.start ∧ c.estate.owner = l.estate.owner ∧
    c.estate.name = l.estate.name ∧ c.objectives = l.objectives
  stop_mem : c.stop ∈ o.sides.map (·.stop)
  le_stop : ∀ side ∈ o.sides, side.stop ≤ c.stop

end CaseOutcome

theorem Estate.lines_labeled (c : Case) (label : String) (date : Date) :
    (c.estate.labeled label date).map (fun p => (p.name, p.kind)) = c.linesUnder label := by
  rw [labeled, Case.linesUnder, List.map_map]
  apply List.map_congr_left
  intro p _
  rw [Function.comp_apply, Possession.name_label, Possession.kind_label]
  split
  · rfl
  · rw [Possession.name_moveTo, Possession.kind_moveTo]
    rfl

namespace Settings
variable {s : Settings} {planned done : CaseSet} {name : String} {o : CaseOutcome} {c : Case}

/-- Whatever is joined under a name has both sides of that name, and the status that fits. -/
theorem pairs_of_join (h : s.join name (planned.get? name) (done.get? name) = some (o, c)) :
    o.Pairs planned done := by
  unfold join at h
  split at h
  case h_1 hp hd | h_2 hp hd | h_3 hp hd =>
    cases h
    exact ⟨hp.symm, hd.symm, by simp, by simp, by simp⟩
  case h_4 => cases h

/-- Whatever is joined under a name has all possessions of its outcome, in their order. -/
theorem merges_of_join (h : s.join name (planned.get? name) (done.get? name) = some (o, c)) :
    o.Merges s c := by
  have hn := name_of_join h
  unfold join at h
  split at h
  case h_1 p d _ _ =>
    cases h
    exact {
      name_eq := hn.2.trans hn.1.symm
      possessions_eq := by
        simp [Case.joined, Case.holding, Estate.lines_labeled]
      lead := ⟨p, rfl, rfl, rfl, rfl, rfl⟩
      stop_mem := by
        rcases max_choice p.stop d.stop with hm | hm <;> simp [CaseOutcome.sides, Case.joined, hm]
      le_stop := by
        simp [CaseOutcome.sides, Case.joined] }
  case h_2 l _ _ | h_3 l _ _ =>
    cases h
    exact {
      name_eq := hn.2.trans hn.1.symm
      possessions_eq := by simp [Case.holding, Estate.lines_labeled]
      lead := ⟨l, rfl, rfl, rfl, rfl, rfl⟩
      stop_mem := by simp [CaseOutcome.sides, Case.holding]
      le_stop := by simp [CaseOutcome.sides, Case.holding] }
  case h_4 => cases h

end Settings

section
variable {s : Settings} {planned done : CaseSet} {r : Reconciliation}

private theorem outcome?_eq_some_iff (h : reconcile s planned done = .ok r) {name : String}
    {o : CaseOutcome} : r.outcome? name = some o ↔ o ∈ r.outcomes ∧ o.name = name := by
  have hn : (r.outcomes.map (·.name)).Nodup :=
    List.pairwise_map.mpr ((outcomes_ascending h).imp fun hlt => ne_of_lt hlt)
  rw [Reconciliation.outcome?]
  constructor
  · intro ho
    exact ⟨List.mem_of_find?_eq_some ho, by simpa using List.find?_some ho⟩
  · intro ⟨hm, he⟩
    cases hf : r.outcomes.find? fun o => o.name = name with
    | none => simpa [he] using List.find?_eq_none.mp hf o hm
    | some q =>
      have hq : q.name = name := by simpa using List.find?_some hf
      rw [List.inj_on_of_nodup_map hn (List.mem_of_find?_eq_some hf) hm (hq.trans he.symm)]

/-- An outcome depends on what the two sides have under its name, and on nothing else. -/
theorem outcome?_eq (h : reconcile s planned done = .ok r) (name : String) :
    r.outcome? name = (s.join name (planned.get? name) (done.get? name)).map Prod.fst := by
  apply Option.ext
  intro o
  rw [outcome?_eq_some_iff h, mem_outcomes_iff h, Option.map_eq_some_iff]
  constructor
  · intro ⟨⟨c, hc⟩, hn⟩
    exact ⟨(o, c), hn ▸ hc, rfl⟩
  · intro ⟨x, hx, ho⟩
    obtain ⟨hn, _⟩ := Settings.name_of_join hx
    rw [← ho, hn]
    exact ⟨⟨x.2, hx⟩, rfl⟩

end

/-- Nothing is lost, doubled or mixed up: outcomes and merged cases stand for exactly the names of
the two sides, every merged case has everything of its outcome, and what becomes of one name does
not depend on the cases under other names. -/
theorem reconcile_pairs {s : Settings} {planned done : CaseSet} {r : Reconciliation}
    (h : reconcile s planned done = .ok r) :
    r.outcomes.Pairwise (·.name < ·.name) ∧
    (∀ name, name ∈ r.outcomes.map (·.name) ↔ name ∈ planned.names ∨ name ∈ done.names) ∧
    (∀ name, name ∈ r.merged.names ↔ name ∈ planned.names ∨ name ∈ done.names) ∧
    (∀ o ∈ r.outcomes, o.Pairs planned done ∧ ∃ c, r.merged.get? o.name = some c ∧ o.Merges s c) ∧
    ∀ (planned' done' : CaseSet) (r' : Reconciliation), reconcile s planned' done' = .ok r' →
      ∀ name, planned.get? name = planned'.get? name → done.get? name = done'.get? name →
        r.outcome? name = r'.outcome? name ∧ r.merged.get? name = r'.merged.get? name := by
  refine ⟨outcomes_ascending h, fun name => ?_, fun name => ?_, fun o ho => ?_, ?_⟩
  · rw [← Settings.join_isSome_iff (s := s), List.mem_map, Option.isSome_iff_exists]
    constructor
    · intro ⟨o, ho, hn⟩
      obtain ⟨c, hc⟩ := (mem_outcomes_iff h).mp ho
      exact ⟨(o, c), hn ▸ hc⟩
    · intro ⟨x, hx⟩
      obtain ⟨hn, _⟩ := Settings.name_of_join hx
      exact ⟨x.1, (mem_outcomes_iff h).mpr ⟨x.2, hn.symm ▸ hx⟩, hn⟩
  · rw [← Settings.join_isSome_iff (s := s), CaseSet.mem_names_iff, ← Option.isSome_iff_exists,
      get?_merged h, Option.isSome_map]
  · obtain ⟨c, hc⟩ := (mem_outcomes_iff h).mp ho
    refine ⟨Settings.pairs_of_join hc, c, ?_, Settings.merges_of_join hc⟩
    rw [get?_merged h, hc]
    rfl
  · intro planned' done' r' h' name hp hd
    rw [outcome?_eq h, outcome?_eq h', get?_merged h, get?_merged h', hp, hd]
    exact ⟨rfl, rfl⟩

def basePurse : Case :=
  ⟨"base", ⟨"base", "Ada", Date.first, [.cash "purse" Date.first 1]⟩, Date.last, [], by decide⟩

def sparePurse : Case :=
  ⟨"spare", ⟨"spare", "Ada", Date.first, [.cash "purse" Date.first 2]⟩, Date.last, [], by decide⟩

def plannedPurses : CaseSet := ⟨.ofList [("base", basePurse)], by decide⟩

def donePurses : CaseSet := ⟨.ofList [("base", basePurse), ("spare", sparePurse)], by decide⟩

/-- With the sides exchanged, what becomes of the purse that both have is the same, and only the
other one is not. -/
theorem reconcile_pairs_purses : ∃ r r', reconcile {} plannedPurses donePurses = .ok r ∧
    reconcile {} donePurses plannedPurses = .ok r' ∧
    r.outcomes.map (·.status) = [.matched, .unplannedActual] ∧
    r'.outcomes.map (·.status) = [.matched, .notYetRealized] ∧
    r.outcomes.Pairwise (·.name < ·.name) ∧ "spare" ∈ r.outcomes.map (·.name) ∧
    "spare" ∈ r.merged.names ∧
    (∀ o ∈ r.outcomes, o.Pairs plannedPurses donePurses ∧
      ∃ c, r.merged.get? o.name = some c ∧ o.Merges {} c) ∧
    r.outcome? "base" = r'.outcome? "base" ∧ r.merged.get? "base" = r'.merged.get? "base" := by
  obtain ⟨r, h⟩ : ∃ r, reconcile {} plannedPurses donePurses = .ok r := ⟨_, rfl⟩
  obtain ⟨r', h'⟩ : ∃ r', reconcile {} donePurses plannedPurses = .ok r' := ⟨_, rfl⟩
  obtain ⟨hascending, houtcomes, hmerged, hpairs, hlocal⟩ := reconcile_pairs h
  have hspare : "spare" ∈ donePurses.names := by decide
  have hbase : plannedPurses.get? "base" = donePurses.get? "base" := rfl
  refine ⟨r, r', h, h', ?_, ?_, hascending, (houtcomes "spare").mpr (.inr hspare),
    (hmerged "spare").mpr (.inr hspare), hpairs, hlocal _ _ r' h' "base" hbase hbase.symm⟩
  · cases h
    rfl
  · cases h'
    rfl

end NetWorth
