import NetWorth.Proofs.Case
import NetWorth.Reconciliation

/-! Comparison without its error paths. Merging and relabeling rebuild cases whose names were proper
before, so both always succeed, and what becomes of a name is a function of the two cases that the
sides have under it, `Settings.join`. -/
namespace NetWorth

namespace Case

def holding (c : Case) (possessions : List Possession) : Case :=
  { c with estate := { c.estate with possessions } }

/-- Labeling the only side of a case never fails. -/
theorem relabel_eq (c : Case) (label : String) :
    c.relabel label = .ok (c.holding (c.estate.labeled label c.start)) :=
  CaseDraft.build_of_proper c.proper ..

def joined (p d : Case) (s : Settings) : Case :=
  { p.holding (p.estate.labeled s.plannedLabel p.start ++ d.estate.labeled s.doneLabel p.start) with
    stop := max p.stop d.stop }

/-- Merging two cases never fails. -/
theorem merge_eq (p d : Case) (s : Settings) : p.merge d s = .ok (p.joined d s) :=
  CaseDraft.build_of_proper p.proper ..

end Case

namespace Settings

/-- The outcome of a name and its merged case, from the cases that the sides have under it. -/
def join (s : Settings) (name : String) : Option Case → Option Case → Option (CaseOutcome × Case)
  | some p, some d => some (⟨name, .matched, some p, some d⟩, p.joined d s)
  | some p, none =>
    some (⟨name, .notYetRealized, some p, none⟩,
      p.holding (p.estate.labeled s.plannedLabel p.start))
  | none, some d =>
    some (⟨name, .unplannedActual, none, some d⟩, d.holding (d.estate.labeled s.doneLabel d.start))
  | none, none => none

variable {s : Settings} {planned done : CaseSet}

private theorem pair?_eq (s : Settings) (planned done : CaseSet) (name : String) :
    s.pair? planned done name = (s.join name (planned.get? name) (done.get? name)).map
      fun x => (x.1, .ok x.2) := by
  unfold pair? join
  split <;> simp_all [Case.merge_eq, Case.relabel_eq]

def joinAll (s : Settings) (planned done : CaseSet) : List (CaseOutcome × Case) :=
  (planned.namesWith done).filterMap fun name => s.join name (planned.get? name) (done.get? name)

end Settings

theorem CaseSet.mem_namesWith_iff {s t : CaseSet} {name : String} :
    name ∈ s.namesWith t ↔ name ∈ s.names ∨ name ∈ t.names := by
  rw [namesWith, NameMap.mem_names_ofList, List.map_append, List.mem_append]
  rfl

namespace Settings
variable {s : Settings} {planned done : CaseSet} {name : String} {x : CaseOutcome × Case}

theorem name_of_join (h : s.join name (planned.get? name) (done.get? name) = some x) :
    x.1.name = name ∧ x.2.name = name := by
  unfold join at h
  split at h
  case h_1 hc _ | h_2 hc _ | h_3 _ hc =>
    cases h
    exact ⟨rfl, (CaseSet.get?_eq_some_iff.mp hc).2⟩
  case h_4 => cases h

theorem join_isSome_iff :
    (s.join name (planned.get? name) (done.get? name)).isSome ↔
      name ∈ planned.names ∨ name ∈ done.names := by
  rw [CaseSet.mem_names_iff, CaseSet.mem_names_iff]
  cases planned.get? name <;> cases done.get? name <;> simp [join]

theorem mem_joinAll_iff :
    x ∈ s.joinAll planned done ↔
      s.join x.1.name (planned.get? x.1.name) (done.get? x.1.name) = some x := by
  rw [joinAll, List.mem_filterMap]
  constructor
  · intro ⟨name, _, h⟩
    rwa [(name_of_join h).1]
  · intro h
    exact ⟨_, CaseSet.mem_namesWith_iff.mpr (join_isSome_iff.mp (Option.isSome_of_eq_some h)), h⟩

private theorem map_outcome_name (s : Settings) (planned done : CaseSet) :
    (s.joinAll planned done).map (·.1.name) = planned.namesWith done := by
  rw [joinAll, List.map_filterMap, List.filterMap_eq_map_iff_forall_eq_some.mpr, List.map_id]
  intro name hn
  have hs := join_isSome_iff (s := s).mpr (CaseSet.mem_namesWith_iff.mp hn)
  obtain ⟨x, hx⟩ := Option.isSome_iff_exists.mp hs
  rw [hx, Option.map_some, (name_of_join hx).1]
  rfl

/-- Outcomes stand in the order of their names, each name once. -/
theorem joinAll_ascending (s : Settings) (planned done : CaseSet) :
    (s.joinAll planned done).Pairwise (·.1.name < ·.1.name) := by
  rw [← List.pairwise_map (f := fun x : CaseOutcome × Case => x.1.name), map_outcome_name]
  exact NameMap.names_ascending _

private theorem map_case_name (s : Settings) (planned done : CaseSet) :
    ((s.joinAll planned done).map Prod.snd).map (·.name) = planned.namesWith done := by
  rw [← map_outcome_name s, List.map_map]
  apply List.map_congr_left
  intro x hx
  have h := name_of_join (mem_joinAll_iff.mp hx)
  exact h.2

/-- No two outcomes have one name, so that their cases make a set. -/
private theorem ofList_joinAll (s : Settings) (planned done : CaseSet) :
    ∃ set, CaseSet.ofList ((s.joinAll planned done).map Prod.snd) = .ok set := by
  rw [CaseSet.ofList_succeeds_iff, map_case_name]
  exact NameMap.names_nodup _

end Settings

section
variable {s : Settings} {planned done : CaseSet} {r : Reconciliation}

/-- A comparison checks the objectives first; then it joins the cases name by name. -/
private theorem reconcile_eq (s : Settings) (planned done : CaseSet) :
    reconcile s planned done =
      ((s.checkObjectives planned done).mapError .reconciliation >>= fun _ =>
        (CaseSet.ofList ((s.joinAll planned done).map Prod.snd)).mapError .validation >>= fun set =>
          .ok ⟨set, (s.joinAll planned done).map Prod.fst⟩) := by
  have hp : (planned.namesWith done).filterMap (s.pair? planned done) =
      (s.joinAll planned done).map fun x => (x.1, .ok x.2) := by
    rw [Settings.joinAll, List.map_filterMap]
    exact congrArg (List.filterMap · _) (funext (Settings.pair?_eq s planned done))
  have hm : ((s.joinAll planned done).map fun x => (x.1, .ok x.2)).mapM Prod.snd =
      (.ok ((s.joinAll planned done).map Prod.snd) : Except ValidationError (List Case)) := by
    rw [Attempt.mapM_eq_ok_iff, List.map_map, List.map_map]
    rfl
  unfold reconcile
  simp only [hp, hm, List.map_map]
  rfl

/-- A comparison succeeds exactly when its objectives are checked without a fault. -/
theorem reconcile_succeeds_iff :
    (∃ r, reconcile s planned done = .ok r) ↔ s.checkObjectives planned done = .ok () := by
  obtain ⟨set, hset⟩ := Settings.ofList_joinAll s planned done
  rw [reconcile_eq, hset]
  constructor
  · intro ⟨r, h⟩
    obtain ⟨u, hu, _⟩ := Attempt.bind_eq_ok_iff.mp h
    exact Attempt.mapError_eq_ok_iff.mp hu
  · intro h
    rw [h]
    exact ⟨_, rfl⟩

/-- The objectives are the only reason to refuse a comparison. -/
theorem reconcile_eq_error_iff {e : ScenarioError} :
    reconcile s planned done = .error e ↔
      ∃ why, s.checkObjectives planned done = .error why ∧ e = .reconciliation why := by
  obtain ⟨set, hset⟩ := Settings.ofList_joinAll s planned done
  rw [reconcile_eq, hset, Attempt.bind_eq_error_iff, Attempt.mapError_eq_error_iff]
  exact or_iff_left fun ⟨_, _, h⟩ => by cases h

private theorem of_reconcile (h : reconcile s planned done = .ok r) :
    CaseSet.ofList ((s.joinAll planned done).map Prod.snd) = .ok r.merged ∧
      r.outcomes = (s.joinAll planned done).map Prod.fst := by
  rw [reconcile_eq, Attempt.bind_eq_ok_iff] at h
  obtain ⟨_, _, h⟩ := h
  rw [Attempt.bind_eq_ok_iff] at h
  obtain ⟨set, hset, hr⟩ := h
  cases hr
  exact ⟨Attempt.mapError_eq_ok_iff.mp hset, rfl⟩

/-- What the merged set has under a name depends on what the two sides have there, and on nothing
else of them. -/
theorem get?_merged (h : reconcile s planned done = .ok r) (name : String) :
    r.merged.get? name = (s.join name (planned.get? name) (done.get? name)).map Prod.snd := by
  apply Option.ext
  intro c
  rw [CaseSet.get?_ofList (of_reconcile h).1, List.mem_map, Option.map_eq_some_iff]
  constructor
  · intro ⟨⟨x, hx, hc⟩, hn⟩
    subst hc hn
    have hj := Settings.mem_joinAll_iff.mp hx
    rw [(Settings.name_of_join hj).2]
    exact ⟨x, hj, rfl⟩
  · intro ⟨x, hx, hc⟩
    subst hc
    obtain ⟨rfl, hn⟩ := Settings.name_of_join hx
    exact ⟨⟨x, Settings.mem_joinAll_iff.mpr hx, rfl⟩, hn⟩

/-- An outcome is what the two sides of its name join to. -/
theorem mem_outcomes_iff (h : reconcile s planned done = .ok r) {o : CaseOutcome} :
    o ∈ r.outcomes ↔
      ∃ c, s.join o.name (planned.get? o.name) (done.get? o.name) = some (o, c) := by
  rw [(of_reconcile h).2, List.mem_map]
  constructor
  · intro ⟨x, hx, ho⟩
    subst ho
    exact ⟨x.2, Settings.mem_joinAll_iff.mp hx⟩
  · intro ⟨c, hc⟩
    exact ⟨(o, c), Settings.mem_joinAll_iff.mpr hc, rfl⟩

theorem outcomes_ascending (h : reconcile s planned done = .ok r) :
    r.outcomes.Pairwise (·.name < ·.name) := by
  rw [(of_reconcile h).2]
  exact List.pairwise_map.mpr (s.joinAll_ascending planned done)

end

end NetWorth
