import NetWorth.Proofs.Reconciliation.Join

/-! When a comparison is refused, and with which error. -/
namespace NetWorth

namespace Case

/-- Nothing is owed on a planned case: the done case of its name meets every objective, or there is
no such case and none is required. -/
def Fulfilled (s : Settings) (done : CaseSet) (c : Case) : Prop :=
  (∃ d, done.get? c.name = some d ∧ ∀ o ∈ c.objectives, o.shortfall? d.estate = none) ∨
    done.get? c.name = none ∧ (s.requireDone = false ∨ c.objectives = [])

/-- The error that a planned case raises. Of several missed objectives the first one counts. -/
inductive Refused (s : Settings) (done : CaseSet) (c : Case) : ReconcileError → Prop
  | missing (absent : done.get? c.name = none) (required : s.requireDone = true)
      (nonempty : c.objectives ≠ []) : Refused s done c (.missingCase c.name)
  | missed {d : Case} {before after : List Objective} {o : Objective} {why : String}
      (paired : done.get? c.name = some d) (objectives : c.objectives = before ++ o :: after)
      (met : ∀ p ∈ before, p.shortfall? d.estate = none)
      (missed : o.shortfall? d.estate = some why) :
      Refused s done c (.objectiveNotMet c.name o.describe why)

variable {s : Settings} {planned done : CaseSet} {c : Case}

/-- A case passes exactly if no objective of it is missed. -/
private theorem checkObjectives_eq_ok_iff {e : Estate} :
    c.checkObjectives e = .ok () ↔ ∀ o ∈ c.objectives, o.shortfall? e = none := by
  unfold checkObjectives
  split
  · rename_i h
    rw [List.findSome?_eq_none_iff] at h
    exact iff_of_true rfl fun o ho => Option.map_eq_none_iff.mp (h o ho)
  · rename_i o why h
    refine iff_of_false (fun he => by cases he) fun hm => ?_
    obtain ⟨p, hp, hw⟩ := List.exists_of_findSome?_eq_some h
    rw [hm p hp] at hw
    cases hw

/-- The error of a case is its first objective that is missed. -/
private theorem checkObjectives_eq_error_iff {e : Estate} {err : ReconcileError} :
    c.checkObjectives e = .error err ↔ ∃ before o after why,
      c.objectives = before ++ o :: after ∧ (∀ p ∈ before, p.shortfall? e = none) ∧
      o.shortfall? e = some why ∧ err = .objectiveNotMet c.name o.describe why := by
  unfold checkObjectives
  constructor
  · intro h
    split at h
    · cases h
    · rename_i o why hf
      cases h
      obtain ⟨before, p, after, hc, hp, hb⟩ := List.findSome?_eq_some_iff.mp hf
      obtain ⟨w, hw, he⟩ := Option.map_eq_some_iff.mp hp
      cases he
      exact ⟨before, o, after, why, hc, fun q hq => Option.map_eq_none_iff.mp (hb q hq), hw, rfl⟩
  · intro ⟨before, o, after, why, hc, hb, hw, he⟩
    have hf : c.objectives.findSome? (fun o => (o.shortfall? e).map fun why => (o, why)) =
        some (o, why) :=
      List.findSome?_eq_some_iff.mpr ⟨before, o, after, hc, by rw [hw]; rfl,
        fun q hq => Option.map_eq_none_iff.mpr (hb q hq)⟩
    rw [hf, he]

/-- A planned case is checked without a fault exactly if nothing is owed on it. -/
private theorem checkCase_eq_ok_iff : s.checkCase done c = .ok () ↔ c.Fulfilled s done := by
  unfold Settings.checkCase Fulfilled
  cases done.get? c.name with
  | some d => simp [checkObjectives_eq_ok_iff]
  | none => cases hr : s.requireDone <;> by_cases ho : c.objectives = [] <;> simp [ho]

/-- The error of a planned case is the one that it raises. -/
private theorem checkCase_eq_error_iff {e : ReconcileError} :
    s.checkCase done c = .error e ↔ c.Refused s done e := by
  unfold Settings.checkCase
  constructor
  · intro h
    cases hd : done.get? c.name with
    | some d =>
      rw [hd] at h
      obtain ⟨before, o, after, why, hc, hb, hw, rfl⟩ := checkObjectives_eq_error_iff.mp h
      exact .missed hd hc hb hw
    | none =>
      simp only [hd] at h
      split at h
      · rename_i hr
        cases h
        rw [Bool.and_eq_true, Bool.not_eq_true', List.isEmpty_eq_false_iff] at hr
        exact .missing hd hr.1 hr.2
      · cases h
  · intro h
    cases h with
    | missing absent required nonempty => simp [absent, required, nonempty]
    | missed paired objectives met missed =>
      rw [paired]
      exact checkObjectives_eq_error_iff.mpr ⟨_, _, _, _, objectives, met, missed, rfl⟩

/-- In the order of their names, the cases before a case are those with a smaller name. -/
private theorem mem_before_iff {before after : List Case} {p : Case}
    (h : planned.cases = before ++ p :: after) (q : Case) :
    q ∈ before ↔ q ∈ planned.cases ∧ q.name < p.name := by
  have ha := planned.cases_ascending
  rw [h, List.pairwise_append, List.pairwise_cons] at ha
  obtain ⟨_, ⟨hafter, _⟩, hbefore⟩ := ha
  rw [h, List.mem_append, List.mem_cons]
  constructor
  · intro hq
    exact ⟨.inl hq, hbefore q hq p List.mem_cons_self⟩
  · intro ⟨hq, hlt⟩
    rcases hq with hq | rfl | hq
    · exact hq
    · exact absurd hlt (lt_irrefl _)
    · exact absurd hlt (lt_asymm (hafter q hq))

end Case

/-- A comparison succeeds exactly when nothing is owed on any planned case. Otherwise its error is
that of the first planned case, by name, on which something is: no part of the merging can fail. -/
theorem reconcile_verdict (s : Settings) (planned done : CaseSet) :
    ((∃ r, reconcile s planned done = .ok r) ↔ ∀ p ∈ planned.cases, p.Fulfilled s done) ∧
    ∀ e, reconcile s planned done = .error e ↔
      ∃ p ∈ planned.cases, ∃ why, (∀ q ∈ planned.cases, q.name < p.name → q.Fulfilled s done) ∧
        p.Refused s done why ∧ e = .reconciliation why := by
  constructor
  · rw [reconcile_succeeds_iff, Settings.checkObjectives, Attempt.forM_eq_ok_iff]
    simp only [Case.checkCase_eq_ok_iff]
  · intro e
    rw [reconcile_eq_error_iff]
    simp only [Settings.checkObjectives, Attempt.forM_eq_error_iff, Case.checkCase_eq_ok_iff,
      Case.checkCase_eq_error_iff]
    constructor
    · intro ⟨why, ⟨before, p, after, hp, hb, hr⟩, he⟩
      exact ⟨p, by simp [hp], why,
        fun q hq hlt => hb q ((Case.mem_before_iff hp q).mpr ⟨hq, hlt⟩), hr, he⟩
    · intro ⟨p, hm, why, hb, hr, he⟩
      obtain ⟨before, after, hp⟩ := List.append_of_mem hm
      refine ⟨why, ⟨before, p, after, hp, fun q hq => ?_, hr⟩, he⟩
      obtain ⟨hq, hlt⟩ := (Case.mem_before_iff hp q).mp hq
      exact hb q hq hlt

end NetWorth
