import NetWorth.Proofs.Declaration.Dating
import NetWorth.Proofs.Declaration.Sharing
import NetWorth.Proofs.Reconciliation.Join

/-! Cases by their own name and by that of their estate. The two names are one in every set that
comes out of scenarios and comparisons, so it does not matter which of them is looked up. -/
namespace NetWorth

/-- A case and its estate have one name. -/
def Case.Eponymous (c : Case) : Prop := c.estate.name = c.name

/-- The sets that scenarios and comparisons lead to. The merged set of a comparison may be either
side of a later one. -/
inductive CaseSet.Reachable : CaseSet → Prop
  | built {d : ScenarioDecl} {set : CaseSet} (h : d.build = .ok set) : Reachable set
  | merged {s : Settings} {planned done : CaseSet} {r : Reconciliation} (hp : Reachable planned)
      (hd : Reachable done) (h : reconcile s planned done = .ok r) : Reachable r.merged

/-- A declaration gives one name to the case and to its estate. -/
theorem CaseDecl.eponymous_of_buildIn {s : Scope} {c : CaseDecl} {k : Case}
    (h : c.buildIn s = .ok k) : k.Eponymous := by
  obtain ⟨hn, _, _, hestate, _⟩ := parts_of_buildIn h
  rw [Case.Eponymous, hestate, hn]

/-- Both names of a merged case are from one side. -/
theorem Settings.eponymous_of_join {s : Settings} {name : String} {planned done : Option Case}
    {x : CaseOutcome × Case} (hp : ∀ p, planned = some p → p.Eponymous)
    (hd : ∀ d, done = some d → d.Eponymous) (h : s.join name planned done = some x) :
    x.2.Eponymous := by
  unfold join at h
  split at h
  case h_1 p _ | h_2 p =>
    cases h
    exact hp p rfl
  case h_3 d =>
    cases h
    exact hd d rfl
  case h_4 => cases h

namespace CaseSet
variable {set : CaseSet}

/-- Neither building nor comparing separates the name of a case from that of its estate. -/
theorem Reachable.eponymous (h : set.Reachable) {name : String} {k : Case}
    (hk : set.get? name = some k) : k.Eponymous := by
  induction h generalizing name k with
  | built h =>
    obtain ⟨_, _, hc⟩ := ScenarioDecl.exists_buildIn h hk
    exact CaseDecl.eponymous_of_buildIn hc
  | merged _ _ h ihp ihd =>
    rw [get?_merged h] at hk
    obtain ⟨x, hx, rfl⟩ := Option.map_eq_some_iff.mp hk
    exact Settings.eponymous_of_join (fun _ => ihp) (fun _ => ihd) hx

/-- In a set of eponymous cases, both ways to look up a name agree. -/
theorem find?_eq_get? (h : ∀ c ∈ set.cases, c.Eponymous) (name : String) :
    set.find? name = set.get? name := by
  cases hf : set.find? name with
  | some c =>
    have hc : c ∈ set.cases := List.mem_of_find?_eq_some hf
    have hestate : c.estate.name = name := by simpa using List.find?_some hf
    exact (get?_eq_some_iff.mpr ⟨hc, (h c hc).symm.trans hestate⟩).symm
  | none =>
    refine (Option.eq_none_iff_forall_ne_some.mpr fun c hc => ?_).symm
    obtain ⟨hm, hn⟩ := get?_eq_some_iff.mp hc
    exact List.find?_eq_none.mp hf c hm (decide_eq_true ((h c hm).trans hn))

theorem require_eq_ok_iff {name : String} {c : Case} :
    set.require name = .ok c ↔ set.find? name = some c := by
  unfold require
  cases set.find? name <;> simp

theorem require_fails_iff {name : String} :
    (∃ e, set.require name = .error e) ↔ set.find? name = none := by
  unfold require
  cases set.find? name <;> simp

/-- However often sets are compared, a name finds the same case as the name of a case and as that of
an estate, and a case is missing only where neither finds one. -/
theorem Reachable.lookups_agree (h : set.Reachable) (name : String) :
    set.find? name = set.get? name ∧
      ((∃ e, set.require name = .error e) ↔ set.get? name = none) ∧
      ∀ c, set.require name = .ok c ↔ set.get? name = some c := by
  have hfind : set.find? name = set.get? name :=
    find?_eq_get? (fun c hc => h.eponymous (get?_eq_some_iff.mpr ⟨hc, rfl⟩)) name
  rw [require_fails_iff, hfind]
  refine ⟨rfl, Iff.rfl, fun c => ?_⟩
  rw [require_eq_ok_iff, hfind]

/-- The plan of a wage, compared with itself, and what became of that compared with the plan. -/
theorem Reachable.lookups_agree_wage : ∃ plan r q,
    ScenarioDecl.build ⟨wageBasis, [wage]⟩ = .ok plan ∧ reconcile {} plan plan = .ok r ∧
    reconcile {} r.merged plan = .ok q ∧ q.merged.find? "wage" = q.merged.get? "wage" ∧
    ¬ (∃ e, q.merged.require "wage" = .error e) := by
  have hrounds : ∃ plan r q, ScenarioDecl.build ⟨wageBasis, [wage]⟩ = .ok plan ∧
      reconcile {} plan plan = .ok r ∧ reconcile {} r.merged plan = .ok q ∧
      (q.merged.get? "wage").isSome := ⟨_, _, _, rfl, rfl, rfl, rfl⟩
  obtain ⟨plan, r, q, hplan, hr, hq, hsome⟩ := hrounds
  have hplan' : plan.Reachable := .built hplan
  have hmerged : q.merged.Reachable := .merged (.merged hplan' hplan' hr) hplan' hq
  obtain ⟨hfind, hrequire, _⟩ := hmerged.lookups_agree "wage"
  refine ⟨plan, r, q, hplan, hr, hq, hfind, ?_⟩
  rw [hrequire]
  intro hnone
  rw [hnone] at hsome
  cases hsome

end CaseSet

end NetWorth
