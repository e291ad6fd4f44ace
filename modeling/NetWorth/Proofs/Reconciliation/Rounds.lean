import Mathlib.Algebra.GroupWithZero.Nat
import NetWorth.Proofs.Reconciliation.Labeling

/-! A plan that is compared again and again. What a comparison makes of the plan is the plan of the
next one; a comparison that fails leaves the plan as it was. -/
namespace NetWorth

/-- A plan with the done sets that went into it, the latest last. -/
structure Progress where
  plan : CaseSet
  taken : List CaseSet

/-- The cases that have a name in one of several sets, in the order of the sets. -/
def appearances (sets : List CaseSet) (name : String) : List Case := sets.filterMap (·.get? name)

theorem appearances_concat (sets : List CaseSet) (set : CaseSet) (name : String) :
    appearances (sets ++ [set]) name = appearances sets name ++ (set.get? name).toList := by
  rw [appearances, appearances, List.filterMap_append]
  cases h : set.get? name <;> simp [h]

namespace Progress

def step (s : Settings) (g : Progress) (done : CaseSet) : Progress where
  plan := nextPlan g.plan (reconcile s g.plan done)
  taken := if (reconcile s g.plan done).isOk then g.taken ++ [done] else g.taken

def run (s : Settings) (start : CaseSet) (dones : List CaseSet) : Progress :=
  dones.foldl (step s) ⟨start, []⟩

/-- A comparison takes the done set in, or fails and leaves the plan as it was. -/
theorem step_cases (s : Settings) (g : Progress) (done : CaseSet) :
    (∃ r, reconcile s g.plan done = .ok r ∧ g.step s done = ⟨r.merged, g.taken ++ [done]⟩) ∨
      (∃ e, reconcile s g.plan done = .error e ∧ g.step s done = g) := by
  cases h : reconcile s g.plan done with
  | ok r => exact .inl ⟨r, rfl, by simp [step, h, nextPlan, Except.isOk, Except.toBool]⟩
  | error e => exact .inr ⟨e, rfl, by simp [step, h, nextPlan, Except.isOk, Except.toBool]⟩

end Progress

namespace Case

/-- A case that has grown together from its appearances: it begins like the first of them, ends with
the last to end, and has as many possessions as all of them. -/
structure SumsUp (as : List Case) (c : Case) : Prop where
  lead : ∃ first, as.head? = some first ∧ c.start = first.start ∧
    c.estate.owner = first.estate.owner ∧ c.estate.name = first.estate.name ∧
    c.objectives = first.objectives
  stop_mem : c.stop ∈ as.map (·.stop)
  le_stop : ∀ a ∈ as, a.stop ≤ c.stop
  count : c.estate.possessions.length = (as.map (·.estate.possessions.length)).sum

theorem sumsUp_singleton (c : Case) : SumsUp [c] c where
  lead := ⟨c, rfl, rfl, rfl, rfl, rfl⟩
  stop_mem := by simp
  le_stop := by simp
  count := by simp

variable {as : List Case} {p d : Case}

theorem SumsUp.ne_nil (h : SumsUp as p) : as ≠ [] := by
  rintro rfl
  obtain ⟨_, hf, _⟩ := h.lead
  cases hf

theorem SumsUp.holding (h : SumsUp as p) {ps : List Possession}
    (hl : ps.length = p.estate.possessions.length) : SumsUp as (p.holding ps) where
  lead := h.lead
  stop_mem := h.stop_mem
  le_stop := h.le_stop
  count := hl.trans h.count

/-- A case that is merged once more has grown by one appearance. -/
theorem SumsUp.joined (h : SumsUp as p) (d : Case) (s : Settings) :
    SumsUp (as ++ [d]) (p.joined d s) where
  lead := by
    obtain ⟨first, hf, hrest⟩ := h.lead
    exact ⟨first, List.head?_append_of_ne_nil _ h.ne_nil |>.trans hf, hrest⟩
  stop_mem := by
    rw [List.map_append, List.mem_append]
    rcases max_choice p.stop d.stop with hm | hm
    · exact .inl (by simpa [Case.joined, hm] using h.stop_mem)
    · exact .inr (by simp [Case.joined, hm])
  le_stop := by
    intro a ha
    rcases List.mem_append.mp ha with ha | ha
    · exact le_trans (h.le_stop a ha) (le_max_left _ _)
    · rw [List.mem_singleton.mp ha]
      exact le_max_right _ _
  count := by
    have hc := h.count
    simp [Case.joined, Case.holding, Estate.length_labeled, hc]

end Case

namespace Progress
variable {s : Settings} {start : CaseSet} {g : Progress} {done : CaseSet}

/-- What holds of a plan all the way: each of its cases has grown together from the start and what
was taken in, and no other case has appeared there. Nothing is older than its case, once something
was taken in. -/
structure Accounts (start : CaseSet) (g : Progress) : Prop where
  absent : ∀ name, g.plan.get? name = none → appearances (start :: g.taken) name = []
  sums : ∀ name c, g.plan.get? name = some c → c.SumsUp (appearances (start :: g.taken) name)
  dated : g.taken ≠ [] → ∀ c ∈ g.plan.cases, c.Dated

theorem accounts_start (start : CaseSet) : Accounts start ⟨start, []⟩ where
  absent name h := by simp [appearances, h]
  sums name c h := by
    have ha : appearances [start] name = [c] := by simp [appearances, h]
    rw [ha]
    exact c.sumsUp_singleton
  dated h := absurd rfl h

end Progress

namespace Settings
variable {s : Settings} {name : String} {planned done : Option Case} {x : CaseOutcome × Case}

/-- A merged case sums up one appearance more than the planned one. -/
theorem sumsUp_of_join {as : List Case} (hn : planned = none → as = [])
    (hs : ∀ p, planned = some p → p.SumsUp as) (h : s.join name planned done = some x) :
    x.2.SumsUp (as ++ done.toList) := by
  unfold join at h
  split at h
  case h_1 p d =>
    cases h
    exact (hs p rfl).joined d s
  case h_2 p =>
    cases h
    simpa using (hs p rfl).holding (p.estate.length_labeled ..)
  case h_3 d =>
    cases h
    rw [hn rfl]
    exact d.sumsUp_singleton.holding (d.estate.length_labeled ..)
  case h_4 => cases h

/-- A merged case is dated, however old the things are that it is made of. -/
theorem dated_of_join (h : s.join name planned done = some x) : x.2.Dated := by
  unfold join at h
  split at h
  case h_1 p d =>
    cases h
    intro q hq
    rcases List.mem_append.mp hq with hq | hq <;> exact Estate.le_since_of_mem_labeled hq
  case h_2 | h_3 =>
    cases h
    intro q hq
    exact Estate.le_since_of_mem_labeled hq
  case h_4 => cases h

end Settings

namespace Progress
variable {s : Settings} {start : CaseSet} {g : Progress}

/-- The account stays true over one more comparison, failed or not. -/
theorem accounts_step (h : Accounts start g) (s : Settings) (done : CaseSet) :
    Accounts start (g.step s done) := by
  rcases step_cases s g done with ⟨r, hr, he⟩ | ⟨_, _, he⟩
  · rw [he]
    have hconcat (name : String) : appearances (start :: (g.taken ++ [done])) name =
        appearances (start :: g.taken) name ++ (done.get? name).toList :=
      appearances_concat (start :: g.taken) done name
    refine ⟨fun name hn => ?_, fun name c hc => ?_, fun _ c hc => ?_⟩
    · rw [get?_merged hr, Option.map_eq_none_iff] at hn
      rw [hconcat]
      -- only where neither side has the name is there no merged case
      cases hp : g.plan.get? name <;> cases hd : done.get? name <;>
        simp_all [Settings.join, h.absent name]
    · rw [get?_merged hr] at hc
      obtain ⟨x, hx, rfl⟩ := Option.map_eq_some_iff.mp hc
      rw [hconcat]
      exact Settings.sumsUp_of_join (h.absent name) (h.sums name) hx
    · have hc' := CaseSet.get?_eq_some_iff.mpr ⟨hc, rfl⟩
      rw [get?_merged hr] at hc'
      obtain ⟨x, hx, rfl⟩ := Option.map_eq_some_iff.mp hc'
      exact Settings.dated_of_join hx
  · rw [he]
    exact h

/-- So it does over any number of comparisons. -/
theorem accounts_run (s : Settings) (start : CaseSet) (dones : List CaseSet) :
    Accounts start (run s start dones) := by
  induction dones using List.reverseRecOn with
  | nil => exact accounts_start start
  | append_singleton dones done ih =>
    rw [run, List.foldl_concat]
    exact accounts_step ih s done

theorem Accounts.mem_names_iff (h : Accounts start g) (name : String) :
    name ∈ g.plan.names ↔ ∃ set ∈ start :: g.taken, name ∈ set.names := by
  have ha : appearances (start :: g.taken) name ≠ [] ↔
      ∃ set ∈ start :: g.taken, name ∈ set.names := by
    simp only [appearances, ne_eq, List.filterMap_eq_nil_iff, not_forall, exists_prop,
      CaseSet.mem_names_iff, Option.ne_none_iff_exists']
  rw [← ha, CaseSet.mem_names_iff]
  constructor
  · intro ⟨c, hc⟩
    exact (h.sums name c hc).ne_nil
  · intro hne
    cases hn : g.plan.get? name with
    | none => exact absurd (h.absent name hn) hne
    | some c => exact ⟨c, rfl⟩

/-- However often a plan is compared, it has the cases of the start and of all that was taken in,
each grown together from its appearances there; and from the first success on nothing in it is of an
earlier date than its case. -/
theorem run_sums_up (s : Settings) (start : CaseSet) (dones : List CaseSet) :
    (∀ name, name ∈ (run s start dones).plan.names ↔
      ∃ set ∈ start :: (run s start dones).taken, name ∈ set.names) ∧
    (∀ name c, (run s start dones).plan.get? name = some c →
      c.SumsUp (appearances (start :: (run s start dones).taken) name)) ∧
    ((run s start dones).taken ≠ [] → ∀ c ∈ (run s start dones).plan.cases,
      ∀ p ∈ c.estate.possessions, c.start ≤ p.since) := by
  have h := accounts_run s start dones
  exact ⟨h.mem_names_iff, h.sums, h.dated⟩

theorem run_sums_up_purses :
    (run {} plannedPurses [donePurses, donePurses]).taken = [donePurses, donePurses] ∧
    "spare" ∈ (run {} plannedPurses [donePurses, donePurses]).plan.names ∧
    ∀ c, (run {} plannedPurses [donePurses, donePurses]).plan.get? "base" = some c →
      c.estate.possessions.length = 3 := by
  obtain ⟨hn, hs, _⟩ := run_sums_up {} plannedPurses [donePurses, donePurses]
  have ht : (run {} plannedPurses [donePurses, donePurses]).taken = [donePurses, donePurses] := rfl
  have hspare : "spare" ∈ donePurses.names := by decide
  refine ⟨ht, (hn "spare").mpr ⟨donePurses, by simp [ht], hspare⟩, fun c hc => ?_⟩
  rw [(hs "base" c hc).count, ht]
  rfl

end Progress
end NetWorth
