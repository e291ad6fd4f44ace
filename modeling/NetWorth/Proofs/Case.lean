import Mathlib.Data.List.Induction
import NetWorth.Case
import NetWorth.Proofs.Attempt
import NetWorth.Proofs.NameMap

/-! Drafts of cases, and sets of cases through their lookups. A list makes a set exactly when its
names are distinct; otherwise the first repeated name is the error, `ofList_eq_error_iff`. -/
namespace NetWorth

/-- Nothing in a case is of an earlier date than the case. -/
def Case.Dated (c : Case) : Prop := ∀ p ∈ c.estate.possessions, c.start ≤ p.since

namespace CaseDraft

theorem build_of_proper {name : String} (h : IsProperName name) (estate : Estate)
    (stop : Option Date) (objectives : List Objective) :
    build ⟨some name, some estate, stop, objectives⟩ =
      .ok ⟨name, estate, stop.getD estate.date, objectives, h⟩ := by
  have hb : trimmed name ≠ "" := fun he => h.2 (h.1.symm.trans he)
  simp only [build, dif_neg hb, dif_pos h.1]

/-- Every part of a built case is that of its draft; properness of the name is in its type. -/
theorem build_eq_ok_iff {d : CaseDraft} {c : Case} :
    d.build = .ok c ↔ d.name = some c.name ∧ d.estate = some c.estate ∧
      c.stop = d.stop.getD c.estate.date ∧ c.objectives = d.objectives := by
  obtain ⟨name, estate, stop, objectives⟩ := d
  constructor
  · intro h
    simp only [build] at h
    split at h
    · cases h
    · split at h
      · cases h
      · split at h
        · split at h
          · cases h
          · cases h
            exact ⟨rfl, rfl, rfl, rfl⟩
        · cases h
  · intro ⟨hn, he, hs, ho⟩
    cases hn
    cases he
    cases ho
    rw [build_of_proper c.proper, ← hs]

theorem build_ne_duplicateCase (d : CaseDraft) (name : String) :
    d.build ≠ .error (.duplicateCase name) := by
  unfold build
  split
  · simp
  · split
    · simp
    · split
      · split <;> simp
      · simp

end CaseDraft

namespace CaseSet

theorem get?_eq_some_iff {s : CaseSet} {name : String} {c : Case} :
    s.get? name = some c ↔ c ∈ s.cases ∧ c.name = name := by
  rw [get?, NameMap.find?_eq_some_iff, cases, NameMap.values, List.mem_map]
  constructor
  · intro h
    exact ⟨⟨_, h, rfl⟩, (s.keyed _ h).symm⟩
  · rintro ⟨⟨e, he, rfl⟩, rfl⟩
    rw [← s.keyed e he]
    exact he

theorem mem_names_iff {s : CaseSet} {name : String} :
    name ∈ s.names ↔ ∃ c, s.get? name = some c :=
  NameMap.find?_isSome_iff.symm.trans Option.isSome_iff_exists

/-- The cases of a set stand in the order of their names. -/
theorem cases_ascending (s : CaseSet) : s.cases.Pairwise (·.name < ·.name) := by
  refine List.pairwise_map.mpr (s.byName.ascending.imp_of_mem fun ha hb h => ?_)
  rwa [← s.keyed _ ha, ← s.keyed _ hb]

/-- Two sets that find the same under every name are equal. -/
theorem ext_get? {s t : CaseSet} (h : ∀ name, s.get? name = t.get? name) : s = t := by
  cases s
  cases t
  cases NameMap.ext_find? h
  rfl

/-- A case can be added exactly if its name is free, and then only this name changes. -/
theorem add_eq_ok_iff {s t : CaseSet} {c : Case} :
    s.add c = .ok t ↔ s.get? c.name = none ∧
      ∀ name, t.get? name = if name = c.name then some c else s.get? name := by
  cases hc : s.get? c.name with
  | some d => simp [add, hc]
  | none =>
    simp only [add, hc, Option.isSome_none, Bool.false_eq_true, if_false, Except.ok.injEq, true_and]
    constructor
    · rintro rfl name
      exact NameMap.find?_insert ..
    · intro h
      exact ext_get? fun name => (NameMap.find?_insert ..).trans (h name).symm

/-- The only reason to refuse a case is that its name is taken. -/
theorem add_eq_error_iff {s : CaseSet} {c : Case} {e : ValidationError} :
    s.add c = .error e ↔ (∃ d, s.get? c.name = some d) ∧ e = .duplicateCase c.name := by
  cases hc : s.get? c.name with
  | some d => simp [add, hc, eq_comm]
  | none => simp [add, hc]

private theorem ofList_concat (cs : List Case) (c : Case) :
    ofList (cs ++ [c]) = ofList cs >>= fun s => s.add c := by
  simp [ofList, List.foldlM_append]

/-- A set that was made from a list finds the members of the list, each under its name. -/
theorem get?_ofList {cs : List Case} {s : CaseSet} (h : ofList cs = .ok s) (name : String)
    (c : Case) : s.get? name = some c ↔ c ∈ cs ∧ c.name = name := by
  induction cs using List.reverseRecOn generalizing s with
  | nil =>
    cases h
    simp [get?, empty, NameMap.find?_empty]
  | append_singleton cs d ih =>
    rw [ofList_concat, Attempt.bind_eq_ok_iff] at h
    obtain ⟨t, ht, hs⟩ := h
    obtain ⟨hd, hs⟩ := add_eq_ok_iff.mp hs
    rw [hs, List.mem_append, List.mem_singleton]
    split
    · rename_i hn
      subst hn
      -- the name was free before, so that no earlier member has it
      have hfree : ¬ (c ∈ cs ∧ c.name = d.name) := fun hc => by
        rw [(ih ht).mpr hc] at hd
        cases hd
      constructor
      · intro hc
        cases hc
        exact ⟨.inr rfl, rfl⟩
      · rintro ⟨hc | rfl, hn⟩
        · exact absurd ⟨hc, hn⟩ hfree
        · rfl
    · rename_i hn
      rw [ih ht]
      constructor
      · intro ⟨hc, hcn⟩
        exact ⟨.inl hc, hcn⟩
      · rintro ⟨hc | rfl, hcn⟩
        · exact ⟨hc, hcn⟩
        · exact absurd hcn.symm hn

private theorem get?_ofList_eq_none_iff {cs : List Case} {s : CaseSet} (h : ofList cs = .ok s)
    (name : String) : s.get? name = none ↔ name ∉ cs.map (·.name) := by
  rw [Option.eq_none_iff_forall_ne_some, List.mem_map]
  simp only [ne_eq, get?_ofList h, not_exists]

/-- A list makes a set exactly when no name occurs twice in it. -/
theorem ofList_succeeds_iff {cs : List Case} :
    (∃ s, ofList cs = .ok s) ↔ (cs.map (·.name)).Nodup := by
  induction cs using List.reverseRecOn with
  | nil => exact ⟨fun _ => List.nodup_nil, fun _ => ⟨empty, rfl⟩⟩
  | append_singleton cs c ih =>
    simp only [ofList_concat, Attempt.bind_eq_ok_iff]
    rw [List.map_append, List.map_singleton, List.nodup_append_comm, List.singleton_append,
      List.nodup_cons, ← ih]
    constructor
    · intro ⟨t, s, hs, ht⟩
      exact ⟨(get?_ofList_eq_none_iff hs _).mp (add_eq_ok_iff.mp ht).1, s, hs⟩
    · intro ⟨hc, s, hs⟩
      have hfree := (get?_ofList_eq_none_iff hs _).mpr hc
      cases ht : s.add c with
      | ok t => exact ⟨t, s, hs, ht⟩
      | error e =>
        obtain ⟨⟨d, hd⟩, _⟩ := add_eq_error_iff.mp ht
        rw [hfree] at hd
        cases hd

/-- The error is the first name that an earlier case of the list has. -/
theorem ofList_eq_error_iff {cs : List Case} {e : ValidationError} :
    ofList cs = .error e ↔ ∃ before name after, cs.map (·.name) = before ++ name :: after ∧
      before.Nodup ∧ name ∈ before ∧ e = .duplicateCase name := by
  induction cs using List.reverseRecOn with
  | nil => simp [ofList, pure, Except.pure]
  | append_singleton cs d ih =>
    rw [ofList_concat, Attempt.bind_eq_error_iff, ih, List.map_append, List.map_singleton]
    constructor
    · intro h
      rcases h with ⟨before, name, after, hcs, h⟩ | ⟨s, hs, h⟩
      · exact ⟨before, name, after ++ [d.name], by simp [hcs], h⟩
      · obtain ⟨⟨c, hc⟩, rfl⟩ := add_eq_error_iff.mp h
        obtain ⟨hm, hn⟩ := (get?_ofList hs _ _).mp hc
        exact ⟨_, d.name, [], rfl, ofList_succeeds_iff.mp ⟨s, hs⟩, hn ▸ List.mem_map_of_mem hm, rfl⟩
    · intro ⟨before, name, after, he, hb, hm, h⟩
      rcases List.eq_nil_or_concat after with rfl | ⟨after, n, rfl⟩
      -- the last name is the repeated one, and all before it make a set
      · obtain ⟨rfl, hd⟩ := List.append_inj' he rfl
        cases hd
        obtain ⟨s, hs⟩ := ofList_succeeds_iff.mpr hb
        obtain ⟨k, hk, hn⟩ := List.mem_map.mp hm
        exact .inr ⟨s, hs, add_eq_error_iff.mpr ⟨⟨k, (get?_ofList hs _ _).mpr ⟨hk, hn⟩⟩, h⟩⟩
      · rw [List.concat_eq_append, ← List.cons_append, ← List.append_assoc] at he
        exact .inl ⟨before, name, after, (List.append_inj' he rfl).1, hb, hm, h⟩

end CaseSet

end NetWorth
