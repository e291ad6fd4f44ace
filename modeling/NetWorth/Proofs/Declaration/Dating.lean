import NetWorth.Proofs.Case
import NetWorth.Proofs.Declaration.Frame
import NetWorth.Proofs.Possession

/-! The cases of a scenario are of one date: what was acquired before their first day is moved there
when they are built, whatever kind it is of. -/
namespace NetWorth

/-- A built case and its estate have the name of the declaration, and it has what is declared, as of
its first day. -/
theorem CaseDecl.parts_of_buildIn {s : Scope} {c : CaseDecl} {k : Case} (h : c.buildIn s = .ok k) :
    k.name = c.name ∧ ∃ start ps, k.estate = ⟨c.name, c.owner, start, ps⟩ ∧
      (c.possessions.mapM fun p => (p.build s).map (·.moveTo start)) = .ok ps := by
  simp only [buildIn, Attempt.bind_eq_ok_iff, Attempt.mapError_eq_ok_iff] at h
  obtain ⟨start, _, _, _, ps, hps, _, _, hk⟩ := h
  obtain ⟨hn, he, _, _⟩ := CaseDraft.build_eq_ok_iff.mp hk
  exact ⟨(Option.some.inj hn).symm, start, ps, (Option.some.inj he).symm, hps⟩

/-- Building moves to the start of a case what would be older. -/
theorem CaseDecl.dated_of_buildIn {s : Scope} {c : CaseDecl} {k : Case}
    (h : c.buildIn s = .ok k) : k.Dated := by
  obtain ⟨_, start, ps, hestate, hps⟩ := parts_of_buildIn h
  intro q hq
  rw [hestate] at hq
  obtain ⟨_, _, hbuilt⟩ := Attempt.exists_of_mem_mapM hps hq
  obtain ⟨p, _, rfl⟩ := Attempt.map_eq_ok_iff.mp hbuilt
  rw [Case.start, hestate]
  exact p.le_since_moveTo start

/-- Every case of a scenario was built from a declaration. -/
theorem ScenarioDecl.exists_buildIn {d : ScenarioDecl} {set : CaseSet} (h : d.build = .ok set)
    {name : String} {k : Case} (hk : set.get? name = some k) :
    ∃ s, ∃ c : CaseDecl, c.buildIn s = .ok k := by
  rw [build_eq] at h
  obtain ⟨_, _, h⟩ := Attempt.bind_eq_ok_iff.mp h
  obtain ⟨ks, hks, hset⟩ := Attempt.bind_eq_ok_iff.mp h
  obtain ⟨hmem, _⟩ := (CaseSet.get?_ofList (Attempt.mapError_eq_ok_iff.mp hset) name k).mp hk
  obtain ⟨c, _, hc⟩ := Attempt.exists_of_mem_mapM hks hmem
  rw [CaseDecl.buildApart, CaseDecl.build_eq] at hc
  obtain ⟨_, _, hc⟩ := Attempt.bind_eq_ok_iff.mp hc
  exact ⟨_, c, hc⟩

/-- No case of a built scenario has anything older than itself. -/
theorem ScenarioDecl.dated_of_build {d : ScenarioDecl} {set : CaseSet} (h : d.build = .ok set)
    {name : String} {k : Case} (hk : set.get? name = some k) : k.Dated := by
  obtain ⟨_, _, hc⟩ := exists_buildIn h hk
  exact CaseDecl.dated_of_buildIn hc

end NetWorth
