import NetWorth.Proofs.Declaration.Failure

/-! The cases of a scenario do not see each other. -/
namespace NetWorth

namespace CaseDecl
variable {s : Scope} {c : CaseDecl} {k : Case}

private theorem name_of_buildIn (h : c.buildIn s = .ok k) : k.name = c.name := by
  simp only [buildIn, Attempt.bind_eq_ok_iff, Attempt.mapError_eq_ok_iff] at h
  obtain ⟨_, _, _, _, _, _, _, _, h⟩ := h
  exact (Option.some.inj (CaseDraft.build_eq_ok_iff.mp h).1).symm

theorem name_of_buildApart (h : c.buildApart s = .ok k) : k.name = c.name := by
  rw [buildApart, build_eq] at h
  obtain ⟨_, _, h⟩ := Attempt.bind_eq_ok_iff.mp h
  exact name_of_buildIn h

variable {cs : List CaseDecl} {ks : List Case}

private theorem map_name_of_mapM (h : cs.mapM (buildApart s) = .ok ks) :
    ks.map (·.name) = cs.map (·.name) := by
  rw [Attempt.mapM_eq_ok_iff] at h
  induction cs generalizing ks with
  | nil => rw [List.map_eq_nil_iff.mp h.symm]; rfl
  | cons c cs ih =>
    cases ks with
    | nil => cases h
    | cons k ks =>
      obtain ⟨hk, hks⟩ := List.cons.inj h
      rw [List.map_cons, List.map_cons, ih hks, name_of_buildApart hk]

/-- The cases that are built are those of the declarations, each by itself. -/
private theorem mem_of_mapM (h : cs.mapM (buildApart s) = .ok ks) (name : String) (k : Case) :
    k ∈ ks ∧ k.name = name ↔ ∃ c ∈ cs, c.name = name ∧ c.buildApart s = .ok k := by
  have hk : k ∈ ks ↔ ∃ c ∈ cs, c.buildApart s = .ok k := by
    have hok : Except.ok k ∈ ks.map (Except.ok (ε := ScenarioError)) ↔ k ∈ ks := by simp
    rw [← hok, ← Attempt.mapM_eq_ok_iff.mp h, List.mem_map]
  rw [hk]
  constructor
  · intro ⟨⟨c, hc, hb⟩, hn⟩
    exact ⟨c, hc, (name_of_buildApart hb).symm.trans hn, hb⟩
  · intro ⟨c, hc, hn, hb⟩
    exact ⟨⟨c, hc, hb⟩, (name_of_buildApart hb).trans hn⟩

end CaseDecl

namespace ScenarioDecl
variable {d : ScenarioDecl} {s : Scope}

private theorem build_eq_of_declareAll (h : declareAll .empty d.shared = (s, .ok ())) :
    d.build = d.cases.mapM (CaseDecl.buildApart s) >>= fun cases =>
      (CaseSet.ofList cases).mapError .validation := by
  rw [build_eq, h]
  rfl

/-- A scenario is built exactly if every case is, by itself, and no name occurs twice. -/
theorem build_succeeds_iff (h : declareAll .empty d.shared = (s, .ok ())) :
    (∃ set, d.build = .ok set) ↔
      (∀ c ∈ d.cases, ∃ k, c.buildApart s = .ok k) ∧ (d.cases.map (·.name)).Nodup := by
  rw [build_eq_of_declareAll h, ← Attempt.mapM_succeeds_iff]
  constructor
  · intro ⟨set, hset⟩
    obtain ⟨ks, hks, hset⟩ := Attempt.bind_eq_ok_iff.mp hset
    have hn := CaseSet.ofList_succeeds_iff.mp ⟨set, Attempt.mapError_eq_ok_iff.mp hset⟩
    rw [CaseDecl.map_name_of_mapM hks] at hn
    exact ⟨⟨ks, hks⟩, hn⟩
  · intro ⟨⟨ks, hks⟩, hn⟩
    rw [← CaseDecl.map_name_of_mapM hks] at hn
    obtain ⟨set, hset⟩ := CaseSet.ofList_succeeds_iff.mpr hn
    exact ⟨set, Attempt.bind_eq_ok_iff.mpr ⟨ks, hks, Attempt.mapError_eq_ok_iff.mpr hset⟩⟩

/-- A scenario that can be built is the set of its cases, which are built apart. -/
theorem get?_build (h : declareAll .empty d.shared = (s, .ok ())) {set : CaseSet}
    (hset : d.build = .ok set) (name : String) (k : Case) :
    set.get? name = some k ↔ ∃ c ∈ d.cases, c.name = name ∧ c.buildApart s = .ok k := by
  rw [build_eq_of_declareAll h] at hset
  obtain ⟨ks, hks, hset⟩ := Attempt.bind_eq_ok_iff.mp hset
  rw [CaseSet.get?_ofList (Attempt.mapError_eq_ok_iff.mp hset), CaseDecl.mem_of_mapM hks]

/-- Scenarios that differ in the order of their cases only are the same set. -/
theorem build_perm (h : declareAll .empty d.shared = (s, .ok ())) {set : CaseSet}
    (hset : d.build = .ok set) {cases : List CaseDecl} (hp : cases.Perm d.cases) :
    ScenarioDecl.build ⟨d.shared, cases⟩ = .ok set := by
  obtain ⟨hall, hn⟩ := (build_succeeds_iff h).mp ⟨set, hset⟩
  obtain ⟨other, hother⟩ := (build_succeeds_iff (d := ⟨d.shared, cases⟩) h).mpr
    ⟨fun c hc => hall c (hp.mem_iff.mp hc), (hp.map _).nodup_iff.mpr hn⟩
  have hsame : other = set := by
    apply CaseSet.ext_get?
    intro name
    apply Option.ext
    intro k
    rw [get?_build h hset, get?_build (d := ⟨d.shared, cases⟩) h hother]
    simp only [hp.mem_iff]
  rw [hother, hsame]

/-- The error is that of the first case which cannot be built, or else the first repeated name. -/
theorem build_eq_error_iff (h : declareAll .empty d.shared = (s, .ok ())) {e : ScenarioError} :
    d.build = .error e ↔
      (∃ before c after, d.cases = before ++ c :: after ∧
        (∀ b ∈ before, ∃ k, b.buildApart s = .ok k) ∧ c.buildApart s = .error e) ∨
      (∀ c ∈ d.cases, ∃ k, c.buildApart s = .ok k) ∧
        ∃ before name after, d.cases.map (·.name) = before ++ name :: after ∧
          before.Nodup ∧ name ∈ before ∧ e = .validation (.duplicateCase name) := by
  rw [build_eq_of_declareAll h, Attempt.bind_eq_error_iff, Attempt.mapM_eq_error_iff,
    ← Attempt.mapM_succeeds_iff]
  apply or_congr_right
  constructor
  · intro ⟨ks, hks, he⟩
    obtain ⟨v, hv, rfl⟩ := Attempt.mapError_eq_error_iff.mp he
    obtain ⟨before, name, after, hn, hb, hm, rfl⟩ := CaseSet.ofList_eq_error_iff.mp hv
    rw [CaseDecl.map_name_of_mapM hks] at hn
    exact ⟨⟨ks, hks⟩, before, name, after, hn, hb, hm, rfl⟩
  · intro ⟨⟨ks, hks⟩, before, name, after, hn, hb, hm, he⟩
    rw [← CaseDecl.map_name_of_mapM hks] at hn
    exact ⟨ks, hks, Attempt.mapError_eq_error_iff.mpr
      ⟨_, CaseSet.ofList_eq_error_iff.mpr ⟨before, name, after, hn, hb, hm, rfl⟩, he⟩⟩

/-- The cases of a scenario do not see each other: each is what it is with the shared variables
alone, in whatever order they stand. Only when all of them can be built is a repeated name the
error. -/
theorem build_isolated (h : declareAll .empty d.shared = (s, .ok ())) :
    ((∃ set, d.build = .ok set) ↔
      (∀ c ∈ d.cases, ∃ k, c.buildApart s = .ok k) ∧ (d.cases.map (·.name)).Nodup) ∧
    (∀ set, d.build = .ok set →
      (∀ name k, set.get? name = some k ↔
        ∃ c ∈ d.cases, c.name = name ∧ c.buildApart s = .ok k) ∧
      ∀ cases, cases.Perm d.cases → ScenarioDecl.build ⟨d.shared, cases⟩ = .ok set) ∧
    (∀ e, d.build = .error e ↔
      (∃ before c after, d.cases = before ++ c :: after ∧
        (∀ b ∈ before, ∃ k, b.buildApart s = .ok k) ∧ c.buildApart s = .error e) ∨
      (∀ c ∈ d.cases, ∃ k, c.buildApart s = .ok k) ∧
        ∃ before name after, d.cases.map (·.name) = before ++ name :: after ∧
          before.Nodup ∧ name ∈ before ∧ e = .validation (.duplicateCase name)) ∧
    ∀ name, d.build = .error (.validation (.duplicateCase name)) →
      ∀ c ∈ d.cases, ∃ k, c.buildApart s = .ok k := by
  refine ⟨build_succeeds_iff h, fun set hset => ⟨get?_build h hset, fun cases => build_perm h hset⟩,
    fun e => build_eq_error_iff h, fun name he => ?_⟩
  rcases (build_eq_error_iff h).mp he with ⟨_, c, _, _, _, hc⟩ | ⟨hall, _⟩
  · exact absurd (.inr ⟨name, rfl⟩) (CaseDecl.buildApart_avoids s c _ hc)
  · exact hall

def namesakes : ScenarioDecl where
  shared := [⟨"end", .date { base := .maximum }⟩]
  cases := [
    { name := "base"
      owner := "Ada"
      start := { base := .var "day" }
      stop := { base := .var "end" }
      locals := [⟨"day", .date { base := .minimum }⟩] },
    { name := "wage"
      owner := "Ada"
      start := { base := .var "day" }
      stop := { base := .var "end" }
      locals := [⟨"day", .date { base := .maximum }⟩] }]

theorem build_namesakes : declareAll .empty namesakes.shared =
      (⟨[("end", .date Date.last)], []⟩, .ok ()) ∧
    ∃ set, namesakes.build = .ok set ∧ (set.get? "base").map (·.start) = some Date.first ∧
      ∀ cases, cases.Perm namesakes.cases → build ⟨namesakes.shared, cases⟩ = .ok set := by
  have hs : declareAll .empty namesakes.shared = (⟨[("end", .date Date.last)], []⟩, .ok ()) := rfl
  obtain ⟨hok, hset, _⟩ := build_isolated hs
  have hall : ∀ c ∈ namesakes.cases,
      ∃ k, c.buildApart ⟨[("end", .date Date.last)], []⟩ = .ok k := by
    simp only [namesakes, List.forall_mem_cons, List.not_mem_nil, false_implies, implies_true,
      and_true]
    exact ⟨⟨_, rfl⟩, _, rfl⟩
  obtain ⟨set, hb⟩ := hok.mpr ⟨hall, by decide⟩
  obtain ⟨hg, hp⟩ := hset set hb
  have hbase := (hg "base" _).mpr ⟨_, List.mem_cons_self, rfl, rfl⟩
  refine ⟨hs, set, hb, ?_, hp⟩
  rw [hbase]
  rfl

end ScenarioDecl
end NetWorth
