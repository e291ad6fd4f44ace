import NetWorth.Declaration.Build
import NetWorth.Proofs.Attempt

/-! Declarations write into the innermost frame only. A case that is built in a frame of its own
therefore leaves the scope as it was, `pop_build_push`, and a scenario builds its cases apart from
each other, `ScenarioDecl.build_eq`. -/
namespace NetWorth

namespace VariableDecl
variable {s : Scope} {d : VariableDecl} {value : Value}

theorem declare_of_eval (h : d.value.eval s = .ok value) :
    d.declare s = ((s.declare d.name value).1, (s.declare d.name value).2.map fun _ => value) := by
  rw [declare, h]

theorem declare_of_error {e : EvalError} (h : d.value.eval s = .error e) :
    d.declare s = (s, .error e) := by
  rw [declare, h]

theorem snd_declare (s : Scope) (d : VariableDecl) :
    (d.declare s).2 = d.value.eval s >>= fun value =>
      (s.declare d.name value).2.map fun _ => value := by
  cases h : d.value.eval s with
  | error e => rw [declare_of_error h]; rfl
  | ok value => rw [declare_of_eval h]; rfl

/-- A declaration succeeds exactly if its expression has a value and its name is free. -/
theorem declare_succeeds_iff : (d.declare s).2 = .ok value ↔
    d.value.eval s = .ok value ∧ (s.declare d.name value).2 = .ok () := by
  rw [snd_declare, Attempt.bind_eq_ok_iff]
  constructor
  · intro ⟨v, hv, h⟩
    obtain ⟨_, hu, rfl⟩ := Attempt.map_eq_ok_iff.mp h
    exact ⟨hv, hu⟩
  · intro ⟨hv, hu⟩
    exact ⟨value, hv, Attempt.map_eq_ok_iff.mpr ⟨(), hu, rfl⟩⟩

/-- A declaration that fails, in its expression or because its name is taken, leaves the scope as it
was. -/
theorem declare_of_failed {e : EvalError} (h : (d.declare s).2 = .error e) :
    (d.declare s).1 = s := by
  cases hv : d.value.eval s with
  | error e => rw [declare_of_error hv]
  | ok value =>
    rw [declare_of_eval hv] at h ⊢
    exact Scope.declare_of_refused (Attempt.map_eq_error_iff.mp h)

theorem outer_declare (s : Scope) (d : VariableDecl) : (d.declare s).1.outer = s.outer := by
  cases hv : d.value.eval s with
  | error e => rw [declare_of_error hv]
  | ok value => rw [declare_of_eval hv, Scope.outer_declare]

theorem lookup_declare_of_ne {name : String} (h : name ≠ d.name) :
    (d.declare s).1.lookup name = s.lookup name := by
  cases hv : d.value.eval s with
  | error e => rw [declare_of_error hv]
  | ok value => rw [declare_of_eval hv, Scope.lookup_declare_of_ne h]

end VariableDecl

theorem Scope.hasInnermost_declare {s : Scope} {name : String} {value : Value}
    (h : (s.declare name value).2 = .ok ()) (other : String) :
    (s.declare name value).1.hasInnermost other ↔ other = name ∨ s.hasInnermost other := by
  rw [declare_of_not_hasInnermost (declare_succeeds_iff.mp h), hasInnermost, List.lookup_cons]
  by_cases ho : other = name
  · simp [ho]
  · rw [beq_eq_false_iff_ne.mpr ho, or_iff_right ho]
    rfl

theorem declareAll_of_ok {s : Scope} {d : VariableDecl} {value : Value}
    (h : (d.declare s).2 = .ok value) (ds : List VariableDecl) :
    declareAll s (d :: ds) = declareAll (d.declare s).1 ds := by
  rw [declareAll]
  split
  · rename_i hd
    rw [hd]
  · rename_i hd
    rw [hd] at h
    cases h

/-- The first failure is the failure of the whole, and stops the scope where it is. -/
theorem declareAll_of_error {s : Scope} {d : VariableDecl} {e : EvalError}
    (h : (d.declare s).2 = .error e) (ds : List VariableDecl) :
    declareAll s (d :: ds) = (s, .error e) := by
  have hkept := VariableDecl.declare_of_failed h
  rw [declareAll]
  split
  · rename_i hd
    rw [hd] at h
    cases h
  · rename_i hd
    rw [hd] at h hkept
    cases h
    cases hkept
    rfl

/-- A list succeeds or fails by its first declaration, and then by the others. -/
theorem declareAll_cons (s : Scope) (d : VariableDecl) (ds : List VariableDecl) :
    (declareAll s (d :: ds)).2 =
      (d.declare s).2 >>= fun _ => (declareAll (d.declare s).1 ds).2 := by
  cases hd : (d.declare s).2 with
  | error e => rw [declareAll_of_error hd]; rfl
  | ok value => rw [declareAll_of_ok hd]; rfl

/-- Whether it succeeds or fails, a list of declarations leaves the outer frames alone. -/
theorem outer_declareAll (s : Scope) (ds : List VariableDecl) :
    (declareAll s ds).1.outer = s.outer := by
  induction ds generalizing s with
  | nil => rfl
  | cons d ds ih =>
    cases hd : (d.declare s).2 with
    | error e => rw [declareAll_of_error hd]
    | ok value => rw [declareAll_of_ok hd, ih, d.outer_declare]

namespace CaseDecl

/-- The case of a declaration in a frame of its own inside a scope. -/
def buildApart (s : Scope) (c : CaseDecl) : Except ScenarioError Case := (c.build s.push).2

/-- A case declares its variables, and then its parts are built in their scope. -/
theorem build_eq (s : Scope) (c : CaseDecl) :
    c.build s = ((declareAll s c.locals).1,
      (declareAll s c.locals).2.mapError .evaluation >>= fun _ =>
        c.buildIn (declareAll s c.locals).1) := by
  rw [build]
  split <;> simp_all [bind, Except.bind]

/-- Nothing of a case is left in the scope, even where its own variables failed halfway. -/
theorem pop_build_push (s : Scope) (c : CaseDecl) : (c.build s.push).1.pop = s := by
  rw [build_eq, Scope.pop, outer_declareAll]
  rfl

/-- Since each case closes its frame, all are built in the same scope. -/
theorem buildAll_eq (s : Scope) (cs : List CaseDecl) : buildAll s cs = cs.mapM (buildApart s) := by
  induction cs with
  | nil => rfl
  | cons c cs ih =>
    rw [List.mapM_cons, ← ih, buildApart, buildAll]
    have hpop := pop_build_push s c
    cases hc : c.build s.push with
    | mk t result =>
      rw [hc] at hpop
      cases result with
      | error e => rfl
      | ok k =>
        change (buildAll t.pop cs).map _ = _
        rw [hpop]
        cases hs : buildAll s cs <;> simp [Except.map, bind, Except.bind, pure, Except.pure]

end CaseDecl

/-- A scenario is its shared variables, then case by case, then the set of the cases. -/
theorem ScenarioDecl.build_eq (d : ScenarioDecl) :
    d.build = (declareAll .empty d.shared).2.mapError .evaluation >>= fun _ =>
      d.cases.mapM (CaseDecl.buildApart (declareAll .empty d.shared).1) >>= fun cases =>
        (CaseSet.ofList cases).mapError .validation := by
  rw [build]
  split <;> simp_all [CaseDecl.buildAll_eq, bind, Except.bind]

end NetWorth
