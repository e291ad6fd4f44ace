import NetWorth.Proofs.Declaration.Frame
import NetWorth.Proofs.Expr.Typing

/-! The rules of scope are exact. A scenario that follows them is never refused because of a
variable, and one that can be built follows them. -/
namespace NetWorth

open Attempt

structure Scope.Holds (s : Scope) (inner : List VariableDecl) (outer : List (List VariableDecl)) :
    Prop where
  types : s.HasTypes (inner :: outer)
  names : ∀ name, s.hasInnermost name ↔ name ∈ inner.map (·.name)

section
variable {s t : Scope} {inner : List VariableDecl} {outer : List (List VariableDecl)}

namespace Scope.Holds

theorem empty : Scope.empty.Holds [] [] :=
  ⟨fun _ => rfl, fun name => by simp [hasInnermost, Scope.empty]⟩

theorem push (hs : s.Holds inner outer) : s.push.Holds [] (inner :: outer) :=
  ⟨hs.types, fun name => by simp [hasInnermost, Scope.push]⟩

/-- A declaration that succeeds adds its variable with the type of its expression. -/
theorem declare (hs : s.Holds inner outer) {v : VariableDecl} {value : Value}
    (h : (v.declare s).2 = .ok value) : (v.declare s).1.Holds (inner ++ [v]) outer := by
  obtain ⟨hv, ht⟩ := VariableDecl.declare_succeeds_iff.mp h
  have hnew : v.name ∉ inner.map (·.name) := by
    rw [← hs.names]
    exact declare_succeeds_iff.mp ht
  rw [VariableDecl.declare_of_eval hv]
  constructor
  · intro name
    rw [lookup_declare ht, resolve_concat hnew, ← hs.types name]
    split
    · rw [Option.map_some, ValueExpr.type_of_eval hv]
    · rfl
  · intro name
    rw [hasInnermost_declare ht, hs.names, List.map_append, List.mem_append, or_comm]
    exact or_congr_right List.mem_singleton.symm

end Scope.Holds

/-- A declaration is refused for a variable only if it uses one wrongly or its name is taken. -/
theorem VariableDecl.declare_tests (hs : s.Holds inner outer) (v : VariableDecl) :
    Tests EvalError.AboutVariable
      (Resolves (inner :: outer) v.value.uses ∧ v.name ∉ inner.map (·.name)) (v.declare s).2 := by
  rw [v.snd_declare]
  refine (v.value.eval_reads hs.types).bind fun value _ => ?_
  rw [← hs.names]
  by_cases h : s.hasInnermost v.name
  · rw [Scope.declare_of_hasInnermost h]
    exact (Tests.error _).of_iff (by simp [h])
  · rw [Scope.declare_of_not_hasInnermost h]
    exact (Tests.ok _).of_iff (by simp [h])

/-- Declarations succeed only if they follow the rules of their frame, and then the scope has them
all. -/
theorem declareAll_tests (hs : s.Holds inner outer) (vs : List VariableDecl) :
    Tests EvalError.AboutVariable (Declares outer inner vs) (declareAll s vs).2 ∧
      ((declareAll s vs).2 = .ok () → (declareAll s vs).1.Holds (inner ++ vs) outer) := by
  -- the frame grows with every declaration, so that the scope and the frame vary together
  induction vs generalizing s inner with
  | nil =>
    rw [List.append_nil]
    exact ⟨.ok (), fun _ => hs⟩
  | cons v vs ih =>
    rw [declareAll_cons]
    constructor
    · have h := (v.declare_tests hs).bind fun value hv => (ih (hs.declare hv)).1
      exact h.of_iff and_assoc
    · intro h
      obtain ⟨value, hv, hvs⟩ := bind_eq_ok_iff.mp h
      have hrest := (ih (hs.declare hv)).2 hvs
      rw [List.append_assoc] at hrest
      rw [declareAll_of_ok hv]
      exact hrest

end

def ScenarioError.AboutVariable : ScenarioError → Prop
  | evaluation e => e.AboutVariable
  | _ => False

theorem evaluation_tests {α : Type} {p : Prop} {x : Except EvalError α}
    (h : Tests EvalError.AboutVariable p x) :
    Tests ScenarioError.AboutVariable p (x.mapError .evaluation) :=
  .mapError h

theorem paymentDay_avoids (day : Int) : Avoids EvalError.AboutVariable (paymentDay day) := by
  unfold paymentDay
  split
  · exact .ok _
  · exact .error id

section
variable {s : Scope} {frames : List (List VariableDecl)}

/-- A possession uses what its expressions do. -/
theorem PossessionDecl.draft_reads (hs : s.HasTypes frames) (p : PossessionDecl) :
    Reads frames p.uses (p.draft s) := by
  cases p with
  | asset name since value rate =>
    rw [Reads, uses, resolves_append, resolves_append, and_assoc]
    exact (since.eval_reads hs).bind fun since _ => (value.evalAmount_reads hs).bind fun value _ =>
      (rate.eval_reads hs).bind_avoids fun rate _ => .ok _
  | cash name since value | debt name since value =>
    rw [Reads, uses, resolves_append]
    exact (since.eval_reads hs).bind fun since _ =>
      (value.evalAmount_reads hs).bind_avoids fun value _ => .ok _
  | flow name start stop amount day initial =>
    simp only [Reads, uses, resolves_append, and_assoc]
    -- with or without an initial amount, the rest is read in the same way
    have rest (initial : Amount) (day : Nat) := (start.eval_reads hs).bind fun start _ =>
      (stop.eval_reads hs).bind fun stop _ => (amount.evalAmount_reads hs).bind_avoids
      fun amount _ => (invalidDate_avoids (Possession.flow name start stop initial amount day)).bind
      fun flow _ => .ok (PossessionDraft.checked flow)
    refine (day.evalAmount_reads hs).bind fun day _ => ?_
    have paid := Tests.of_avoids (paymentDay_avoids day.toInt)
    cases initial with
    | none => exact (paid.bind fun day _ => rest 0 day).of_iff (by simp)
    | some e =>
      have h := paid.bind fun day _ => (e.evalAmount_reads hs).bind fun initial _ =>
        rest initial day
      exact h.of_iff (by simp)

theorem ObjectiveDecl.build_reads (hs : s.HasTypes frames) (o : ObjectiveDecl) :
    Reads frames o.uses (o.build s) := by
  cases o with
  | aggregate target date | possession name target date =>
    rw [Reads, uses, resolves_append]
    exact (target.evalAmount_reads hs).bind fun _ _ => (date.eval_reads hs).bind_avoids fun _ _ =>
      .ok _

theorem PossessionDecl.build_tests (hs : s.HasTypes frames) (p : PossessionDecl) :
    Tests ScenarioError.AboutVariable (Resolves frames p.uses) (p.build s) :=
  (evaluation_tests (p.draft_reads hs)).bind_avoids fun _ _ => .of_mapError (fun _ => id) _

theorem CaseDecl.buildIn_tests (hs : s.HasTypes frames) (c : CaseDecl) :
    Tests ScenarioError.AboutVariable (Resolves frames c.uses) (c.buildIn s) := by
  simp only [uses, resolves_append, resolves_flatMap, and_assoc]
  have objectives : Tests EvalError.AboutVariable (∀ o ∈ c.objectives, Resolves frames o.uses)
    (c.objectives.mapM (ObjectiveDecl.build s)) := .mapM fun o _ => o.build_reads hs
  exact (evaluation_tests (c.start.eval_reads hs)).bind fun start _ =>
    (evaluation_tests (c.stop.eval_reads hs)).bind fun stop _ =>
    (Tests.mapM fun p _ => (p.build_tests hs).map).bind fun possessions _ =>
    (evaluation_tests objectives).bind_avoids fun objectives _ => .of_mapError (fun _ => id) _

end

/-- A case that is built follows the rules of scope, and no variable stops one that does. -/
theorem CaseDecl.buildApart_tests {s : Scope} {shared : List VariableDecl}
    (hs : s.Holds shared []) (c : CaseDecl) :
    Tests ScenarioError.AboutVariable (c.WellScoped shared) (c.buildApart s) := by
  rw [buildApart, build_eq]
  obtain ⟨htests, hholds⟩ := declareAll_tests hs.push c.locals
  have h := (evaluation_tests htests).bind fun _ hok =>
    c.buildIn_tests (hholds (mapError_eq_ok_iff.mp hok)).types
  exact h.of_iff ⟨fun h => ⟨h.1, h.2⟩, fun h => ⟨h.locals, h.body⟩⟩

/-- A scenario that is built follows the rules of scope, and no variable stops one that does. -/
theorem ScenarioDecl.build_tests (d : ScenarioDecl) :
    Tests ScenarioError.AboutVariable d.WellScoped d.build := by
  rw [build_eq]
  obtain ⟨htests, hholds⟩ := declareAll_tests Scope.Holds.empty d.shared
  refine Tests.of_iff (p := Declares [] [] d.shared ∧ ∀ c ∈ d.cases, c.WellScoped d.shared) ?_
    ⟨fun h => ⟨h.1, h.2⟩, fun h => ⟨h.shared, h.cases⟩⟩
  refine (evaluation_tests htests).bind fun _ hok => Tests.bind_avoids ?_ fun _ _ =>
    .of_mapError (fun _ => id) _
  have hs := hholds (mapError_eq_ok_iff.mp hok)
  exact .mapM fun c _ => c.buildApart_tests hs

/-- The rules of scope are exact: a scenario that follows them is never refused because a variable
is unknown, declared twice or of another type, and one that can be built follows them. -/
theorem ScenarioDecl.build_respects_scope (d : ScenarioDecl) :
    (d.WellScoped → ∀ name expected actual,
      d.build ≠ .error (.evaluation (.undefinedVariable name)) ∧
      d.build ≠ .error (.evaluation (.duplicateVariable name)) ∧
      d.build ≠ .error (.evaluation (.typeMismatch name expected actual))) ∧
    ∀ set, d.build = .ok set → d.WellScoped := by
  refine ⟨fun h name expected actual => ?_, d.build_tests.holds⟩
  have havoids := d.build_tests.avoids h
  exact ⟨fun he => havoids _ he trivial, fun he => havoids _ he trivial,
    fun he => havoids _ he trivial⟩

end NetWorth
