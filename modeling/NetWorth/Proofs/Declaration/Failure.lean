import NetWorth.Proofs.Case
import NetWorth.Proofs.Declaration.Frame

/-! Why a scenario cannot be built. An expression of a case has no value, or a part of the case is
not valid; no other error comes from a case. Only the whole set can find a name twice. -/
namespace NetWorth

open Attempt

namespace ScenarioError

/-- An error of another kind than evaluation and validation. -/
def IsForeign : ScenarioError → Prop
  | evaluation _ | validation _ => False
  | reconciliation _ | file _ | unreadable | internal _ => True

def IsDuplicate (e : ScenarioError) : Prop := ∃ name, e = .validation (.duplicateCase name)

/-- An error that the building of a single case never raises. -/
def IsBeyondCase (e : ScenarioError) : Prop := e.IsForeign ∨ e.IsDuplicate

theorem evaluation_not_beyondCase (e : EvalError) : ¬ IsBeyondCase (.evaluation e) := by
  rintro (h | ⟨_, h⟩) <;> cases h

theorem validation_not_beyondCase {e : ValidationError} (h : ∀ name, e ≠ .duplicateCase name) :
    ¬ IsBeyondCase (.validation e) := by
  rintro (h' | ⟨name, h'⟩)
  · exact h'
  · cases h'
    exact h name rfl

end ScenarioError

theorem Possession.asset_ne_duplicateCase {name : String} {since : Date} {value : Amount}
    {rate : Float} (other : String) :
    asset name since value rate ≠ .error (.duplicateCase other) := by
  unfold asset Rate.ofFloat
  split <;> nofun

/-- The only fault of a draft is its rate. -/
theorem PossessionDraft.build_ne_duplicateCase (d : PossessionDraft) (name : String) :
    d.build ≠ .error (.duplicateCase name) := by
  cases d with
  | asset => exact Possession.asset_ne_duplicateCase name
  | checked => nofun

section
variable {α : Type}

theorem evaluation_avoids (x : Except EvalError α) :
    Avoids ScenarioError.IsBeyondCase (x.mapError .evaluation) :=
  .of_mapError ScenarioError.evaluation_not_beyondCase x

theorem validation_avoids {x : Except ValidationError α}
    (h : ∀ name, x ≠ .error (.duplicateCase name)) :
    Avoids ScenarioError.IsBeyondCase (x.mapError .validation) := by
  refine .mapError fun e he => ScenarioError.validation_not_beyondCase ?_
  rintro name rfl
  exact h name he

end

/-- Building a case fails in its expressions or in a check of its own parts. -/
theorem CaseDecl.buildApart_avoids (s : Scope) (c : CaseDecl) :
    Avoids ScenarioError.IsBeyondCase (c.buildApart s) := by
  have possession (t : Scope) (p : PossessionDecl) :
      Avoids ScenarioError.IsBeyondCase (p.build t) :=
    (evaluation_avoids _).bind fun d _ => validation_avoids d.build_ne_duplicateCase
  rw [buildApart, build_eq]
  exact (evaluation_avoids _).bind fun _ _ => (evaluation_avoids _).bind fun start _ =>
    (evaluation_avoids _).bind fun stop _ =>
    (Avoids.mapM fun p _ => (possession _ p).map).bind fun possessions _ =>
    (evaluation_avoids _).bind fun objectives _ =>
    validation_avoids (CaseDraft.build_ne_duplicateCase _)

/-- Building a scenario fails for no other reason than evaluation and validation. -/
theorem ScenarioDecl.build_not_foreign (d : ScenarioDecl) :
    Avoids ScenarioError.IsForeign d.build := by
  rw [build_eq]
  exact (Avoids.of_mapError (fun _ => id) _).bind fun _ _ =>
    (Avoids.mapM fun c _ => (c.buildApart_avoids _).mono fun _ => .inl).bind fun cases _ =>
    .of_mapError (fun _ => id) _

end NetWorth
