import NetWorth.Case
import NetWorth.Declaration
import NetWorth.Expr.Eval

/-! Building scenarios from their declarations. The shared variables are in the outer frame of the
scope, and each case opens a frame for its own, which is closed again after it. -/
namespace NetWorth

def paymentDay (day : Int) : Except EvalError Nat :=
  if FitsUnsignedHalfWord day then .ok day.toNat
  else .error (.invalidDate (.paymentDayOutOfRange day))

/-- What the expressions of a declaration have come to. The rate of an asset is still to be checked.
-/
inductive PossessionDraft
  | asset (name : String) (since : Date) (value : Amount) (rate : Float)
  | checked (possession : Possession)

def PossessionDraft.build : PossessionDraft → Except ValidationError Possession
  | asset name since value rate => Possession.asset name since value rate
  | checked possession => .ok possession

namespace PossessionDecl

def draft (s : Scope) : PossessionDecl → Except EvalError PossessionDraft
  | asset name since value rate => do
    let since ← since.eval s
    let value ← value.evalAmount s
    let rate ← rate.eval s
    .ok (.asset name since value rate)
  | cash name since value => do
    let since ← since.eval s
    let value ← value.evalAmount s
    .ok (.checked (.cash name since value))
  | debt name since value => do
    let since ← since.eval s
    let value ← value.evalAmount s
    .ok (.checked (.debt name since value))
  | flow name start stop amount day initial => do
    let day ← day.evalAmount s
    let day ← paymentDay day.toInt
    let initial ← match initial with
      | some e => e.evalAmount s
      | none => .ok 0
    let start ← start.eval s
    let stop ← stop.eval s
    let amount ← amount.evalAmount s
    let flow ← (Possession.flow name start stop initial amount day).mapError .invalidDate
    .ok (.checked flow)

def build (s : Scope) (p : PossessionDecl) : Except ScenarioError Possession := do
  let draft ← (p.draft s).mapError .evaluation
  draft.build.mapError .validation

end PossessionDecl

def ObjectiveDecl.build (s : Scope) : ObjectiveDecl → Except EvalError Objective
  | aggregate target date => do
    let target ← target.evalAmount s
    let date ← date.eval s
    .ok (.aggregate target date)
  | possession name target date => do
    let target ← target.evalAmount s
    let date ← date.eval s
    .ok (.possession name target date)

namespace CaseDecl

/-- The case of a declaration whose variables are in the scope already. Possessions that are held
on its first day are moved there. -/
def buildIn (s : Scope) (c : CaseDecl) : Except ScenarioError Case := do
  let start ← (c.start.eval s).mapError .evaluation
  let stop ← (c.stop.eval s).mapError .evaluation
  let possessions ← c.possessions.mapM fun p => (p.build s).map (·.moveTo start)
  let objectives ← (c.objectives.mapM (ObjectiveDecl.build s)).mapError .evaluation
  let draft : CaseDraft :=
    { name := some c.name
      estate := some ⟨c.name, c.owner, start, possessions⟩
      stop := some stop
      objectives }
  draft.build.mapError .validation

def build (s : Scope) (c : CaseDecl) : Scope × Except ScenarioError Case :=
  match declareAll s c.locals with
  | (s, .ok ()) => (s, c.buildIn s)
  | (s, .error e) => (s, .error (.evaluation e))

def buildAlone (c : CaseDecl) : Except ScenarioError Case := (c.build .empty).2

def buildAll (s : Scope) : List CaseDecl → Except ScenarioError (List Case)
  | [] => .ok []
  | c :: cs =>
    match c.build s.push with
    | (s, .ok case) => (buildAll s.pop cs).map (case :: ·)
    | (_, .error e) => .error e

end CaseDecl

/-- The cases of a scenario. The first failure is the failure of the whole. -/
def ScenarioDecl.build (d : ScenarioDecl) : Except ScenarioError CaseSet :=
  match declareAll .empty d.shared with
  | (s, .ok ()) => do
    let cases ← CaseDecl.buildAll s d.cases
    (CaseSet.ofList cases).mapError .validation
  | (_, .error e) => .error (.evaluation e)

end NetWorth
