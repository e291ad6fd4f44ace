import NetWorth.Declaration.Build
import NetWorth.Declaration.Document
import NetWorth.Json.Reader
import NetWorth.Reconciliation

/-! Scenarios from their declarations to their comparison. The two sides are built apart and
delivered in any order; the failure of the plan comes before that of what was done. -/
namespace NetWorth

def CaseSet.ofText (text : String) : Except ScenarioError CaseSet :=
  match (Json.ofText? text).bind ScenarioDecl.ofJson? with
  | none => .error .unreadable
  | some d => d.build

inductive Side
  | planned
  | done
  deriving DecidableEq

structure Delivery where
  side : Side
  result : Except ScenarioError CaseSet

namespace Delivery

/-- The result that was delivered last for a side. -/
def resultFor? (side : Side) (ds : List Delivery) : Option (Except ScenarioError CaseSet) :=
  (ds.reverse.find? fun d => d.side = side).map (·.result)

/-- Both scenarios from the deliveries, in the order in which they came. -/
def assemble (ds : List Delivery) : Except ScenarioError (CaseSet × CaseSet) :=
  match resultFor? .planned ds, resultFor? .done ds with
  | none, _ => .error (.internal "planned worker sent no result")
  | some _, none => .error (.internal "done worker sent no result")
  | some planned, some done => do
    let planned ← planned
    let done ← done
    .ok (planned, done)

end Delivery

def buildBoth (planned done : ScenarioDecl) : Except ScenarioError (CaseSet × CaseSet) :=
  Delivery.assemble [⟨.planned, planned.build⟩, ⟨.done, done.build⟩]

/-- The plan beside what was done, from their declarations. Invalid settings fail before anything
is built. -/
def buildAndReconcile (s : Settings) (planned done : ScenarioDecl) :
    Except ScenarioError Reconciliation := do
  s.validate.mapError .validation
  let (planned, done) ← buildBoth planned done
  reconcile s planned done

end NetWorth
