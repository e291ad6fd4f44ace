import NetWorth.Trajectory

/-! A plan beside what was done. Cases are paired by name, the objectives of a planned case are
checked on the done one, and every pair becomes one case that holds both versions of everything. -/
namespace NetWorth

inductive CaseStatus
  | matched
  | notYetRealized
  | unplannedActual
  deriving DecidableEq

structure CaseOutcome where
  name : String
  status : CaseStatus
  planned : Option Case
  done : Option Case

structure TwinTrajectory where
  caseName : String
  status : CaseStatus
  planned : Option Trajectory
  done : Option Trajectory
  deriving DecidableEq

namespace CaseOutcome

def sides (o : CaseOutcome) : List Case := o.planned.toList ++ o.done.toList

/-- The period from the first start to the last end of the sides. -/
def period? (o : CaseOutcome) : Option (Date × Date) := do
  let start ← (o.sides.map (·.start)).min?
  let stop ← (o.sides.map (·.stop)).max?
  some (start, stop)

def trajectories (o : CaseOutcome) (s : Settings) : TwinTrajectory :=
  let chart (c : Option Case) := do
    let (start, stop) ← o.period?
    (← c).sampleBetween start stop s
  ⟨o.name, o.status, chart o.planned, chart o.done⟩

end CaseOutcome

/-- A plan beside what was done: the outcomes by name, and the cases that hold both versions. -/
structure Reconciliation where
  merged : CaseSet
  outcomes : List CaseOutcome

namespace Reconciliation

def outcome? (r : Reconciliation) (name : String) : Option CaseOutcome :=
  r.outcomes.find? fun o => o.name = name

def trajectories (r : Reconciliation) (s : Settings) : List TwinTrajectory :=
  r.outcomes.map (·.trajectories s)

end Reconciliation

/-- The possessions of an estate under a label, moved to a date unless they are of that date. -/
def Estate.labeled (e : Estate) (label : String) (date : Date) : List Possession :=
  e.possessions.map fun p => (if p.since = date then p else p.moveTo date).label label

namespace Case

def relabel (c : Case) (label : String) : Except ValidationError Case :=
  CaseDraft.build
    { name := some c.name
      estate := some { c.estate with possessions := c.estate.labeled label c.estate.date }
      stop := some c.stop
      objectives := c.objectives }

/-- A planned case with everything that was planned and everything that was done, as of the planned
start. -/
def merge (planned done : Case) (s : Settings) : Except ValidationError Case :=
  let date := planned.start
  CaseDraft.build
    { name := some planned.name
      estate := some
        { planned.estate with
          possessions :=
            planned.estate.labeled s.plannedLabel date ++ done.estate.labeled s.doneLabel date }
      stop := some (max planned.stop done.stop)
      objectives := planned.objectives }

def checkObjectives (c : Case) (e : Estate) : Except ReconcileError Unit :=
  match c.objectives.findSome? fun o => (o.shortfall? e).map fun why => (o, why) with
  | none => .ok ()
  | some (o, why) => .error (.objectiveNotMet c.name o.describe why)

end Case

namespace Settings

/-- The objectives of a planned case are checked on the done case of its name. -/
def checkCase (s : Settings) (done : CaseSet) (c : Case) : Except ReconcileError Unit :=
  match done.get? c.name with
  | some d => c.checkObjectives d.estate
  | none =>
    if s.requireDone && !c.objectives.isEmpty then .error (.missingCase c.name) else .ok ()

def checkObjectives (s : Settings) (planned done : CaseSet) : Except ReconcileError Unit :=
  planned.cases.forM (s.checkCase done)

def pair? (s : Settings) (planned done : CaseSet) (name : String) :
    Option (CaseOutcome × Except ValidationError Case) :=
  match planned.get? name, done.get? name with
  | some p, some d => some (⟨name, .matched, some p, some d⟩, p.merge d s)
  | some p, none => some (⟨name, .notYetRealized, some p, none⟩, p.relabel s.plannedLabel)
  | none, some d => some (⟨name, .unplannedActual, none, some d⟩, d.relabel s.doneLabel)
  | none, none => none

end Settings

def CaseSet.namesWith (s t : CaseSet) : List String :=
  (NameMap.ofList (s.byName.entries ++ t.byName.entries)).names

/-- The plan beside what was done. It fails on the first objective that is missed. -/
def reconcile (s : Settings) (planned done : CaseSet) : Except ScenarioError Reconciliation := do
  (s.checkObjectives planned done).mapError .reconciliation
  let pairs := (planned.namesWith done).filterMap (s.pair? planned done)
  let merged ← (pairs.mapM Prod.snd).mapError .validation
  let set ← (CaseSet.ofList merged).mapError .validation
  .ok ⟨set, pairs.map (·.1)⟩

/-- The plan to go on with: the merged cases, or the plan as it was after a failure. -/
def nextPlan (planned : CaseSet) : Except ScenarioError Reconciliation → CaseSet
  | .ok r => r.merged
  | .error _ => planned

end NetWorth
