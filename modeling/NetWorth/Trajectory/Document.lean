import NetWorth.Calendar.Document
import NetWorth.Json.Printer
import NetWorth.Json.Reader
import NetWorth.Reconciliation

/-! Summaries and charts in documents, for export. -/
namespace NetWorth

namespace PossessionSummary

def toJson (p : PossessionSummary) : Json :=
  .obj [("name", .str p.name), ("kind", .str p.kind), ("created_at", p.since.toJson),
    ("book_value", .ofSigned p.value)]

def ofJson? (j : Json) : Option PossessionSummary := do
  let r ← j.record? ["name", "kind", "created_at", "book_value"]
  let name ← r.required "name" Json.string?
  let kind ← r.required "kind" Json.string?
  let since ← r.required "created_at" Date.ofJson?
  let value ← r.required "book_value" Json.signedWord?
  some ⟨name, kind, since, value⟩

end PossessionSummary

namespace EstateSummary

def toJson (e : EstateSummary) : Json :=
  .obj [("name", .str e.name), ("owner", .obj [("name", .str e.owner)]), ("at", e.date.toJson),
    ("aggregate_book_value", .ofSigned e.aggregate),
    ("possessions", .ofList PossessionSummary.toJson e.possessions)]

def ownerOfJson? (j : Json) : Option String := do
  let r ← j.record? ["name"]
  r.required "name" Json.string?

def ofJson? (j : Json) : Option EstateSummary := do
  let r ← j.record? ["name", "owner", "at", "aggregate_book_value", "possessions"]
  let name ← r.required "name" Json.string?
  let owner ← r.required "owner" ownerOfJson?
  let date ← r.required "at" Date.ofJson?
  let aggregate ← r.required "aggregate_book_value" Json.signedWord?
  let possessions ← r.required "possessions" (Json.list? PossessionSummary.ofJson?)
  some ⟨name, owner, date, aggregate, possessions⟩

def text (e : EstateSummary) : String := e.toJson.text

end EstateSummary

namespace TrajectoryPoint

def toJson (p : TrajectoryPoint) : Json :=
  .obj [("date", p.date.toJson), ("aggregate", .ofSigned p.aggregate),
    ("possessions", .obj (p.byName.entries.map fun e => (e.1, .ofSigned e.2)))]

/-- The values by name that a node writes; of several for one name the last counts. -/
def byNameOfJson? : Json → Option (NameMap Amount)
  | .obj members =>
    (members.mapM fun (m : String × Json) => m.2.signedWord?.map (m.1, ·)).map NameMap.ofList
  | _ => none

def ofJson? (j : Json) : Option TrajectoryPoint := do
  let r ← j.record? ["date", "aggregate", "possessions"]
  let date ← r.required "date" Date.ofJson?
  let aggregate ← r.required "aggregate" Json.signedWord?
  let byName ← r.required "possessions" byNameOfJson?
  some ⟨date, aggregate, byName⟩

end TrajectoryPoint

namespace Trajectory

def toJson (t : Trajectory) : Json :=
  .obj [("case", .str t.caseName), ("points", .ofList TrajectoryPoint.toJson t.points)]

def ofJson? (j : Json) : Option Trajectory := do
  let r ← j.record? ["case", "points"]
  let caseName ← r.required "case" Json.string?
  let points ← r.required "points" (Json.list? TrajectoryPoint.ofJson?)
  some ⟨caseName, points⟩

end Trajectory

namespace CaseStatus

def name : CaseStatus → String
  | matched => "matched"
  | notYetRealized => "not_yet_realized"
  | unplannedActual => "unplanned_actual"

def toJson (s : CaseStatus) : Json := .str s.name

def ofJson? (j : Json) : Option CaseStatus :=
  (j.choice? false ["matched", "not_yet_realized", "unplanned_actual"]).bind fun name =>
    [matched, notYetRealized, unplannedActual].find? fun s => s.name = name

end CaseStatus

namespace TwinTrajectory

def toJson (t : TwinTrajectory) : Json :=
  .obj [("case", .str t.caseName), ("status", t.status.toJson),
    ("planned", .ofOption Trajectory.toJson t.planned), ("done", .ofOption Trajectory.toJson t.done)]

def ofJson? (j : Json) : Option TwinTrajectory := do
  let r ← j.record? ["case", "status", "planned", "done"]
  let caseName ← r.required "case" Json.string?
  let status ← r.required "status" CaseStatus.ofJson?
  let planned ← r.optional "planned" Trajectory.ofJson?
  let done ← r.optional "done" Trajectory.ofJson?
  some ⟨caseName, status, planned, done⟩

def textOfList (ts : List TwinTrajectory) : String := (Json.ofList toJson ts).text

def listOfText? (text : String) : Option (List TwinTrajectory) :=
  (Json.ofText? text).bind (Json.list? ofJson?)

end TwinTrajectory

def Reconciliation.chartText (r : Reconciliation) (s : Settings) : String :=
  TwinTrajectory.textOfList (r.trajectories s)

end NetWorth
