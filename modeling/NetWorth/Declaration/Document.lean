import NetWorth.Declaration
import NetWorth.Expr.Document

/-! Declarations in documents. -/
namespace NetWorth

namespace PossessionDecl

def toJson : PossessionDecl → Json
  | asset name since value rate =>
    .ofKind "materiel" [("name", .str name), ("created_at", since.toJson), ("value", value.toJson),
      ("rate", rate.toJson)]
  | cash name since value =>
    .ofKind "argent" [("name", .str name), ("created_at", since.toJson), ("value", value.toJson)]
  | debt name since value =>
    .ofKind "dette" [("name", .str name), ("created_at", since.toJson), ("value", value.toJson)]
  | flow name start stop amount day initial =>
    .ofKind "flux_argent" [("name", .str name), ("start", start.toJson), ("end", stop.toJson),
      ("amount", amount.toJson), ("day_of_month", day.toJson),
      ("initial", .ofOption NumExpr.toJson initial)]

def kinds : List String := ["materiel", "argent", "dette", "flux_argent"]

def plainOfJson? (make : String → DateExpr → NumExpr → PossessionDecl) (j : Json) :
    Option PossessionDecl := do
  let r ← j.record? ["name", "created_at", "value"]
  let name ← r.required "name" Json.string?
  let since ← r.required "created_at" (DateExpr.ofJson? true)
  let value ← r.required "value" (NumExpr.ofJson? true)
  some (make name since value)

def ofJson? (j : Json) : Option PossessionDecl := do
  let (kind, rest) ← j.kind? false kinds
  match kind with
  | "materiel" =>
    let r ← rest.record? ["name", "created_at", "value", "rate"]
    let name ← r.required "name" Json.string?
    let since ← r.required "created_at" (DateExpr.ofJson? true)
    let value ← r.required "value" (NumExpr.ofJson? true)
    let rate ← r.required "rate" (NumExpr.ofJson? true)
    some (asset name since value rate)
  | "argent" => plainOfJson? cash rest
  | "dette" => plainOfJson? debt rest
  | "flux_argent" =>
    let r ← rest.record? ["name", "start", "end", "amount", "day_of_month", "initial"]
    let name ← r.required "name" Json.string?
    let start ← r.required "start" (DateExpr.ofJson? true)
    let stop ← r.required "end" (DateExpr.ofJson? true)
    let amount ← r.required "amount" (NumExpr.ofJson? true)
    let day ← r.required "day_of_month" (NumExpr.ofJson? true)
    let initial ← r.defaulted "initial" none (Json.nullable? (NumExpr.ofJson? true))
    some (flow name start stop amount day initial)
  | _ => none

end PossessionDecl

namespace ObjectiveDecl

def toJson : ObjectiveDecl → Json
  | aggregate target date =>
    .ofKind "aggregate" [("target", target.toJson), ("at", date.toJson)]
  | possession name target date =>
    .ofKind "possession" [("possession", .str name), ("target", target.toJson), ("at", date.toJson)]

def kinds : List String := ["aggregate", "possession"]

def ofJson? (j : Json) : Option ObjectiveDecl := do
  let (kind, rest) ← j.kind? false kinds
  match kind with
  | "aggregate" =>
    let r ← rest.record? ["target", "at"]
    let target ← r.required "target" (NumExpr.ofJson? true)
    let date ← r.required "at" (DateExpr.ofJson? true)
    some (aggregate target date)
  | "possession" =>
    let r ← rest.record? ["possession", "target", "at"]
    let name ← r.required "possession" Json.string?
    let target ← r.required "target" (NumExpr.ofJson? true)
    let date ← r.required "at" (DateExpr.ofJson? true)
    some (possession name target date)
  | _ => none

end ObjectiveDecl

namespace CaseDecl

def toJson (c : CaseDecl) : Json :=
  .obj [("name", .str c.name), ("owner", .str c.owner), ("start", c.start.toJson),
    ("end", c.stop.toJson), ("variables", .ofList VariableDecl.toJson c.locals),
    ("possessions", .ofList PossessionDecl.toJson c.possessions),
    ("objectives", .ofList ObjectiveDecl.toJson c.objectives)]

def ofJson? (j : Json) : Option CaseDecl := do
  let r ← j.record? ["name", "owner", "start", "end", "variables", "possessions", "objectives"]
  let name ← r.required "name" Json.string?
  let owner ← r.required "owner" Json.string?
  let start ← r.required "start" (DateExpr.ofJson? false)
  let stop ← r.required "end" (DateExpr.ofJson? false)
  let locals ← r.defaulted "variables" [] (Json.list? VariableDecl.ofJson?)
  let possessions ← r.defaulted "possessions" [] (Json.list? PossessionDecl.ofJson?)
  let objectives ← r.defaulted "objectives" [] (Json.list? ObjectiveDecl.ofJson?)
  some ⟨name, owner, start, stop, locals, possessions, objectives⟩

end CaseDecl

namespace ScenarioDecl

def toJson (d : ScenarioDecl) : Json :=
  .obj [("variables", .ofList VariableDecl.toJson d.shared),
    ("cases", .ofList CaseDecl.toJson d.cases)]

def ofJson? (j : Json) : Option ScenarioDecl := do
  let r ← j.record? ["variables", "cases"]
  let shared ← r.defaulted "variables" [] (Json.list? VariableDecl.ofJson?)
  let cases ← r.defaulted "cases" [] (Json.list? CaseDecl.ofJson?)
  some ⟨shared, cases⟩

end ScenarioDecl

end NetWorth
