import NetWorth.Declaration.Document
import NetWorth.Proofs.Expr.Document

/-! Declarations in documents. A whole scenario is read back as it was written exactly when all its
literals are finite. -/
namespace NetWorth

open Json

namespace PossessionDecl

def literals : PossessionDecl → List Float
  | asset _ since value rate => since.literals ++ value.literals ++ rate.literals
  | cash _ since value | debt _ since value => since.literals ++ value.literals
  | flow _ start stop amount day initial =>
    start.literals ++ stop.literals ++ amount.literals ++ day.literals ++
      initial.elim [] NumExpr.literals

/-- Cash and debts are written in one way, and so they are read in one. -/
theorem restores_plain (make : String → DateExpr → NumExpr → PossessionDecl) (name : String)
    (since : DateExpr) (value : NumExpr) :
    Restores (AllFinite (since.literals ++ value.literals)) (make name since value)
      (plainOfJson? make (.obj [("name", .str name), ("created_at", since.toJson),
        ("value", value.toJson)])) := by
  have hread : plainOfJson? make (.obj [("name", .str name), ("created_at", since.toJson),
      ("value", value.toJson)]) =
      (DateExpr.ofJson? true since.toJson).bind fun since =>
      (NumExpr.ofJson? true value.toJson).bind fun value => some (make name since value) := by
    simp [plainOfJson?, record?_obj]
  rw [hread]
  exact Restores.of_iff ((since.restores_toJson true).bind (value.restores_toJson.bind (.some _)))
    (by simp)

/-- A possession survives its document exactly if all its numbers are finite. -/
theorem restores_toJson (d : PossessionDecl) :
    Restores (AllFinite d.literals) d (ofJson? d.toJson) := by
  cases d with
  | asset name since value rate =>
    have hread : ofJson? (asset name since value rate).toJson =
        (DateExpr.ofJson? true since.toJson).bind fun since =>
        (NumExpr.ofJson? true value.toJson).bind fun value =>
        (NumExpr.ofJson? true rate.toJson).bind fun rate => some (asset name since value rate) := by
      simp [ofJson?, toJson, kinds, kind?_ofKind, record?_obj]
    rw [hread]
    exact Restores.of_iff ((since.restores_toJson true).bind (value.restores_toJson.bind
      (rate.restores_toJson.bind (.some _)))) (by simp [literals])
  | cash name since value =>
    have hread : ofJson? (cash name since value).toJson = plainOfJson? cash (.obj
        [("name", .str name), ("created_at", since.toJson), ("value", value.toJson)]) := by
      simp [ofJson?, toJson, kinds, kind?_ofKind]
    rw [hread]
    exact restores_plain cash name since value
  | debt name since value =>
    have hread : ofJson? (debt name since value).toJson = plainOfJson? debt (.obj
        [("name", .str name), ("created_at", since.toJson), ("value", value.toJson)]) := by
      simp [ofJson?, toJson, kinds, kind?_ofKind]
    rw [hread]
    exact restores_plain debt name since value
  | flow name start stop amount day initial =>
    have hread : ofJson? (flow name start stop amount day initial).toJson =
        (DateExpr.ofJson? true start.toJson).bind fun start =>
        (DateExpr.ofJson? true stop.toJson).bind fun stop =>
        (NumExpr.ofJson? true amount.toJson).bind fun amount =>
        (NumExpr.ofJson? true day.toJson).bind fun day =>
        ((ofOption NumExpr.toJson initial).nullable? (NumExpr.ofJson? true)).bind fun initial =>
          some (flow name start stop amount day initial) := by
      simp [ofJson?, toJson, kinds, kind?_ofKind, record?_obj, sound_ofOption]
    rw [hread]
    exact Restores.of_iff ((start.restores_toJson true).bind ((stop.restores_toJson true).bind
      (amount.restores_toJson.bind (day.restores_toJson.bind
        ((NumExpr.restores_ofOption initial).bind (.some _)))))) (by simp [literals])

end PossessionDecl

namespace ObjectiveDecl

def literals : ObjectiveDecl → List Float
  | aggregate target date | possession _ target date => target.literals ++ date.literals

theorem restores_toJson (d : ObjectiveDecl) :
    Restores (AllFinite d.literals) d (ofJson? d.toJson) := by
  cases d with
  | aggregate target date =>
    have hread : ofJson? (aggregate target date).toJson =
        (NumExpr.ofJson? true target.toJson).bind fun target =>
        (DateExpr.ofJson? true date.toJson).bind fun date => some (aggregate target date) := by
      simp [ofJson?, toJson, kinds, kind?_ofKind, record?_obj]
    rw [hread]
    exact Restores.of_iff (target.restores_toJson.bind ((date.restores_toJson true).bind (.some _)))
      (by simp [literals])
  | possession name target date =>
    have hread : ofJson? (possession name target date).toJson =
        (NumExpr.ofJson? true target.toJson).bind fun target =>
        (DateExpr.ofJson? true date.toJson).bind fun date =>
          some (possession name target date) := by
      simp [ofJson?, toJson, kinds, kind?_ofKind, record?_obj]
    rw [hread]
    exact Restores.of_iff (target.restores_toJson.bind ((date.restores_toJson true).bind (.some _)))
      (by simp [literals])

end ObjectiveDecl

namespace CaseDecl

def literals (c : CaseDecl) : List Float :=
  c.start.literals ++ c.stop.literals ++ c.locals.flatMap (·.value.literals) ++
    c.possessions.flatMap PossessionDecl.literals ++ c.objectives.flatMap ObjectiveDecl.literals

theorem restores_toJson (c : CaseDecl) : Restores (AllFinite c.literals) c (ofJson? c.toJson) := by
  have hread : ofJson? c.toJson =
      (DateExpr.ofJson? false c.start.toJson).bind fun start =>
      (DateExpr.ofJson? false c.stop.toJson).bind fun stop =>
      ((ofList VariableDecl.toJson c.locals).list? VariableDecl.ofJson?).bind fun locals =>
      ((ofList PossessionDecl.toJson c.possessions).list? PossessionDecl.ofJson?).bind
        fun possessions =>
      ((ofList ObjectiveDecl.toJson c.objectives).list? ObjectiveDecl.ofJson?).bind
        fun objectives =>
        some ⟨c.name, c.owner, start, stop, locals, possessions, objectives⟩ := by
    simp [ofJson?, toJson, record?_obj]
  rw [hread]
  exact Restores.of_iff ((c.start.restores_toJson false).bind ((c.stop.restores_toJson false).bind
    ((Restores.list VariableDecl.restores_toJson c.locals).bind
      ((Restores.list PossessionDecl.restores_toJson c.possessions).bind
        ((Restores.list ObjectiveDecl.restores_toJson c.objectives).bind (.some _))))))
    (by simp [literals])

end CaseDecl

namespace ScenarioDecl

def literals (d : ScenarioDecl) : List Float :=
  d.shared.flatMap (·.value.literals) ++ d.cases.flatMap CaseDecl.literals

theorem restores_toJson (d : ScenarioDecl) :
    Restores (AllFinite d.literals) d (ofJson? d.toJson) := by
  have hread : ofJson? d.toJson =
      ((ofList VariableDecl.toJson d.shared).list? VariableDecl.ofJson?).bind fun shared =>
      ((ofList CaseDecl.toJson d.cases).list? CaseDecl.ofJson?).bind fun cases =>
        some ⟨shared, cases⟩ := by
    simp [ofJson?, toJson, record?_obj]
  rw [hread]
  exact Restores.of_iff ((Restores.list VariableDecl.restores_toJson d.shared).bind
    ((Restores.list CaseDecl.restores_toJson d.cases).bind (.some _))) (by simp [literals])

/-- A scenario is read back from its node exactly when all numbers that it writes out are finite,
however deep its expressions are and whatever it leaves out. -/
theorem reads_back_iff (d : ScenarioDecl) : ofJson? d.toJson = some d ↔ AllFinite d.literals :=
  d.restores_toJson.eq_some_iff

end ScenarioDecl

end NetWorth
