import NetWorth.Expr

/-! Declarations: how possessions, objectives, cases and whole scenarios are described. -/
namespace NetWorth

inductive PossessionDecl
  | asset (name : String) (since : DateExpr) (value rate : NumExpr)
  | cash (name : String) (since : DateExpr) (value : NumExpr)
  | debt (name : String) (since : DateExpr) (value : NumExpr)
  | flow (name : String) (start stop : DateExpr) (amount day : NumExpr) (initial : Option NumExpr)
  deriving DecidableEq

inductive ObjectiveDecl
  | aggregate (target : NumExpr) (date : DateExpr)
  | possession (name : String) (target : NumExpr) (date : DateExpr)
  deriving DecidableEq

structure CaseDecl where
  name : String
  owner : String
  start : DateExpr
  stop : DateExpr
  locals : List VariableDecl := []
  possessions : List PossessionDecl := []
  objectives : List ObjectiveDecl := []
  deriving DecidableEq

/-- The declaration of a scenario: variables that all cases share, and the cases. -/
structure ScenarioDecl where
  shared : List VariableDecl := []
  cases : List CaseDecl := []
  deriving DecidableEq

end NetWorth
