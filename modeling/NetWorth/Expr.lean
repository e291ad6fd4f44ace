import NetWorth.Decimal.Binary

/-! Expressions for numbers and dates. -/
namespace NetWorth

inductive BinaryOp
  | add
  | sub
  | mul
  | div
  deriving DecidableEq

inductive NumExpr
  | literal (value : Float)
  | var (name : String)
  | negate (operand : NumExpr)
  | binary (op : BinaryOp) (lhs rhs : NumExpr)
  deriving DecidableEq

def NumExpr.ofInt (n : Int) : NumExpr := literal (nearestFloat n)

inductive MonthExpr
  | number (value : NumExpr)
  | name (name : String)
  deriving DecidableEq

/-- The date that an offset starts from. An indeterminate date is as late as can be. -/
inductive BaseDate
  | indeterminate
  | maximum
  | minimum
  | var (name : String)
  | construct (day : NumExpr) (month : MonthExpr) (year : NumExpr)
  deriving DecidableEq

/-- An offset whose parts are expressions; those that are absent count as zero. -/
structure OffsetExpr where
  negative : Bool := false
  years : Option NumExpr := none
  months : Option NumExpr := none
  weeks : Option NumExpr := none
  days : Option NumExpr := none
  deriving DecidableEq

structure DateExpr where
  base : BaseDate
  offset : Option OffsetExpr := none
  deriving DecidableEq

namespace DateExpr

def ofParts (year month day : Int) : DateExpr :=
  { base := .construct (.ofInt day) (.number (.ofInt month)) (.ofInt year) }

def ofNamedMonth (day : Int) (month : String) (year : Int) : DateExpr :=
  { base := .construct (.ofInt day) (.name month) (.ofInt year) }

def withOffset (e : DateExpr) (offset : OffsetExpr) : DateExpr := { e with offset := some offset }

end DateExpr

inductive ValueExpr
  | date (value : DateExpr)
  | number (value : NumExpr)
  deriving DecidableEq

structure VariableDecl where
  name : String
  value : ValueExpr
  deriving DecidableEq

end NetWorth
