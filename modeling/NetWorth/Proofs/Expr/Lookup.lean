import NetWorth.Expr.Eval

/-! An expression sees nothing of a scope but what it finds under its names. In scopes that agree on
that, it stands for the same and fails in the same way. -/
namespace NetWorth

/-- Two scopes find the same variables, in whatever frames these are. -/
def Scope.Agrees (s t : Scope) : Prop := ∀ name, s.lookup name = t.lookup name

section
variable {s t : Scope}

theorem Scope.number_congr (h : s.Agrees t) (name : String) : s.number name = t.number name := by
  rw [number, number, h name]

theorem Scope.date_congr (h : s.Agrees t) (name : String) : s.date name = t.date name := by
  rw [date, date, h name]

namespace NumExpr

theorem eval_congr (h : s.Agrees t) (e : NumExpr) : e.eval s = e.eval t := by
  induction e with
  | literal x => rfl
  | var name => exact Scope.number_congr h name
  | negate e ih => rw [eval, eval, ih]
  | binary op lhs rhs ihl ihr => rw [eval, eval, ihl, ihr]

theorem evalAmount_congr (h : s.Agrees t) (e : NumExpr) : e.evalAmount s = e.evalAmount t := by
  rw [evalAmount, evalAmount, eval_congr h]

theorem evalWhole_congr (h : s.Agrees t) (fault : Float → DateFault) (e : NumExpr) :
    e.evalWhole s fault = e.evalWhole t fault := by
  rw [evalWhole, evalWhole, eval_congr h]

end NumExpr

theorem MonthExpr.eval_congr (h : s.Agrees t) (e : MonthExpr) : e.eval s = e.eval t := by
  cases e with
  | number e => rw [eval, eval, e.evalWhole_congr h]
  | name text => rfl

theorem BaseDate.eval_congr (h : s.Agrees t) (e : BaseDate) : e.eval s = e.eval t := by
  cases e with
  | indeterminate | maximum | minimum => rfl
  | var name => exact Scope.date_congr h name
  | construct day month year =>
    rw [eval, eval, day.evalWhole_congr h, year.evalWhole_congr h, month.eval_congr h]

theorem OffsetExpr.evalPart_congr (h : s.Agrees t) (unit : OffsetUnit) (part : Option NumExpr) :
    evalPart s unit part = evalPart t unit part := by
  cases part with
  | none => rfl
  | some e => exact e.evalWhole_congr h _

theorem OffsetExpr.eval_congr (h : s.Agrees t) (e : OffsetExpr) : e.eval s = e.eval t := by
  simp only [eval, evalPart_congr h]

theorem DateExpr.eval_congr (h : s.Agrees t) (e : DateExpr) : e.eval s = e.eval t := by
  simp only [eval, e.base.eval_congr h, OffsetExpr.eval_congr h]

/-- An expression evaluates by what a scope finds, not by the frames it is found in. -/
theorem ValueExpr.eval_congr (h : s.Agrees t) (e : ValueExpr) : e.eval s = e.eval t := by
  cases e with
  | date e => rw [eval, eval, e.eval_congr h]
  | number e => rw [eval, eval, e.eval_congr h]

end
end NetWorth
