import NetWorth.Expr.Eval
import NetWorth.Proofs.Attempt
import NetWorth.Proofs.Declaration.Scoping

/-! Expressions are evaluated in scopes whose variables have the types that their names resolve to.
The variables of an expression cause no failure exactly when it uses them as what they are. -/
namespace NetWorth

/-- An error that is about a variable, not about what it holds. -/
def EvalError.AboutVariable : EvalError → Prop
  | undefinedVariable _ | duplicateVariable _ | typeMismatch .. => True
  | invalidDate _ | invalidNumber _ | divisionByZero => False

/-- Every variable of a scope has the type that its name resolves to. -/
def Scope.HasTypes (s : Scope) (frames : List (List VariableDecl)) : Prop :=
  ∀ name, (s.lookup name).map Value.type = resolve frames name

/-- A computation succeeds only if its uses of variables are right, and then no variable is the
reason of its failure. -/
def Reads {α : Type} (frames : List (List VariableDecl)) (us : List (String × ValueType))
    (x : Except EvalError α) : Prop :=
  Attempt.Tests EvalError.AboutVariable (Resolves frames us) x

open Attempt

section
variable {s : Scope} {frames : List (List VariableDecl)}

theorem invalidDate_avoids {α : Type} (x : Except DateFault α) :
    Avoids EvalError.AboutVariable (x.mapError .invalidDate) :=
  .of_mapError (fun _ => id) x

/-- A variable is read as a number exactly where its name resolves to one. -/
theorem Scope.number_reads (hs : s.HasTypes frames) (name : String) :
    Reads frames [(name, .number)] (s.number name) := by
  rw [Reads, resolves_singleton, ← hs, number]
  cases s.lookup name with
  | none => exact (Tests.error _).of_iff (by simp)
  | some v =>
    cases v with
    | number x => exact (Tests.ok x).of_iff (by simp [Value.type])
    | date d => exact (Tests.error _).of_iff (by simp [Value.type])

/-- A variable is read as a date exactly where its name resolves to one. -/
theorem Scope.date_reads (hs : s.HasTypes frames) (name : String) :
    Reads frames [(name, .date)] (s.date name) := by
  rw [Reads, resolves_singleton, ← hs, date]
  cases s.lookup name with
  | none => exact (Tests.error _).of_iff (by simp)
  | some v =>
    cases v with
    | number x => exact (Tests.error _).of_iff (by simp [Value.type])
    | date d => exact (Tests.ok d).of_iff (by simp [Value.type])

namespace NumExpr

theorem apply_avoids (op : BinaryOp) (x y : Float) :
    Avoids EvalError.AboutVariable (op.apply x y) := by
  cases op with
  | add | sub | mul => exact .ok _
  | div =>
    simp only [BinaryOp.apply]
    split
    · exact .error id
    · exact .ok _

/-- Numbers by induction over the expression: each operation uses what its sides do. -/
theorem eval_reads (hs : s.HasTypes frames) (e : NumExpr) : Reads frames e.uses (e.eval s) := by
  induction e with
  | literal x => exact (Tests.ok x).of_iff (by simp [uses])
  | var name => exact Scope.number_reads hs name
  | negate e ih => exact ih.bind_avoids fun x _ => .ok _
  | binary op lhs rhs ihl ihr =>
    rw [Reads, uses, resolves_append]
    exact ihl.bind fun x _ => ihr.bind_avoids fun y _ => apply_avoids op x y

theorem evalAmount_reads (hs : s.HasTypes frames) (e : NumExpr) :
    Reads frames e.uses (e.evalAmount s) := by
  refine (eval_reads hs e).bind_avoids fun x _ => ?_
  cases wholePart? x with
  | none => exact .error id
  | some n => exact .ok n

theorem evalWhole_reads (hs : s.HasTypes frames) (fault : Float → DateFault) (e : NumExpr) :
    Reads frames e.uses (e.evalWhole s fault) := by
  refine (eval_reads hs e).bind_avoids fun x _ => ?_
  cases wholePart? x with
  | none => exact .error id
  | some n => exact .ok n

end NumExpr

theorem MonthExpr.eval_reads (hs : s.HasTypes frames) (e : MonthExpr) :
    Reads frames e.uses (e.eval s) := by
  cases e with
  | number e => exact (e.evalWhole_reads hs _).bind_avoids fun n _ => .ok _
  | name text => exact (Tests.of_avoids (invalidDate_avoids _)).of_iff (by simp [uses])

theorem BaseDate.eval_reads (hs : s.HasTypes frames) (e : BaseDate) :
    Reads frames e.uses (e.eval s) := by
  cases e with
  | indeterminate | maximum | minimum => exact (Tests.ok _).of_iff (by simp [uses])
  | var name => exact Scope.date_reads hs name
  | construct day month year =>
    rw [Reads, uses, resolves_append, resolves_append, and_assoc]
    exact (day.evalWhole_reads hs _).bind fun day _ => (year.evalWhole_reads hs _).bind fun year _ =>
      (month.eval_reads hs).bind_avoids fun month _ => invalidDate_avoids _

theorem OffsetExpr.evalPart_reads (hs : s.HasTypes frames) (unit : OffsetUnit)
    (part : Option NumExpr) :
    Reads frames (part.elim [] NumExpr.uses) (evalPart s unit part) := by
  cases part with
  | none => exact (Tests.ok 0).of_iff (by simp)
  | some e => exact e.evalWhole_reads hs _

theorem OffsetExpr.eval_reads (hs : s.HasTypes frames) (e : OffsetExpr) :
    Reads frames e.uses (e.eval s) := by
  refine Tests.of_iff ((evalPart_reads hs .year e.years).bind fun years _ =>
    (evalPart_reads hs .month e.months).bind fun months _ =>
    (evalPart_reads hs .week e.weeks).bind fun weeks _ =>
    (evalPart_reads hs .day e.days).bind_avoids fun days _ => .ok _) ?_
  simp [uses]

theorem DateExpr.eval_reads (hs : s.HasTypes frames) (e : DateExpr) :
    Reads frames e.uses (e.eval s) := by
  rw [Reads, uses, eval, resolves_append]
  refine (e.base.eval_reads hs).bind fun base _ => ?_
  cases e.offset with
  | none => exact (Tests.ok base).of_iff (by simp)
  | some offset => exact (offset.eval_reads hs).bind_avoids fun _ _ => invalidDate_avoids _

/-- The value of a variable uses what its expression does. -/
theorem ValueExpr.eval_reads (hs : s.HasTypes frames) (e : ValueExpr) :
    Reads frames e.uses (e.eval s) := by
  cases e with
  | date e => exact (e.eval_reads hs).map
  | number e => exact (e.eval_reads hs).map

/-- What an expression evaluates to has the type that can be seen from outside. -/
theorem ValueExpr.type_of_eval {e : ValueExpr} {value : Value} (h : e.eval s = .ok value) :
    value.type = e.type := by
  cases e <;>
  · obtain ⟨_, _, rfl⟩ := map_eq_ok_iff.mp h
    rfl

end
end NetWorth
