import NetWorth.Calendar.MonthName
import NetWorth.Calendar.Offset
import NetWorth.Expr
import NetWorth.Scope

/-! The values of expressions in a scope. Operands are evaluated from left to right, and where a
whole number is needed the fractional part is dropped. -/
namespace NetWorth

/-- The result of an operation on two numbers; no number can be divided by zero. -/
def BinaryOp.apply : BinaryOp → Float → Float → Except EvalError Float
  | add, x, y => .ok (x + y)
  | sub, x, y => .ok (x - y)
  | mul, x, y => .ok (x * y)
  | div, x, y => if y == 0 then .error .divisionByZero else .ok (x / y)

namespace NumExpr

def eval (s : Scope) : NumExpr → Except EvalError Float
  | literal x => .ok x
  | var name => s.number name
  | negate e => do
    let x ← eval s e
    .ok (-x)
  | binary op lhs rhs => do
    let x ← eval s lhs
    let y ← eval s rhs
    op.apply x y

def evalAmount (s : Scope) (e : NumExpr) : Except EvalError Int64 := do
  let x ← e.eval s
  match wholePart? x with
  | some n => .ok n
  | none => .error (.invalidNumber (.notAnAmount x))

/-- The whole number that an expression stands for, or a fault of the date that needs it. -/
def evalWhole (s : Scope) (fault : Float → DateFault) (e : NumExpr) : Except EvalError Int64 := do
  let x ← e.eval s
  match wholePart? x with
  | some n => .ok n
  | none => .error (.invalidDate (fault x))

end NumExpr

def MonthExpr.eval (s : Scope) : MonthExpr → Except EvalError Int
  | number e => do
    let n ← e.evalWhole s (.partNotWhole .month)
    .ok n.toInt
  | name text => ((monthOfName text).map Int.ofNat).mapError .invalidDate

namespace Date

def construct (year : Int) (month day : Nat) : Except DateFault Date :=
  if 1 ≤ month ∧ month ≤ 12 then
    match ofParts? year month day with
    | some d => .ok d
    | none => .error (.noSuchDate year month day)
  else .error (.noSuchMonth month)

/-- The date of any three whole numbers. The year has to fit a signed word of 32 bits, the month and
the day an unsigned one. -/
def ofWhole (year month day : Int) : Except DateFault Date :=
  if ¬ FitsHalfWord year then .error (.yearOutOfRange year)
  else if ¬ FitsUnsignedHalfWord month then .error (.noSuchMonth month)
  else if ¬ FitsUnsignedHalfWord day then .error (.dayOutOfRange day)
  else construct year month.toNat day.toNat

end Date

def BaseDate.eval (s : Scope) : BaseDate → Except EvalError Date
  | indeterminate | maximum => .ok Date.last
  | minimum => .ok Date.first
  | var name => s.date name
  | construct day month year => do
    let day ← day.evalWhole s (.partNotWhole .day)
    let year ← year.evalWhole s (.partNotWhole .year)
    let month ← month.eval s
    (Date.ofWhole year.toInt month day.toInt).mapError .invalidDate

namespace OffsetExpr

def evalPart (s : Scope) (unit : OffsetUnit) : Option NumExpr → Except EvalError Int64
  | none => .ok 0
  | some e => e.evalWhole s (.countNotWhole unit)

def eval (s : Scope) (e : OffsetExpr) : Except EvalError Offset := do
  let years ← evalPart s .year e.years
  let months ← evalPart s .month e.months
  let weeks ← evalPart s .week e.weeks
  let days ← evalPart s .day e.days
  .ok ⟨e.negative, years, months, weeks, days⟩

end OffsetExpr

def DateExpr.eval (s : Scope) (e : DateExpr) : Except EvalError Date := do
  let base ← e.base.eval s
  match e.offset with
  | none => .ok base
  | some offset => do
    let offset ← offset.eval s
    (offset.apply base).mapError .invalidDate

def ValueExpr.eval (s : Scope) : ValueExpr → Except EvalError Value
  | date e => (e.eval s).map .date
  | number e => (e.eval s).map .number

/-- The value of a declaration, and the scope with the variable in its innermost frame. A failure
comes with the scope as well. -/
def VariableDecl.declare (s : Scope) (d : VariableDecl) : Scope × Except EvalError Value :=
  match d.value.eval s with
  | .ok value =>
    let (s, declared) := s.declare d.name value
    (s, declared.map fun _ => value)
  | .error e => (s, .error e)

/-- The scope with the variables of a list of declarations, each of which can use those before it.
After a failure it has the variables up to there. -/
def declareAll (s : Scope) : List VariableDecl → Scope × Except EvalError Unit
  | [] => (s, .ok ())
  | d :: ds =>
    match d.declare s with
    | (s, .ok _) => declareAll s ds
    | (s, .error e) => (s, .error e)

end NetWorth
