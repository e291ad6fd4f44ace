import NetWorth.Expr
import NetWorth.Json.Record

/-! Expressions in documents. Each kind of node has its own shape, written by `toJson` and read back
by `ofJson?`. -/
namespace NetWorth

def BinaryOp.name : BinaryOp → String
  | add => "add"
  | sub => "sub"
  | mul => "mul"
  | div => "div"

def BinaryOp.ofName? (name : String) : Option BinaryOp :=
  [add, sub, mul, div].find? fun op => op.name = name

namespace NumExpr

def toJson : NumExpr → Json
  | literal x => .ofKind "literal" [("value", .ofFloat x)]
  | var name => .ofKind "variable" [("name", .str name)]
  | negate e => .ofKind "negate" [("operand", e.toJson)]
  | binary op lhs rhs =>
    .ofKind "binary" [("op", .str op.name), ("lhs", lhs.toJson), ("rhs", rhs.toJson)]

/-- The kinds of expressions for numbers, in the order of their places. -/
def kinds : List String := ["literal", "variable", "negate", "binary"]

/-- The expression that a node writes, looked at no deeper than `fuel` nodes. -/
def read : Nat → Bool → Json → Option NumExpr
  | 0, _, _ => none
  | fuel + 1, inKind, j => do
    let (kind, rest) ← j.kind? inKind kinds
    match kind with
    | "literal" =>
      let r ← rest.record? ["value"]
      (r.required "value" Json.float?).map literal
    | "variable" =>
      let r ← rest.record? ["name"]
      (r.required "name" Json.string?).map var
    | "negate" =>
      let r ← rest.record? ["operand"]
      (r.required "operand" (read fuel true)).map negate
    | "binary" =>
      let r ← rest.record? ["op", "lhs", "rhs"]
      let op ← r.required "op" fun j => (j.choice? true ["add", "sub", "mul", "div"]).bind BinaryOp.ofName?
      let lhs ← r.required "lhs" (read fuel true)
      let rhs ← r.required "rhs" (read fuel true)
      some (binary op lhs rhs)
    | _ => none

def ofJson? (inKind : Bool) (j : Json) : Option NumExpr :=
  read j.depth inKind j

end NumExpr

namespace MonthExpr

def toJson : MonthExpr → Json
  | number e => .obj [("number", e.toJson)]
  | name text => .obj [("name", .str text)]

def ofJson? (j : Json) : Option MonthExpr := do
  let (which, j) ← j.variant? ["number", "name"]
  if which = "number" then (NumExpr.ofJson? true j).map number else j.string?.map name

end MonthExpr

namespace BaseDate

def toJson : BaseDate → Json
  | indeterminate => .ofKind "indeterminate" []
  | maximum => .ofKind "maximum" []
  | minimum => .ofKind "minimum" []
  | var name => .ofKind "variable" [("name", .str name)]
  | construct day month year =>
    .ofKind "construct" [("day", day.toJson), ("month", month.toJson), ("year", year.toJson)]

def kinds : List String := ["indeterminate", "maximum", "minimum", "variable", "construct"]

/-- A node without fields: an object, whatever its members, or the empty list. -/
def fieldless (base : BaseDate) : Json → Option BaseDate
  | .obj _ | .arr [] => some base
  | _ => none

def ofJson? (inKind : Bool) (j : Json) : Option BaseDate := do
  let (kind, rest) ← j.kind? inKind kinds
  match kind with
  | "indeterminate" => fieldless indeterminate rest
  | "maximum" => fieldless maximum rest
  | "minimum" => fieldless minimum rest
  | "variable" =>
    let r ← rest.record? ["name"]
    (r.required "name" Json.string?).map var
  | "construct" =>
    let r ← rest.record? ["day", "month", "year"]
    let day ← r.required "day" (NumExpr.ofJson? true)
    let month ← r.required "month" MonthExpr.ofJson?
    let year ← r.required "year" (NumExpr.ofJson? true)
    some (construct day month year)
  | _ => none

end BaseDate

namespace OffsetExpr

def toJson (e : OffsetExpr) : Json :=
  .obj [("negative", .bool e.negative), ("years", .ofOption NumExpr.toJson e.years),
    ("months", .ofOption NumExpr.toJson e.months), ("weeks", .ofOption NumExpr.toJson e.weeks),
    ("days", .ofOption NumExpr.toJson e.days)]

def ofJson? (inKind : Bool) (j : Json) : Option OffsetExpr := do
  let r ← j.record? ["negative", "years", "months", "weeks", "days"]
  let part (name : String) := r.defaulted name none (Json.nullable? (NumExpr.ofJson? inKind))
  let negative ← r.defaulted "negative" false Json.bool?
  let years ← part "years"
  let months ← part "months"
  let weeks ← part "weeks"
  let days ← part "days"
  some ⟨negative, years, months, weeks, days⟩

end OffsetExpr

namespace DateExpr

def toJson (e : DateExpr) : Json :=
  .obj [("atom", e.base.toJson), ("delta", .ofOption OffsetExpr.toJson e.offset)]

def ofJson? (inKind : Bool) (j : Json) : Option DateExpr := do
  let r ← j.record? ["atom", "delta"]
  let base ← r.required "atom" (BaseDate.ofJson? inKind)
  let offset ← r.defaulted "delta" none (Json.nullable? (OffsetExpr.ofJson? inKind))
  some ⟨base, offset⟩

end DateExpr

namespace VariableDecl

def toJson (d : VariableDecl) : Json :=
  .obj [("name", .str d.name),
    ("value", match d.value with
      | .date e => .obj [("date", e.toJson)]
      | .number e => .obj [("number", e.toJson)])]

def valueOfJson? (j : Json) : Option ValueExpr := do
  let (which, j) ← j.variant? ["date", "number"]
  if which = "date" then (DateExpr.ofJson? false j).map .date
  else (NumExpr.ofJson? false j).map .number

def ofJson? (j : Json) : Option VariableDecl := do
  let r ← j.record? ["name", "value"]
  let name ← r.required "name" Json.string?
  let value ← r.required "value" valueOfJson?
  some ⟨name, value⟩

end VariableDecl

end NetWorth
