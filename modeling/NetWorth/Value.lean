import NetWorth.Calendar.DateText
import NetWorth.Json.Record

/-! The values of variables: dates and numbers, with no conversion between them. -/
namespace NetWorth

inductive ValueType
  | date
  | number
  deriving DecidableEq

def ValueType.name : ValueType → String
  | date => "date"
  | number => "number"

inductive Value
  | date (value : Date)
  | number (value : Float)
  deriving DecidableEq

namespace Value

def type : Value → ValueType
  | date _ => .date
  | number _ => .number

def date? : Value → Option Date
  | date d => some d
  | number _ => none

def number? : Value → Option Float
  | date _ => none
  | number x => some x

def text : Value → String
  | date d => d.text
  | number x => Decimal.message x

def toJson (v : Value) : Json :=
  .obj [("type", .str v.type.name),
    ("value", match v with
      | date d => .str d.text
      | number x => .ofFloat x)]

def ofJson? (j : Json) : Option Value := do
  let r ← j.record? ["type", "value"]
  let type ← r.selector? "type" ["date", "number"]
  if type = "date" then (r.required "value" fun j => j.string?.bind Date.ofText?).map date
  else (r.required "value" Json.float?).map number

end Value

def bindingToJson (b : String × Value) : Json :=
  .obj [("name", .str b.1), ("value", b.2.toJson)]

def bindingOfJson? (j : Json) : Option (String × Value) := do
  let r ← j.record? ["name", "value"]
  let name ← r.required "name" Json.string?
  let value ← r.required "value" Value.ofJson?
  some (name, value)

end NetWorth
