import NetWorth.Calendar.Offset
import NetWorth.Calendar.Timeline
import NetWorth.Json.Record

/-! Dates, offsets and timelines in documents. -/
namespace NetWorth

def Date.toJson (d : Date) : Json := .str d.text

def Date.ofJson? (j : Json) : Option Date := j.string?.bind Date.ofText?

def Json.ofSigned (n : Int64) : Json := .int n.toInt

def Json.ofUnsigned (n : UInt64) : Json := .int n.toNat

namespace Offset

def toJson (o : Offset) : Json :=
  .obj [("negative", .bool o.negative), ("years", .ofSigned o.years), ("months", .ofSigned o.months),
    ("weeks", .ofSigned o.weeks), ("days", .ofSigned o.days)]

/-- The offset that a node writes; every field of it may be left out. -/
def ofJson? (j : Json) : Option Offset := do
  let r ← j.record? ["negative", "years", "months", "weeks", "days"]
  let negative ← r.defaulted "negative" false Json.bool?
  let years ← r.defaulted "years" 0 Json.signedWord?
  let months ← r.defaulted "months" 0 Json.signedWord?
  let weeks ← r.defaulted "weeks" 0 Json.signedWord?
  let days ← r.defaulted "days" 0 Json.signedWord?
  some ⟨negative, years, months, weeks, days⟩

end Offset

namespace Interval

def name : Interval → String
  | daily => "daily"
  | weekly => "weekly"
  | monthly => "monthly"
  | yearly => "yearly"

def toJson (i : Interval) : Json := .str i.name

def ofJson? (j : Json) : Option Interval :=
  (j.choice? false ["daily", "weekly", "monthly", "yearly"]).bind fun name =>
    [daily, weekly, monthly, yearly].find? fun i => i.name = name

end Interval

namespace Timeline

def toJson (t : Timeline) : Json :=
  .obj [("from", t.start.toJson), ("to", t.stop.toJson), ("interval", t.interval.toJson),
    ("max_samples", .ofUnsigned t.budget)]

def ofJson? (j : Json) : Option Timeline := do
  let r ← j.record? ["from", "to", "interval", "max_samples"]
  let start ← r.required "from" Date.ofJson?
  let stop ← r.required "to" Date.ofJson?
  let interval ← r.required "interval" Interval.ofJson?
  let budget ← r.required "max_samples" Json.unsignedWord?
  some ⟨start, stop, interval, budget⟩

end Timeline

end NetWorth
