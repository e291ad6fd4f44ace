import NetWorth.Calendar.Document
import NetWorth.Json.Printer
import NetWorth.Json.Reader
import NetWorth.Settings

/-! Settings in documents and files. -/
namespace NetWorth.Settings

def toJson (s : Settings) : Json :=
  .obj [("sample_interval", s.interval.toJson), ("max_samples", .ofUnsigned s.budget),
    ("planned_label", .str s.plannedLabel), ("done_label", .str s.doneLabel),
    ("require_done_for_objectives", .bool s.requireDone)]

/-- The settings that a node writes; every field of them may be left out. -/
def ofJson? (j : Json) : Option Settings := do
  let r ← j.record?
    ["sample_interval", "max_samples", "planned_label", "done_label", "require_done_for_objectives"]
  let usual : Settings := {}
  let interval ← r.defaulted "sample_interval" usual.interval Interval.ofJson?
  let budget ← r.defaulted "max_samples" usual.budget Json.unsignedWord?
  let plannedLabel ← r.defaulted "planned_label" usual.plannedLabel Json.string?
  let doneLabel ← r.defaulted "done_label" usual.doneLabel Json.string?
  let requireDone ← r.defaulted "require_done_for_objectives" usual.requireDone Json.bool?
  some ⟨interval, budget, plannedLabel, doneLabel, requireDone⟩

def text (s : Settings) : String := s.toJson.text

def ofText (text : String) : Except ScenarioError Settings :=
  match (Json.ofText? text).bind ofJson? with
  | none => .error .unreadable
  | some s => (s.validate.mapError .validation).map fun () => s

def ofFile (content : Option ByteArray) : Except ScenarioError Settings :=
  match content with
  | none => .error (.file .notFound)
  | some bytes =>
    match String.fromUTF8? bytes with
    | none => .error (.file .notText)
    | some text => ofText text

end NetWorth.Settings
