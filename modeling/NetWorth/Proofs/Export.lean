import NetWorth.Proofs.Calendar.DateText
import NetWorth.Proofs.Json.Record
import NetWorth.Proofs.NameMap
import NetWorth.Settings.Document
import NetWorth.Trajectory.Document

/-! Whatever is exported is read back as it was: charts, summaries and settings. -/
namespace NetWorth

namespace Json
variable {room : Nat}

@[simp] theorem legible_str (s : String) : Legible room (str s) := .str s

@[simp] theorem legible_bool (b : Bool) : Legible room (bool b) := .bool b

@[simp] theorem legible_ofSigned (n : Int64) : Legible room (ofSigned n) :=
  .int (.inl (fitsWord_toInt n))

@[simp] theorem legible_ofUnsigned (n : UInt64) : Legible room (ofUnsigned n) :=
  .int (.inr ⟨Int.natCast_nonneg _, Int.ofNat_lt.mpr n.toNat_lt_size⟩)

theorem legible_obj_iff {members : List (String × Json)} :
    Legible (room + 1) (obj members) ↔ ∀ m ∈ members, Legible room m.2 :=
  ⟨fun h => by cases h; assumption, .obj⟩

theorem legible_ofList {α : Type} {encode : α → Json} (h : ∀ x, Legible room (encode x))
    (xs : List α) : Legible (room + 1) (ofList encode xs) := by
  refine .arr fun j hj => ?_
  obtain ⟨x, _, rfl⟩ := List.mem_map.mp hj
  exact h x

theorem legible_ofOption {α : Type} {encode : α → Json} (h : ∀ x, Legible room (encode x))
    (x : Option α) : Legible room (ofOption encode x) := by
  cases x with
  | none => exact .null
  | some a => exact h a

end Json

open Json

@[simp] theorem Date.ofJson?_toJson (d : Date) : ofJson? d.toJson = some d :=
  ofText?_text d

@[simp] theorem Date.legible_toJson (d : Date) {room : Nat} : Legible room d.toJson := .str _

@[simp] theorem Interval.ofJson?_toJson (i : Interval) : ofJson? i.toJson = some i := by
  cases i <;> decide

@[simp] theorem Interval.legible_toJson (i : Interval) {room : Nat} : Legible room i.toJson :=
  .str _

namespace PossessionSummary

@[simp] theorem ofJson?_toJson (p : PossessionSummary) : ofJson? p.toJson = some p := by
  simp [ofJson?, toJson, record?_obj]

theorem legible_toJson (p : PossessionSummary) {room : Nat} : Legible (room + 1) p.toJson := by
  simp [toJson, legible_obj_iff]

end PossessionSummary

namespace EstateSummary

theorem ofJson?_toJson (e : EstateSummary) : ofJson? e.toJson = some e := by
  have hpossessions : (ofList PossessionSummary.toJson e.possessions).list?
      PossessionSummary.ofJson? = some e.possessions :=
    list?_ofList PossessionSummary.ofJson?_toJson e.possessions
  simp [ofJson?, toJson, record?_obj, ownerOfJson?, hpossessions]

theorem legible_toJson (e : EstateSummary) {room : Nat} : Legible (room + 3) e.toJson := by
  have hpossessions : Legible (room + 2) (ofList PossessionSummary.toJson e.possessions) :=
    legible_ofList (fun p => p.legible_toJson) _
  simp [toJson, legible_obj_iff, hpossessions]

end EstateSummary

namespace TrajectoryPoint

theorem byNameOfJson?_entries (m : NameMap Amount) :
    byNameOfJson? (.obj (m.entries.map fun e => (e.1, .ofSigned e.2))) = some m := by
  have hentries : (m.entries.map fun e => (e.1, ofSigned e.2)).mapM
      (fun e => e.2.signedWord?.map (e.1, ·)) = some m.entries :=
    mapM_map_eq_some fun e _ => by rw [signedWord?_ofSigned, Option.map_some]
  rw [byNameOfJson?, hentries, Option.map_some, NameMap.ofList_entries]

@[simp] theorem ofJson?_toJson (p : TrajectoryPoint) : ofJson? p.toJson = some p := by
  simp [ofJson?, toJson, record?_obj, byNameOfJson?_entries]

theorem legible_toJson (p : TrajectoryPoint) {room : Nat} : Legible (room + 2) p.toJson := by
  have hbyName : ∀ e ∈ p.byName.entries.map fun e => (e.1, ofSigned e.2), Legible room e.2 := by
    intro e he
    obtain ⟨e, _, rfl⟩ := List.mem_map.mp he
    exact legible_ofSigned e.2
  simpa [toJson, legible_obj_iff] using hbyName

end TrajectoryPoint

namespace Trajectory

theorem ofJson?_toJson (t : Trajectory) : ofJson? t.toJson = some t := by
  have hpoints : (ofList TrajectoryPoint.toJson t.points).list? TrajectoryPoint.ofJson? =
      some t.points := list?_ofList TrajectoryPoint.ofJson?_toJson t.points
  simp [ofJson?, toJson, record?_obj, hpoints]

theorem legible_toJson (t : Trajectory) {room : Nat} : Legible (room + 4) t.toJson := by
  have hpoints : Legible (room + 3) (ofList TrajectoryPoint.toJson t.points) :=
    legible_ofList (fun p => p.legible_toJson) _
  simp [toJson, legible_obj_iff, hpoints]

end Trajectory

@[simp] theorem CaseStatus.ofJson?_toJson (s : CaseStatus) : ofJson? s.toJson = some s := by
  cases s <;> decide

@[simp] theorem CaseStatus.legible_toJson (s : CaseStatus) {room : Nat} : Legible room s.toJson :=
  .str _

namespace TwinTrajectory

theorem ofJson?_toJson (t : TwinTrajectory) : ofJson? t.toJson = some t := by
  have hside := nullable?_ofOption Trajectory.ofJson?_toJson rfl
  simp [ofJson?, toJson, record?_obj, hside]

theorem legible_toJson (t : TwinTrajectory) {room : Nat} : Legible (room + 5) t.toJson := by
  have hside (side : Option Trajectory) : Legible (room + 4) (ofOption Trajectory.toJson side) :=
    legible_ofOption (fun t => t.legible_toJson) side
  simp [toJson, legible_obj_iff, hside]

theorem listOfText?_textOfList (ts : List TwinTrajectory) :
    listOfText? (textOfList ts) = some ts := by
  have hlegible : Legible maxNesting (ofList toJson ts) :=
    legible_ofList (fun t => t.legible_toJson) ts
  rw [listOfText?, textOfList, hlegible.ofText?_text, Option.bind_some]
  exact list?_ofList ofJson?_toJson ts

end TwinTrajectory

namespace Settings

theorem ofJson?_toJson (s : Settings) : ofJson? s.toJson = some s := by
  simp [ofJson?, toJson, record?_obj]

theorem legible_toJson (s : Settings) {room : Nat} : Legible (room + 1) s.toJson := by
  simp [toJson, legible_obj_iff]

end Settings

/-- Names of any characters, all amounts and dates, and absent sides survive their export. -/
theorem exports_read_back :
    (∀ (r : Reconciliation) (s : Settings),
      TwinTrajectory.listOfText? (r.chartText s) = some (r.trajectories s)) ∧
    (∀ e : EstateSummary, (Json.ofText? e.text).bind EstateSummary.ofJson? = some e) ∧
    ∀ s : Settings, (Json.ofText? s.text).bind Settings.ofJson? = some s := by
  refine ⟨fun r s => TwinTrajectory.listOfText?_textOfList (r.trajectories s), fun e => ?_,
    fun s => ?_⟩
  · have hlegible : Legible maxNesting e.toJson := e.legible_toJson
    rw [EstateSummary.text, hlegible.ofText?_text, Option.bind_some, e.ofJson?_toJson]
  · have hlegible : Legible maxNesting s.toJson := s.legible_toJson
    rw [Settings.text, hlegible.ofText?_text, Option.bind_some, s.ofJson?_toJson]

end NetWorth
