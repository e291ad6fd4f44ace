import NetWorth.Calendar.Timeline
import NetWorth.Error

/-! The settings of a comparison: how finely charts are sampled, how the two versions of a
possession are labeled, and whether every objective needs something done. -/
namespace NetWorth

structure Settings where
  interval : Interval := .monthly
  budget : UInt64 := 1200
  plannedLabel : String := "Prévu"
  doneLabel : String := "Réalisé"
  /-- A planned case with objectives has to have a done case beside it. -/
  requireDone : Bool := false
  deriving DecidableEq

/-- Settings have room for at least one sample, and two labels that are not blank and differ. -/
def Settings.validate (s : Settings) : Except ValidationError Unit :=
  if s.budget = 0 then .error (.invalidSettings .noSamples)
  else if trimmed s.plannedLabel = "" ∨ trimmed s.doneLabel = "" then
    .error (.invalidSettings .blankLabel)
  else if s.plannedLabel = s.doneLabel then .error (.invalidSettings .equalLabels)
  else .ok ()

/-- Settings are valid exactly with a budget and two different labels that are not blank. -/
theorem Settings.validate_eq_ok_iff {s : Settings} :
    s.validate = .ok () ↔
      s.budget ≠ 0 ∧ trimmed s.plannedLabel ≠ "" ∧ trimmed s.doneLabel ≠ "" ∧
        s.plannedLabel ≠ s.doneLabel := by
  unfold validate
  split
  · rename_i hb
    simp [hb]
  · rename_i hb
    split
    · rename_i hl
      constructor
      · intro h
        cases h
      · rintro ⟨-, hp, hd, -⟩
        exact absurd hl (not_or.2 ⟨hp, hd⟩)
    · rename_i hl
      obtain ⟨hp, hd⟩ := not_or.1 hl
      split
      · rename_i he
        simp [he]
      · rename_i he
        simp [hb, hp, hd, he]

end NetWorth
