import NetWorth.Proofs.Declaration.Dating
import NetWorth.Proofs.Law

/-! Assets within the year since which they are held. No year turns, but the value goes through a
float all the same, so it stays as it is only if 53 bits and the zeros behind them hold it:
`asset_withinYear`. What has come from a float once is settled, and so is all that a scenario
declares. -/
namespace NetWorth

namespace Amount

/-- An amount that its float does not change: a compact one, or the greatest, whose float is past
all amounts and is cut off to it. -/
def Faithful (a : Amount) : Prop := Compact a.toInt.natAbs ∨ a = Int64.maxValue

instance (a : Amount) : Decidable a.Faithful := inferInstanceAs (Decidable (_ ∨ _))

theorem exists_nearestCompact_viaFloat (a : Amount) :
    ∃ w, NearestCompact a.toInt w ∧ a.viaFloat = nearest w :=
  exists_nearestCompact_clampedWholePart a

/-- A float changes exactly the amounts that are not faithful. -/
theorem viaFloat_eq_self_iff (a : Amount) : a.viaFloat = a ↔ a.Faithful := by
  obtain ⟨w, hnearest, hvalue⟩ := a.exists_nearestCompact_viaFloat
  have hlo := a.least_le
  have hhi := a.le_greatest
  have hleast : least = -0x8000000000000000 := rfl
  have hgreatest : greatest = 0x7FFFFFFFFFFFFFFF := rfl
  have hbound : w.natAbs ≤ 2 ^ 63 := hnearest.natAbs_le_two_pow (by omega)
  constructor
  · intro hsame
    rw [hvalue, ← Int64.toInt_inj, toInt_nearest] at hsame
    by_cases hfits : w ≤ greatest
    · exact .inl (hnearest.eq_iff.mp (by omega))
    · have hmax : a.toInt = Int64.maxValue.toInt := by
        change a.toInt = greatest
        omega
      exact .inr (Int64.toInt_inj.mp hmax)
  · rintro (hcompact | rfl)
    · rw [hvalue, hnearest.eq_iff.mpr hcompact, ← Int64.toInt_inj, toInt_nearest]
      omega
    · decide +kernel

end Amount

namespace Possession
variable {p : Possession} {r : Rate} {date later : Date}

/-- The only reason to refuse an asset is a rate that is not finite. -/
theorem asset_succeeds_iff {name : String} {since : Date} {value : Amount} {rate : Float} :
    (∃ p, asset name since value rate = .ok p) ↔ rate.isFinite = true := by
  unfold asset Rate.ofFloat
  split
  · rename_i hfinite
    exact iff_of_true ⟨_, rfl⟩ hfinite
  · rename_i hinfinite
    refine iff_of_false ?_ hinfinite
    rintro ⟨p, ⟨⟩⟩

theorem parts_of_asset {name : String} {since : Date} {value : Amount} {rate : Float}
    (h : asset name since value rate = .ok p) :
    p.since = since ∧ p.value = value ∧ ∃ r, p.law = .asset r := by
  obtain ⟨r, -, rfl⟩ := Attempt.map_eq_ok_iff.mp h
  exact ⟨rfl, rfl, r, rfl⟩

/-- No rate has any effect before the year turns, but the float has. -/
theorem valueOn_withinYear (hlaw : p.law = .asset r) (hheld : p.since ≤ date)
    (hyear : date.year = p.since.year) : p.valueOn date = p.value.viaFloat := by
  have hyears : p.since.yearsUntil date = 0 := by
    unfold Date.yearsUntil
    omega
  rw [valueOn_of_held hheld, hlaw, Law.carry, hyears, r.appreciate_zero]

/-- What the float has done to a value within the year is not done again later. -/
theorem valueOn_moveTo_withinYear (hlaw : p.law = .asset r) (hheld : p.since ≤ date)
    (hyear : date.year = p.since.year) (hlater : date ≤ later) :
    (p.moveTo date).valueOn later = p.valueOn later := by
  apply valueOn_moveTo_of_carry hheld hlater
  rw [hlaw]
  apply Law.carry_carry hheld hlater
  rintro ⟨-, hturn, -⟩
  omega

/-- Within the year since which it is held, an asset of any rate is worth the compact number nearest
to its value. So it keeps its value, and changes in nothing but its date when it is moved there,
exactly if its value is faithful. What it is worth later does not depend on the move. -/
theorem asset_withinYear (name : String) (since : Date) (value : Amount) (rate : Float) :
    ((∃ p, asset name since value rate = .ok p) ↔ rate.isFinite = true) ∧
    ∀ p, asset name since value rate = .ok p → ∀ date, since ≤ date → date.year = since.year →
      (∃! w, NearestCompact value.toInt w ∧ p.valueOn date = Amount.nearest w) ∧
      (p.valueOn date = p.value ↔ value.Faithful) ∧
      (p.moveTo date = p.update date p.value ↔ value.Faithful) ∧
      ∀ later, date ≤ later → (p.moveTo date).valueOn later = p.valueOn later := by
  refine ⟨asset_succeeds_iff, fun p h date hheld hyear => ?_⟩
  obtain ⟨rfl, rfl, r, hlaw⟩ := parts_of_asset h
  obtain ⟨w, hnearest, hround⟩ := p.value.exists_nearestCompact_viaFloat
  have hvalue := valueOn_withinYear hlaw hheld hyear
  have hkept : p.valueOn date = p.value ↔ p.value.Faithful := by
    rw [hvalue]
    exact p.value.viaFloat_eq_self_iff
  refine ⟨⟨w, ⟨hnearest, hvalue.trans hround⟩, fun v hv => hv.1.unique hnearest⟩, hkept,
    (moveTo_eq_iff hheld).trans hkept, fun later hlater => ?_⟩
  exact valueOn_moveTo_withinYear hlaw hheld hyear hlater

def purchase : Date := (Date.ofParts? 2023 3 14).get (by decide)

def inventory : Date := (Date.ofParts? 2023 11 5).get (by decide)

/-- A manor that is worth 2 ^ 53 and 3 units more gains a unit: it lies halfway between two compact
numbers, and the upper one has the even bits. -/
theorem asset_withinYear_manor : ∃ p, asset "manor" purchase 9007199254740995 (-0.2) = .ok p ∧
    purchase ≤ inventory ∧ inventory.year = purchase.year ∧ ¬ Amount.Faithful 9007199254740995 ∧
    (∃! w, NearestCompact 9007199254740995 w ∧ p.valueOn inventory = Amount.nearest w) ∧
    p.valueOn inventory = 9007199254740996 ∧ p.valueOn inventory ≠ p.value ∧
    p.moveTo inventory ≠ p.update inventory p.value ∧
    (p.moveTo inventory).valueOn .last = p.valueOn .last := by
  obtain ⟨haccepted, hall⟩ := asset_withinYear "manor" purchase 9007199254740995 (-0.2)
  obtain ⟨p, hp⟩ := haccepted.mpr (by decide +kernel)
  have hunfaithful : ¬ Amount.Faithful 9007199254740995 := by decide +kernel
  have hvalue : p.valueOn inventory = 9007199254740996 := by
    cases hp
    decide +kernel
  obtain ⟨hnearest, hkept, hmoved, hlater⟩ := hall p hp inventory (by decide) (by decide)
  exact ⟨p, hp, by decide, by decide, hunfaithful, hnearest, hvalue, mt hkept.mp hunfaithful,
    mt hmoved.mp hunfaithful, hlater .last (by decide)⟩

/-- A villa that is worth 2 ^ 53 and a unit more loses that unit. -/
theorem villa_loses_unit : ∃ p, asset "villa" purchase 9007199254740993 0.1 = .ok p ∧
    purchase ≤ inventory ∧ inventory.year = purchase.year ∧
    p.value = 9007199254740993 ∧ p.valueOn inventory = 9007199254740992 ∧
    p.moveTo inventory ≠ p.update inventory p.value := by
  obtain ⟨p, hp⟩ : ∃ p, asset "villa" purchase 9007199254740993 0.1 = .ok p :=
    asset_succeeds_iff.mpr (by decide +kernel)
  refine ⟨p, hp, by decide, by decide, ?_⟩
  cases hp
  decide +kernel

/-! Settled assets. -/

def Settled (p : Possession) : Prop := ∀ r, p.law = .asset r → p.value.viaFloat = p.value

/-- What has come from a float stays so. -/
theorem Settled.moveTo (h : p.Settled) (date : Date) : (p.moveTo date).Settled := by
  intro r hlaw
  rw [law_moveTo] at hlaw
  by_cases hheld : p.since ≤ date
  · rw [value_moveTo_of_held hheld, valueOn_of_held hheld, hlaw]
    exact r.viaFloat_appreciate _ _
  · rw [moveTo_of_not_held hheld]
    exact h r hlaw

/-- A value that has come from a float is not changed by another one. -/
theorem Settled.keeps_value (h : p.Settled) (hlaw : p.law = .asset r) (hheld : p.since ≤ date)
    (hyear : date.year = p.since.year) :
    p.valueOn date = p.value ∧ p.moveTo date = p.update date p.value := by
  have hkept : p.valueOn date = p.value := (valueOn_withinYear hlaw hheld hyear).trans (h r hlaw)
  exact ⟨hkept, (moveTo_eq_iff hheld).mpr hkept⟩

end Possession

/-- Amounts of expressions are whole parts of floats, which go through a float unchanged. -/
theorem NumExpr.viaFloat_of_evalAmount {s : Scope} {e : NumExpr} {a : Amount}
    (h : e.evalAmount s = .ok a) : a.viaFloat = a := by
  obtain ⟨x, -, hx⟩ := Attempt.bind_eq_ok_iff.mp h
  split at hx
  · rename_i hword
    cases hx
    unfold Amount.viaFloat
    rw [← clampedWholePart_of_wholePart? hword, clampedWholePart_idem]
  · cases hx

/-- So the assets that declarations build are settled from the start. -/
theorem PossessionDecl.settled_of_build {s : Scope} {d : PossessionDecl} {p : Possession}
    (h : d.build s = .ok p) : p.Settled := by
  intro r hlaw
  obtain ⟨draft, hdraft, hp⟩ := Attempt.bind_eq_ok_iff.mp h
  rw [Attempt.mapError_eq_ok_iff] at hdraft hp
  cases d with
  | asset name since value rate =>
    simp only [PossessionDecl.draft, Attempt.bind_eq_ok_iff] at hdraft
    obtain ⟨_, _, a, ha, _, _, ⟨⟩⟩ := hdraft
    obtain ⟨_, rfl, _⟩ := Possession.parts_of_asset hp
    exact NumExpr.viaFloat_of_evalAmount ha
  | cash name since value =>
    simp only [PossessionDecl.draft, Attempt.bind_eq_ok_iff] at hdraft
    obtain ⟨_, _, _, _, ⟨⟩⟩ := hdraft
    cases hp
    cases hlaw
  | debt name since value =>
    simp only [PossessionDecl.draft, Attempt.bind_eq_ok_iff] at hdraft
    obtain ⟨_, _, _, _, ⟨⟩⟩ := hdraft
    cases hp
    cases hlaw
  | flow name start stop amount day initial =>
    cases initial
    all_goals
      simp only [PossessionDecl.draft, Attempt.bind_eq_ok_iff, Attempt.mapError_eq_ok_iff] at hdraft
      obtain ⟨_, _, _, _, _, _, _, _, _, _, _, _, q, hq, ⟨⟩⟩ := hdraft
      obtain ⟨f, -, rfl⟩ := Attempt.map_eq_ok_iff.mp hq
      cases hp
      cases hlaw

/-- Every asset of a built scenario keeps its value within its year. -/
theorem ScenarioDecl.keeps_value_of_build {d : ScenarioDecl} {set : CaseSet} (h : d.build = .ok set)
    {name : String} {k : Case} (hk : set.get? name = some k) {p : Possession}
    (hp : p ∈ k.estate.possessions) {r : Rate} (hlaw : p.law = .asset r) {date : Date}
    (hheld : p.since ≤ date) (hyear : date.year = p.since.year) :
    p.valueOn date = p.value ∧ p.moveTo date = p.update date p.value := by
  obtain ⟨_, _, hc⟩ := exists_buildIn h hk
  obtain ⟨_, start, ps, hestate, hps⟩ := CaseDecl.parts_of_buildIn hc
  rw [hestate] at hp
  obtain ⟨_, _, hbuilt⟩ := Attempt.exists_of_mem_mapM hps hp
  obtain ⟨q, hq, rfl⟩ := Attempt.map_eq_ok_iff.mp hbuilt
  have hsettled := (PossessionDecl.settled_of_build hq).moveTo start
  exact hsettled.keeps_value hlaw hheld hyear

end NetWorth
