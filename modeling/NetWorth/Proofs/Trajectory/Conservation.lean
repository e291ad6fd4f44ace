import Mathlib.Algebra.Order.BigOperators.Group.List
import Mathlib.Algebra.Order.Ring.Nat
import NetWorth.Proofs.Amount.Total
import NetWorth.Proofs.Trajectory

/-! A chart splits what a case is worth by the names of its possessions. As long as no amount is cut
off, the parts come to the whole: nothing is lost, and nothing is counted under two names. -/
namespace NetWorth

namespace Possession

/-- What is counted by name is counted once, if each possession has one of the names. -/
theorem sum_by_name {names : List String} (hnames : names.Nodup) {ps : List Possession}
    (hmem : ∀ p ∈ ps, p.name ∈ names) (f : Possession → Int) :
    (names.map fun name => ((ps.filter (·.name = name)).map f).sum).sum = (ps.map f).sum := by
  induction ps with
  | nil => simp
  | cons p ps ih =>
    obtain ⟨hp, hps⟩ := List.forall_mem_cons.mp hmem
    have hcons (name : String) : (((p :: ps).filter (·.name = name)).map f).sum =
        (if name = p.name then f p else 0) + ((ps.filter (·.name = name)).map f).sum := by
      by_cases h : p.name = name
      · rw [List.filter_cons_of_pos (by simpa using h), List.map_cons, List.sum_cons, if_pos h.symm]
      · rw [List.filter_cons_of_neg (by simpa using h), if_neg (Ne.symm h), zero_add]
    have hone : (names.map fun name => if name = p.name then f p else 0).sum = f p := by
      rw [List.sum_map_ite_eq names (fun _ => f p) (fun _ => 0) p.name,
        List.count_eq_one_of_mem hnames hp]
      simp
    simp only [hcons, List.sum_map_add, hone, ih hps, List.map_cons, List.sum_cons]

/-- Of amounts that fit a word together, whatever their signs, any selection is added up exactly. -/
theorem toInt_total_valueOn {ps qs : List Possession} {date : Date}
    (h : (ps.map fun p => (p.valueOn date).toInt.natAbs).sum ≤ Amount.greatest)
    (hsub : qs.Sublist ps) :
    (Amount.total (qs.map (·.valueOn date))).toInt =
      (qs.map fun p => (p.valueOn date).toInt).sum := by
  have hle : (qs.map fun p => (p.valueOn date).toInt.natAbs).sum ≤
      (ps.map fun p => (p.valueOn date).toInt.natAbs).sum :=
    (hsub.map _).sum_le_sum fun _ _ => Nat.zero_le _
  rw [Amount.toInt_total_of_sum_natAbs_le]
  · rw [List.map_map]
    rfl
  · rw [List.map_map]
    exact Int.le_trans (Int.ofNat_le.mpr hle) h

end Possession

namespace TrajectoryPoint.Values
variable {ps : List Possession} {point : TrajectoryPoint} (hvalues : point.Values ps)
  (h : (ps.map fun p => (p.valueOn point.date).toInt.natAbs).sum ≤ Amount.greatest)
include hvalues h

/-- The amount at a name is the exact one of what is held under it. -/
theorem toInt_of_mem_entries {entry : String × Amount} (hentry : entry ∈ point.byName.entries) :
    entry.2.toInt = (((ps.filter (·.heldOn point.date)).filter (·.name = entry.1)).map
      fun p => (p.valueOn point.date).toInt).sum := by
  have hheld : (ps.filter fun p => p.name = entry.1 ∧ p.since ≤ point.date) =
      (ps.filter (·.heldOn point.date)).filter (·.name = entry.1) := by
    rw [List.filter_filter]
    apply List.filter_congr
    intro p _
    exact Bool.decide_and _ _
  have hfind := NameMap.find?_eq_some_iff.mpr hentry
  rw [hvalues.find?_eq entry.1 entry.2 hfind, hheld]
  exact Possession.toInt_total_valueOn h (List.filter_sublist.trans List.filter_sublist)

/-- The amounts by name add up to the aggregate. -/
theorem sum_byName : (point.byName.values.map (·.toInt)).sum = point.aggregate.toInt := by
  have hnames : ∀ p ∈ ps.filter (·.heldOn point.date), p.name ∈ point.byName.names := by
    intro p hp
    obtain ⟨hmem, hheld⟩ := List.mem_filter.mp hp
    exact (hvalues.mem_names_iff p.name).mpr ⟨p, hmem, rfl, of_decide_eq_true hheld⟩
  have hunheld : ∀ p ∈ ps, p.heldOn point.date = false → p.valueOn point.date = 0 :=
    fun p _ hp => Possession.valueOn_of_not_held (of_decide_eq_false hp)
  let value (p : Possession) : Int := (p.valueOn point.date).toInt
  calc
    _ = (point.byName.names.map fun name => (((ps.filter (·.heldOn point.date)).filter
          (·.name = name)).map value).sum).sum := by
      rw [NameMap.values, NameMap.names, List.map_map, List.map_map]
      exact congrArg List.sum (List.map_congr_left fun e he => toInt_of_mem_entries hvalues h he)
    _ = ((ps.filter (·.heldOn point.date)).map value).sum :=
      Possession.sum_by_name point.byName.names_nodup hnames value
    _ = (Amount.total ((ps.filter (·.heldOn point.date)).map (·.valueOn point.date))).toInt :=
      (Possession.toInt_total_valueOn h List.filter_sublist).symm
    _ = point.aggregate.toInt := by
      rw [Amount.total_map_filter hunheld, hvalues.aggregate_eq]

/-- The aggregate is the exact sum of what all possessions are worth. -/
theorem aggregate_exact :
    point.aggregate.toInt = (ps.map fun p => (p.valueOn point.date).toInt).sum := by
  rw [hvalues.aggregate_eq]
  exact Possession.toInt_total_valueOn h (List.Sublist.refl ps)

end TrajectoryPoint.Values

namespace Case

/-- In each point of a chart, the amounts by name add up to the aggregate, and this is the exact sum
of what all the possessions are worth, as long as these amounts fit a word together. -/
theorem sampleBetween_conserves (c : Case) (start stop : Date) (s : Settings)
    {point : TrajectoryPoint} (hpoint : point ∈ (c.sampleBetween start stop s).points)
    (h : (c.estate.possessions.map fun p => (p.valueOn point.date).toInt.natAbs).sum ≤
      Amount.greatest) :
    (point.byName.values.map (·.toInt)).sum = point.aggregate.toInt ∧
      point.aggregate.toInt =
        (c.estate.possessions.map fun p => (p.valueOn point.date).toInt).sum := by
  have hvalues := (c.charts_sampleBetween start stop s).values point hpoint
  exact ⟨hvalues.sum_byName h, hvalues.aggregate_exact h⟩

def harvest : Date := (Date.ofParts? 2022 9 1).get (by decide)

def farm : Case :=
  ⟨"farm", ⟨"farm", "Ada", harvest, [.cash "purse" harvest 70, .debt "loan" harvest 30,
    .cash "purse" harvest (-20), .cash "barn" Date.last 500]⟩, harvest, [], by decide⟩

theorem sampleBetween_conserves_farm :
    let point := (farm.estate.moveTo harvest).point
    point ∈ (farm.sampleBetween harvest harvest {}).points ∧
      point.byName.entries = [("loan", -30), ("purse", 50)] ∧
      (farm.estate.possessions.map fun p => (p.valueOn point.date).toInt.natAbs).sum ≤
        Amount.greatest ∧
      (point.byName.values.map (·.toInt)).sum = point.aggregate.toInt ∧
      point.aggregate.toInt =
        (farm.estate.possessions.map fun p => (p.valueOn point.date).toInt).sum := by
  have hpoint : (farm.estate.moveTo harvest).point ∈
      (farm.sampleBetween harvest harvest {}).points := by decide +kernel
  have hfits : (farm.estate.possessions.map fun p => (p.valueOn harvest).toInt.natAbs).sum ≤
      Amount.greatest := by decide +kernel
  exact ⟨hpoint, by decide +kernel, hfits,
    farm.sampleBetween_conserves harvest harvest {} hpoint hfits⟩

end Case
end NetWorth
