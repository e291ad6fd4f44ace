import NetWorth.Estate
import NetWorth.Proofs.Amount.Total

/-! The aggregate of an estate against the order of its possessions. Amounts are cut off after each
possession, so the order shows in some estates; `aggregate_perm_iff` tells in which. -/
namespace NetWorth.Estate

def heldValues (date : Date) (ps : List Possession) : List Amount :=
  (ps.filter (·.heldOn date)).map (·.value)

section
variable {date : Date} {ps qs : List Possession}

theorem heldValues_append :
    heldValues date (ps ++ qs) = heldValues date ps ++ heldValues date qs := by
  rw [heldValues, List.filter_append, List.map_append, heldValues, heldValues]

/-- Possessions in another order have the same values in another order. -/
theorem heldValues_perm (h : ps.Perm qs) : (heldValues date ps).Perm (heldValues date qs) :=
  (h.filter _).map _

theorem exists_of_mem_heldValues {a : Amount} (h : a ∈ heldValues date ps) :
    ∃ p ∈ ps, p.value = a := by
  obtain ⟨p, hp, rfl⟩ := List.mem_map.mp h
  exact ⟨p, (List.mem_filter.mp hp).1, rfl⟩

/-- Possessions fall apart into those of no negative and those of no positive value. -/
theorem exists_gainers_losers (ps : List Possession) : ∃ gainers losers : List Possession,
    (gainers ++ losers).Perm ps ∧
      (∀ p ∈ gainers, p.value.loss = 0) ∧ ∀ p ∈ losers, p.value.gain = 0 := by
  let gains (p : Possession) : Bool := 0 ≤ p.value.toInt
  refine ⟨ps.filter gains, ps.filter fun p => !gains p, List.filter_append_perm gains ps,
    fun p hp => ?_, fun p hp => ?_⟩
  · have hgain : 0 ≤ p.value.toInt := by simpa [gains] using (List.mem_filter.mp hp).2
    unfold Amount.loss
    omega
  · have hloss : p.value.toInt < 0 := by simpa [gains] using (List.mem_filter.mp hp).2
    unfold Amount.gain
    omega

/-- If no order shows in the sum, what is held is free of order: the two extremes are enough to
tell. -/
theorem orderFree_of_perm
    (h : ∀ qs, qs.Perm ps → Amount.total (heldValues date qs) = Amount.total (heldValues date ps)) :
    Amount.OrderFree (heldValues date ps) := by
  obtain ⟨gainers, losers, hperm, hgainers, hlosers⟩ := exists_gainers_losers ps
  have hlosses : Amount.losses (heldValues date gainers) = 0 := by
    refine Amount.losses_eq_zero_iff.mpr fun a ha => ?_
    obtain ⟨p, hp, rfl⟩ := exists_of_mem_heldValues ha
    exact hgainers p hp
  have hgains : Amount.gains (heldValues date losers) = 0 := by
    refine Amount.gains_eq_zero_iff.mpr fun a ha => ?_
    obtain ⟨p, hp, rfl⟩ := exists_of_mem_heldValues ha
    exact hlosers p hp
  have hsame := (h _ hperm).trans (h _ (List.perm_append_comm.trans hperm)).symm
  rw [heldValues_append, heldValues_append] at hsame
  have hfree := Amount.orderFree_of_total_eq hlosses hgains hsame
  rw [← heldValues_append] at hfree
  exact hfree.of_perm (heldValues_perm hperm.symm)

end

/-- The order of the possessions does not show in the aggregate of an estate exactly if all that it
holds of positive value fits an amount, and so does all of negative value, or if it does not hold
both. -/
theorem aggregate_perm_iff (e : Estate) :
    (∀ ps, ps.Perm e.possessions → { e with possessions := ps }.aggregate = e.aggregate) ↔
      Amount.OrderFree (e.held.map (·.value)) :=
  ⟨orderFree_of_perm, fun h _ hperm => h.total_eq (heldValues_perm hperm)⟩

def yearEnd : Date := (Date.ofParts? 2024 12 31).get (by decide)

def brimful : Estate :=
  ⟨"brimful", "Ada", yearEnd,
    [.cash "account" yearEnd Int64.maxValue, .cash "gift" yearEnd 1, .debt "loan" yearEnd 1]⟩

/-- The gift is lost if it comes before the loan, and pays it off if it comes after it. -/
theorem brimful_order_shows : brimful.possessions.reverse.Perm brimful.possessions ∧
    brimful.aggregate = Int64.maxValue - 1 ∧
    { brimful with possessions := brimful.possessions.reverse }.aggregate = Int64.maxValue ∧
    ¬ Amount.OrderFree (brimful.held.map (·.value)) :=
  ⟨List.reverse_perm _, by decide +kernel, by decide +kernel, by decide +kernel⟩

end NetWorth.Estate
