import Mathlib.Algebra.GroupWithZero.Nat
import Mathlib.Algebra.Ring.Int.Defs
import NetWorth.Proofs.Amount

/-! Sums of amounts, which are cut off after each addition. A sum is exact as long as neither the
gains nor the losses in it exceed a word: `toInt_total_of_fits`. What exceeds it is lost if it comes
before amounts of the other sign, and not if it comes after them, so then the order shows. -/
namespace NetWorth.Amount

def gain (a : Amount) : Nat := a.toInt.toNat

def loss (a : Amount) : Nat := (-a.toInt).toNat

def gains (as : List Amount) : Nat := (as.map gain).sum

def losses (as : List Amount) : Nat := (as.map loss).sum

theorem toInt_eq_gain_sub_loss (a : Amount) : a.toInt = a.gain - a.loss := by
  unfold gain loss
  omega

theorem natAbs_toInt_eq_gain_add_loss (a : Amount) : a.toInt.natAbs = a.gain + a.loss := by
  unfold gain loss
  omega

@[simp] theorem gains_nil : gains [] = 0 := rfl

@[simp] theorem losses_nil : losses [] = 0 := rfl

@[simp] theorem gains_cons (a : Amount) (as : List Amount) :
    gains (a :: as) = a.gain + gains as := List.sum_cons

@[simp] theorem losses_cons (a : Amount) (as : List Amount) :
    losses (a :: as) = a.loss + losses as := List.sum_cons

theorem gains_append (as bs : List Amount) : gains (as ++ bs) = gains as + gains bs := by
  rw [gains, List.map_append, List.sum_append_nat, gains, gains]

theorem losses_append (as bs : List Amount) : losses (as ++ bs) = losses as + losses bs := by
  rw [losses, List.map_append, List.sum_append_nat, losses, losses]

theorem gains_perm {as bs : List Amount} (h : as.Perm bs) : gains as = gains bs :=
  (h.map gain).sum_nat

theorem losses_perm {as bs : List Amount} (h : as.Perm bs) : losses as = losses bs :=
  (h.map loss).sum_nat

theorem gains_eq_zero_iff {as : List Amount} : gains as = 0 ↔ ∀ a ∈ as, a.gain = 0 := by
  rw [gains, List.sum_eq_zero_iff_forall_eq_nat, List.forall_mem_map]

theorem losses_eq_zero_iff {as : List Amount} : losses as = 0 ↔ ∀ a ∈ as, a.loss = 0 := by
  rw [losses, List.sum_eq_zero_iff_forall_eq_nat, List.forall_mem_map]

/-- The exact sum is that of the gains without the losses. -/
theorem sum_toInt_eq (as : List Amount) :
    (as.map (·.toInt)).sum = (gains as : Int) - losses as := by
  induction as with
  | nil => rfl
  | cons a as ih =>
    rw [List.map_cons, List.sum_cons, ih, a.toInt_eq_gain_sub_loss, gains_cons, losses_cons]
    omega

theorem sum_natAbs_eq (as : List Amount) :
    (as.map (·.toInt.natAbs)).sum = gains as + losses as := by
  induction as with
  | nil => rfl
  | cons a as ih =>
    rw [List.map_cons, List.sum_cons, ih, a.natAbs_toInt_eq_gain_add_loss, gains_cons, losses_cons]
    omega

section
variable {start : Amount} {as bs : List Amount}

/-- Nothing is cut off where the gains alone and the losses alone lead to amounts. -/
theorem toInt_foldl_plus_of_fits (hgains : start.toInt + gains as ≤ greatest)
    (hlosses : least ≤ start.toInt - losses as) :
    (as.foldl plus start).toInt = start.toInt + gains as - losses as := by
  induction as generalizing start with
  | nil => simp
  | cons a as ih =>
    rw [gains_cons] at hgains ⊢
    rw [losses_cons] at hlosses ⊢
    have ha := a.toInt_eq_gain_sub_loss
    have hstep : (start.plus a).toInt = start.toInt + a.gain - a.loss := by
      rw [toInt_plus]
      omega
    rw [List.foldl_cons, ih (by omega) (by omega), hstep]
    omega

/-- A sum that only rises is cut off at the top, once. -/
theorem toInt_foldl_plus_of_losses_eq_zero (h : losses as = 0) :
    (as.foldl plus start).toInt = min (start.toInt + gains as) greatest := by
  induction as generalizing start with
  | nil =>
    have hstart := start.le_greatest
    rw [List.foldl_nil, gains_nil]
    omega
  | cons a as ih =>
    rw [losses_cons] at h
    have ha := a.toInt_eq_gain_sub_loss
    have hstart := start.least_le
    rw [List.foldl_cons, ih (by omega), toInt_plus, gains_cons]
    omega

/-- A sum that only falls is cut off at the bottom, once. -/
theorem toInt_foldl_plus_of_gains_eq_zero (h : gains as = 0) :
    (as.foldl plus start).toInt = max least (start.toInt - losses as) := by
  induction as generalizing start with
  | nil =>
    have hstart := start.least_le
    rw [List.foldl_nil, losses_nil]
    omega
  | cons a as ih =>
    rw [gains_cons] at h
    have ha := a.toInt_eq_gain_sub_loss
    have hstart := start.le_greatest
    rw [List.foldl_cons, ih (by omega), toInt_plus, losses_cons]
    omega

theorem total_singleton (a : Amount) : total [a] = a := by
  have hlo := a.least_le
  have hhi := a.le_greatest
  rw [total, List.foldl_cons, List.foldl_nil, ← Int64.toInt_inj, toInt_plus, Int64.toInt_zero]
  omega

/-- Where gains and losses both fit, nothing is cut off on the way. -/
theorem toInt_total_of_fits (hgains : gains as ≤ greatest) (hlosses : losses as ≤ -least) :
    (total as).toInt = (as.map (·.toInt)).sum := by
  have hzero : (0 : Amount).toInt = 0 := Int64.toInt_zero
  rw [total, toInt_foldl_plus_of_fits (by omega) (by omega), sum_toInt_eq, hzero]
  omega

theorem toInt_total_of_sum_natAbs_le (h : (as.map (·.toInt.natAbs)).sum ≤ greatest) :
    (total as).toInt = (as.map (·.toInt)).sum := by
  have hleast : least = -greatest - 1 := rfl
  rw [sum_natAbs_eq] at h
  apply toInt_total_of_fits
  · omega
  · omega

/-- Gains and losses both fit a word, or there are not both. -/
def OrderFree (as : List Amount) : Prop :=
  (gains as ≤ greatest ∧ losses as ≤ -least) ∨ losses as = 0 ∨ gains as = 0

instance (as : List Amount) : Decidable (OrderFree as) := inferInstanceAs (Decidable (_ ∨ _))

/-- Being free of order does not depend on the order. -/
theorem OrderFree.of_perm (h : OrderFree as) (hperm : bs.Perm as) : OrderFree bs := by
  unfold OrderFree
  rw [gains_perm hperm, losses_perm hperm]
  exact h

/-- Such a sum is the exact one, cut off once at the end. -/
theorem OrderFree.total_eq_nearest (h : OrderFree as) :
    total as = nearest (gains as - losses as) := by
  have hzero : (0 : Amount).toInt = 0 := Int64.toInt_zero
  have hends : least ≤ 0 ∧ 0 ≤ greatest := by decide
  rw [← Int64.toInt_inj, toInt_nearest, total]
  rcases h with ⟨hgains, hlosses⟩ | hlosses | hgains
  · rw [toInt_foldl_plus_of_fits (by omega) (by omega)]
    omega
  · rw [toInt_foldl_plus_of_losses_eq_zero hlosses]
    omega
  · rw [toInt_foldl_plus_of_gains_eq_zero hgains]
    omega

/-- Where it is free of order, a sum is the same in every order. -/
theorem OrderFree.total_eq (h : OrderFree as) (hperm : bs.Perm as) : total bs = total as := by
  rw [h.total_eq_nearest, (h.of_perm hperm).total_eq_nearest, gains_perm hperm, losses_perm hperm]

/-- All gains before all losses and all losses before all gains are the two orders that tell. -/
theorem orderFree_of_total_eq (has : losses as = 0) (hbs : gains bs = 0)
    (h : total (as ++ bs) = total (bs ++ as)) : OrderFree (as ++ bs) := by
  have hfirst : (total (as ++ bs)).toInt =
      max least (min (gains as : Int) greatest - losses bs) := by
    rw [total, List.foldl_append, toInt_foldl_plus_of_gains_eq_zero hbs,
      toInt_foldl_plus_of_losses_eq_zero has, Int64.toInt_zero, Int.zero_add]
  have hlast : (total (bs ++ as)).toInt =
      min (max least (-(losses bs : Int)) + gains as) greatest := by
    rw [total, List.foldl_append, toInt_foldl_plus_of_losses_eq_zero has,
      toInt_foldl_plus_of_gains_eq_zero hbs, Int64.toInt_zero, Int.zero_sub]
  have hleast : least = -0x8000000000000000 := rfl
  have hgreatest : greatest = 0x7FFFFFFFFFFFFFFF := rfl
  rw [h, hlast] at hfirst
  unfold OrderFree
  rw [gains_append, losses_append, has, hbs]
  omega

end
end NetWorth.Amount
