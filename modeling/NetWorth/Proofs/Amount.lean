import NetWorth.Amount
import NetWorth.Word

/-! Amounts as whole numbers that are cut off at both ends. -/
namespace NetWorth.Amount

/-- Addition is exact and then cut off at the ends of the range. -/
theorem toInt_plus (a b : Amount) :
    (a.plus b).toInt = max least (min (a.toInt + b.toInt) greatest) := toInt_nearest _

theorem plus_zero (a : Amount) : a.plus 0 = a := by
  have hlo := a.least_le
  have hhi := a.le_greatest
  rw [← Int64.toInt_inj, toInt_plus, Int64.toInt_zero]
  omega

private theorem foldl_plus_filter {α : Type} {xs : List α} {keep : α → Bool} {f : α → Amount}
    (h : ∀ x ∈ xs, keep x = false → f x = 0) (start : Amount) :
    ((xs.filter keep).map f).foldl plus start = (xs.map f).foldl plus start := by
  induction xs generalizing start with
  | nil => rfl
  | cons x xs ih =>
    have hrest := ih fun y hy => h y (List.mem_cons_of_mem x hy)
    cases hx : keep x with
    | true =>
      rw [List.filter_cons_of_pos hx]
      exact hrest _
    | false =>
      rw [List.filter_cons_of_neg (by simp [hx]), List.map_cons, List.foldl_cons,
        h x List.mem_cons_self hx, plus_zero]
      exact hrest start

/-- Zeros may be left out of a sum. -/
theorem total_map_filter {α : Type} {xs : List α} {keep : α → Bool} {f : α → Amount}
    (h : ∀ x ∈ xs, keep x = false → f x = 0) :
    total ((xs.filter keep).map f) = total (xs.map f) := foldl_plus_filter h 0

private theorem least_eq : least = -0x8000000000000000 := rfl

private theorem greatest_eq : greatest = 0x7FFFFFFFFFFFFFFF := rfl

theorem toInt_nearest_of_nonneg {n : Int} (h : 0 ≤ n) : (nearest n).toInt = min n greatest := by
  have hleast := least_eq
  have hgreatest := greatest_eq
  rw [toInt_nearest]
  omega

theorem toInt_nearest_of_nonpos {n : Int} (h : n ≤ 0) : (nearest n).toInt = max least n := by
  have hgreatest := greatest_eq
  rw [toInt_nearest]
  omega

/-- Two numbers of one sign, added to an amount one after the other, give what their sum gives. This
fails only where the sum alone is cut off and leads away from the sign of the amount. -/
theorem plus_plus_nearest_iff (a : Amount) {x y : Int} (h : 0 ≤ x ∧ 0 ≤ y ∨ x ≤ 0 ∧ y ≤ 0) :
    (a.plus (nearest x)).plus (nearest y) = a.plus (nearest (x + y)) ↔
      (0 ≤ a.toInt ∧ 0 ≤ x + y ∨ a.toInt ≤ 0 ∧ x + y ≤ 0) ∨ x = 0 ∨ y = 0 ∨ FitsWord (x + y) := by
  have hlo := a.least_le
  have hhi := a.le_greatest
  have hleast := least_eq
  have hgreatest := greatest_eq
  rw [← Int64.toInt_inj, fitsWord_iff]
  -- with the sign known, everything is cut off at one and the same end
  rcases h with ⟨hx, hy⟩ | ⟨hx, hy⟩
  · simp only [toInt_plus, toInt_nearest_of_nonneg hx, toInt_nearest_of_nonneg hy,
      toInt_nearest_of_nonneg (Int.add_nonneg hx hy)]
    constructor
    · intro heq
      omega
    · intro hcut
      omega
  · simp only [toInt_plus, toInt_nearest_of_nonpos hx, toInt_nearest_of_nonpos hy,
      toInt_nearest_of_nonpos (Int.add_nonpos hx hy)]
    constructor
    · intro heq
      omega
    · intro hcut
      omega

/-- So it is for an amount that is taken a number of times, and then a number of times more. -/
theorem plus_plus_times_iff (a b : Amount) {m n : Int} (hm : 0 ≤ m) (hn : 0 ≤ n) :
    (a.plus (b.times m)).plus (b.times n) = a.plus (b.times (m + n)) ↔
      ¬ (0 < m ∧ 0 < n ∧ (a.toInt < 0 ∧ 0 < b.toInt ∨ 0 < a.toInt ∧ b.toInt < 0) ∧
        ¬ FitsWord (b.toInt * (m + n))) := by
  unfold times
  rw [Int.mul_add]
  rcases Int.lt_trichotomy 0 b.toInt with hpos | hzero | hneg
  · have hx := Int.mul_nonneg (Int.le_of_lt hpos) hm
    have hy := Int.mul_nonneg (Int.le_of_lt hpos) hn
    have hxm : b.toInt * m = 0 ↔ m = 0 := Int.mul_eq_zero.trans (or_iff_right (Int.ne_of_gt hpos))
    have hyn : b.toInt * n = 0 ↔ n = 0 := Int.mul_eq_zero.trans (or_iff_right (Int.ne_of_gt hpos))
    rw [plus_plus_nearest_iff a (.inl ⟨hx, hy⟩), fitsWord_iff, hxm, hyn]
    omega
  · rw [← hzero]
    simp only [Int.zero_mul, plus_plus_nearest_iff a (.inl ⟨Int.le_refl 0, Int.le_refl 0⟩)]
    omega
  · have hx := Int.mul_nonpos_of_nonpos_of_nonneg (Int.le_of_lt hneg) hm
    have hy := Int.mul_nonpos_of_nonpos_of_nonneg (Int.le_of_lt hneg) hn
    have hxm : b.toInt * m = 0 ↔ m = 0 := Int.mul_eq_zero.trans (or_iff_right (Int.ne_of_lt hneg))
    have hyn : b.toInt * n = 0 ↔ n = 0 := Int.mul_eq_zero.trans (or_iff_right (Int.ne_of_lt hneg))
    rw [plus_plus_nearest_iff a (.inr ⟨hx, hy⟩), fitsWord_iff, hxm, hyn]
    omega

end NetWorth.Amount
