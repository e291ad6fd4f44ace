import Mathlib.Algebra.GroupWithZero.Nat

/-! Whole numbers that 53 bits and zeros behind them hold, and the rounding of all others to the
nearest of these, of which there is only one: `NearestCompact.unique`. -/
namespace NetWorth

theorem log2_mul_two_pow {n : Nat} (h : n ≠ 0) (k : Nat) : (n * 2 ^ k).log2 = n.log2 + k := by
  rw [Nat.log2_eq_iff (Nat.mul_ne_zero h (Nat.ne_of_gt (Nat.two_pow_pos k)))]
  constructor
  · rw [Nat.pow_add]
    exact Nat.mul_le_mul_right _ (Nat.log2_self_le h)
  · rw [Nat.add_right_comm, Nat.pow_add]
    exact Nat.mul_lt_mul_of_pos_right Nat.lt_log2_self (Nat.two_pow_pos k)

theorem log2_div_two_pow {n k : Nat} (h : n ≠ 0) (hk : k ≤ n.log2) :
    (n / 2 ^ k).log2 = n.log2 - k := by
  have hlo : 2 ^ (n.log2 - k) ≤ n / 2 ^ k := by
    rw [Nat.le_div_iff_mul_le (Nat.two_pow_pos k), ← Nat.pow_add, Nat.sub_add_cancel hk]
    exact Nat.log2_self_le h
  have hhi : n / 2 ^ k < 2 ^ (n.log2 - k + 1) := by
    rw [Nat.div_lt_iff_lt_mul (Nat.two_pow_pos k), ← Nat.pow_add]
    have : n.log2 - k + 1 + k = n.log2 + 1 := by omega
    rw [this]
    exact Nat.lt_log2_self
  exact (Nat.log2_eq_iff (Nat.ne_of_gt (Nat.lt_of_lt_of_le (Nat.two_pow_pos _) hlo))).mpr ⟨hlo, hhi⟩

/-- A number whose bits after the 53 leading ones are zero. -/
def Compact (n : Nat) : Prop := 2 ^ (n.log2 - 52) ∣ n

instance (n : Nat) : Decidable (Compact n) := inferInstanceAs (Decidable (_ ∣ _))

theorem compact_of_log2_le {n : Nat} (h : n.log2 ≤ 52) : Compact n := by
  unfold Compact
  rw [Nat.sub_eq_zero_of_le h]
  exact Nat.one_dvd n

theorem compact_two_pow (k : Nat) : Compact (2 ^ k) := by
  unfold Compact
  rw [Nat.log2_two_pow]
  exact Nat.pow_dvd_pow 2 (Nat.sub_le k 52)

/-- A multiple of a power of two is compact if its factor has no more than 53 bits. -/
theorem compact_mul_two_pow {m : Nat} (h : m ≤ 2 ^ 53) (k : Nat) : Compact (m * 2 ^ k) := by
  rcases Nat.eq_zero_or_pos m with rfl | hpos
  · rw [Nat.zero_mul]
    exact Nat.dvd_zero _
  rcases Nat.lt_or_eq_of_le h with hlt | rfl
  · have hlog := (Nat.log2_lt (Nat.ne_of_gt hpos)).mpr hlt
    unfold Compact
    rw [log2_mul_two_pow (Nat.ne_of_gt hpos)]
    exact Nat.dvd_mul_left_of_dvd (Nat.pow_dvd_pow 2 (by omega)) m
  · rw [← Nat.pow_add]
    exact compact_two_pow _

theorem compact_of_le {n : Nat} (h : n ≤ 2 ^ 53) : Compact n := by
  have := compact_mul_two_pow h 0
  rwa [Nat.pow_zero, Nat.mul_one] at this

/-- From a power of two on, compact numbers are multiples of the unit of 53 bits there. -/
theorem Compact.dvd {n k : Nat} (h : Compact n) (hle : 2 ^ (52 + k) ≤ n) : 2 ^ k ∣ n := by
  have hn : n ≠ 0 := Nat.ne_of_gt (Nat.lt_of_lt_of_le (Nat.two_pow_pos _) hle)
  have hlog : 52 + k ≤ n.log2 := (Nat.le_log2 hn).mpr hle
  exact Nat.dvd_trans (Nat.pow_dvd_pow 2 (by omega)) h

/-- The 53 leading bits of a number, with zeros behind it if it is shorter. -/
def leading (n : Nat) : Nat := n * 2 ^ (52 - n.log2) / 2 ^ (n.log2 - 52)

theorem log2_leading {n : Nat} (h : n ≠ 0) : (leading n).log2 = 52 := by
  unfold leading
  rcases Nat.le_total n.log2 52 with hle | hle
  · rw [Nat.sub_eq_zero_of_le hle, Nat.pow_zero, Nat.div_one, log2_mul_two_pow h]
    omega
  · rw [Nat.sub_eq_zero_of_le hle, Nat.pow_zero, Nat.mul_one, log2_div_two_pow h (Nat.sub_le _ _)]
    omega

theorem leading_pos {n : Nat} (h : n ≠ 0) : 0 < leading n := by
  apply Nat.pos_of_ne_zero
  intro hzero
  have := log2_leading h
  rw [hzero] at this
  contradiction

theorem Compact.leading_mul {n : Nat} (h : Compact n) :
    leading n * 2 ^ (n.log2 - 52) = n * 2 ^ (52 - n.log2) :=
  Nat.div_mul_cancel (Nat.dvd_mul_right_of_dvd h _)

theorem leading_mul_two_pow {m : Nat} (h : m.log2 = 52) (k : Nat) : leading (m * 2 ^ k) = m := by
  have hm : m ≠ 0 := by
    rintro rfl
    contradiction
  unfold leading
  rw [log2_mul_two_pow hm, h, Nat.sub_eq_zero_of_le (Nat.le_add_right 52 k), Nat.pow_zero,
    Nat.mul_one, Nat.add_sub_cancel_left, Nat.mul_div_cancel _ (Nat.two_pow_pos k)]

/-- A compact number is its leading bits and zeros. -/
theorem Compact.eq_leading_mul {n k : Nat} (h : Compact n) (hlog : n.log2 = 52 + k) :
    n = leading n * 2 ^ k := by
  have := h.leading_mul
  rwa [hlog, Nat.add_sub_cancel_left, Nat.sub_eq_zero_of_le (Nat.le_add_right 52 k), Nat.pow_zero,
    Nat.mul_one, eq_comm] at this

/-- There is a next compact number. It is the next number, or one of the two has odd bits. -/
theorem Compact.exists_next {a : Nat} (ha : Compact a) :
    ∃ c, Compact c ∧ a < c ∧ (∀ b, Compact b → a < b → c ≤ b) ∧
      (c = a + 1 ∨ ¬ 2 ∣ leading a ∨ ¬ 2 ∣ leading c) := by
  rcases Nat.lt_or_ge 52 a.log2 with hlong | hshort
  · -- The next number of as many bits, or the first one of more, is one unit of 53 bits further.
    obtain ⟨k, hk⟩ : ∃ k, a.log2 = 52 + k := ⟨a.log2 - 52, by omega⟩
    have ha0 : a ≠ 0 := by
      rintro rfl
      contradiction
    have hpos := Nat.two_pow_pos k
    have hbit : 2 ^ (52 + k) ≤ a := hk ▸ Nat.log2_self_le ha0
    have hmul := ha.eq_leading_mul hk
    obtain ⟨hlo, hhi⟩ := (Nat.log2_eq_iff (Nat.ne_of_gt (leading_pos ha0))).mp (log2_leading ha0)
    have hnext : (leading a + 1) * 2 ^ k = a + 2 ^ k := by rw [Nat.succ_mul, ← hmul]
    refine ⟨a + 2 ^ k, ?_, by omega, fun b hb hlt => ?_, .inr ?_⟩
    · rw [← hnext]
      exact compact_mul_two_pow hhi k
    · have hdvd := Nat.dvd_sub (hb.dvd (Nat.le_trans hbit (Nat.le_of_lt hlt))) (ha.dvd hbit)
      have := Nat.le_of_dvd (by omega) hdvd
      omega
    · rw [← hnext]
      by_cases heven : 2 ∣ leading a
      · right
        rw [leading_mul_two_pow ((Nat.log2_eq_iff (by omega)).mpr ⟨by omega, by omega⟩)]
        omega
      · exact .inl heven
  · have hlt := Nat.lt_log2_self (n := a)
    have hpow := Nat.pow_le_pow_right (show 0 < 2 by decide) (show a.log2 + 1 ≤ 53 by omega)
    exact ⟨a + 1, compact_of_le (by omega), by omega, fun b _ hlt => hlt, .inl rfl⟩

/-! Rounding to compact numbers. -/

/-- `w` is the compact number nearest to `n`; of two equally near ones, the one whose 53 leading
bits are even. -/
structure NearestCompact (n w : Int) : Prop where
  compact : Compact w.natAbs
  natAbs_sub_le : ∀ u : Int, Compact u.natAbs → (n - w).natAbs ≤ (n - u).natAbs
  even_of_tie : ∀ u : Int, Compact u.natAbs → u ≠ w → (n - u).natAbs = (n - w).natAbs →
    2 ∣ leading w.natAbs

namespace NearestCompact
variable {n v w : Int}

theorem refl (h : Compact n.natAbs) : NearestCompact n n where
  compact := h
  natAbs_sub_le u _ := by omega
  even_of_tie u _ hne htie := by omega

/-- A sign makes no difference to what is nearest. -/
theorem neg (h : NearestCompact n w) : NearestCompact (-n) (-w) where
  compact := by
    rw [Int.natAbs_neg]
    exact h.compact
  natAbs_sub_le u hu := by
    have := h.natAbs_sub_le (-u) (by rwa [Int.natAbs_neg])
    omega
  even_of_tie u hu hne htie := by
    rw [Int.natAbs_neg]
    exact h.even_of_tie (-u) (by rwa [Int.natAbs_neg]) (by omega) (by omega)

/-- Only compact numbers are nearest to themselves. -/
theorem eq_iff (h : NearestCompact n w) : w = n ↔ Compact n.natAbs := by
  constructor
  · rintro rfl
    exact h.compact
  · intro hn
    have := h.natAbs_sub_le n hn
    omega

private theorem not_lt (h : NearestCompact n w) (h' : NearestCompact n v) (hn : 0 ≤ n) :
    ¬ w < v := by
  intro hlt
  have hle := h.natAbs_sub_le v h'.compact
  have hle' := h'.natAbs_sub_le w h.compact
  have heven := h.even_of_tie v h'.compact (by omega) (by omega)
  have heven' := h'.even_of_tie w h.compact (by omega) (by omega)
  have hzero := h.natAbs_sub_le 0 (compact_of_le (by decide))
  obtain ⟨c, hc, hafter, hfirst, hodd⟩ := h.compact.exists_next
  have hcv := hfirst v.natAbs h'.compact (by omega)
  have hnear := h.natAbs_sub_le c hc
  -- There is no compact number between the two, and `n` lies in the middle.
  have hv : v.natAbs = c := by omega
  rw [hv] at heven'
  rcases hodd with hsucc | hodd | hodd
  · omega
  · exact hodd heven
  · exact hodd heven'

/-- There is only one such number, since no two neighbours both have even bits. -/
theorem unique (h : NearestCompact n w) (h' : NearestCompact n v) : w = v := by
  rcases Int.le_total 0 n with hn | hn
  · have := h.not_lt h' hn
    have := h'.not_lt h hn
    omega
  · have := h.neg.not_lt h'.neg (by omega)
    have := h'.neg.not_lt h.neg (by omega)
    omega

/-- Nothing is rounded beyond a power of two. -/
theorem natAbs_le_two_pow (h : NearestCompact n w) {j : Nat} (hj : n.natAbs ≤ 2 ^ j) :
    w.natAbs ≤ 2 ^ j := by
  have hcompact := compact_two_pow j
  generalize 2 ^ j = c at hj hcompact
  have hup := h.natAbs_sub_le c hcompact
  have hdown := h.natAbs_sub_le (-c) (by rwa [Int.natAbs_neg])
  omega

/-- What is nearest to a natural number is nearest among the natural numbers. -/
theorem of_natCast {n w : Nat} (hw : Compact w)
    (hle : ∀ u : Nat, Compact u → ((n : Int) - w).natAbs ≤ ((n : Int) - u).natAbs)
    (heven : ∀ u : Nat, Compact u → u ≠ w → ((n : Int) - u).natAbs = ((n : Int) - w).natAbs →
      2 ∣ leading w) : NearestCompact n w where
  compact := hw
  natAbs_sub_le u hu := by
    have := hle u.natAbs hu
    omega
  even_of_tie u hu hne htie := by
    have hzero := hle 0 (compact_of_le (by decide))
    have hnonneg : 0 ≤ u := by omega
    exact heven u.natAbs hu (by omega) (by omega)

end NearestCompact

/-- `m` units are at most half a unit away from `n`, and just as far only if `m` is even. -/
structure HalfEven (n unit m : Nat) : Prop where
  le_half : 2 * ((n : Int) - (m * unit : Nat)).natAbs ≤ unit
  even_of_half : 2 * ((n : Int) - (m * unit : Nat)).natAbs = unit → 2 ∣ m

namespace HalfEven
variable {n unit m u rest : Nat}

theorem down (hn : m * unit + rest = n) (hle : 2 * rest ≤ unit) (heven : 2 * rest = unit → 2 ∣ m) :
    HalfEven n unit m where
  le_half := by omega
  even_of_half h := heven (by omega)

theorem up (hn : m * unit + rest = n) (hlt : rest < unit) (hge : unit ≤ 2 * rest)
    (heven : 2 * rest = unit → 2 ∣ m + 1) : HalfEven n unit (m + 1) := by
  have hnext : (m + 1) * unit = m * unit + unit := Nat.succ_mul m unit
  constructor
  · rw [hnext]
    omega
  · rw [hnext]
    intro h
    exact heven (by omega)

private theorem mul_add_le_mul {a b : Nat} (h : a < b) (c : Nat) : a * c + c ≤ b * c := by
  rw [← Nat.succ_mul]
  exact Nat.mul_le_mul_right c h

theorem le_of_mul_le (h : HalfEven n unit m) (hpos : 0 < unit) {a : Nat} (ha : a * unit ≤ n) :
    a ≤ m := by
  apply Nat.le_of_not_lt
  intro hlt
  have hhalf := h.le_half
  have haway := mul_add_le_mul hlt unit
  omega

theorem le_of_le_mul (h : HalfEven n unit m) (hpos : 0 < unit) {b : Nat} (hb : n ≤ b * unit) :
    m ≤ b := by
  apply Nat.le_of_not_lt
  intro hlt
  have hhalf := h.le_half
  have haway := mul_add_le_mul hlt unit
  omega

/-- Other multiples of the unit are a whole unit away from these. -/
theorem le_of_dvd (h : HalfEven n unit m) (hu : unit ∣ u) (hne : u ≠ m * unit) :
    ((n : Int) - (m * unit : Nat)).natAbs ≤ ((n : Int) - u).natAbs ∧
      (((n : Int) - u).natAbs = ((n : Int) - (m * unit : Nat)).natAbs → 2 ∣ m) := by
  have hhalf := h.le_half
  have heven := h.even_of_half
  have haway : u + unit ≤ m * unit ∨ m * unit + unit ≤ u := by
    obtain ⟨j, rfl⟩ := hu
    rw [Nat.mul_comm unit j] at hne ⊢
    rcases Nat.lt_or_gt_of_ne fun heq : j = m => hne (by rw [heq]) with hlt | hgt
    · exact .inl (mul_add_le_mul hlt unit)
    · exact .inr (mul_add_le_mul hgt unit)
  refine ⟨by omega, fun htie => heven (by omega)⟩

/-- Compact numbers lie closer together below the leading bit of `n`, but are further away there
than that bit alone. -/
theorem le_of_compact {k : Nat} (h : HalfEven n (2 ^ k) m) (hn : 2 ^ (52 + k) ≤ n) (hu : Compact u)
    (hne : u ≠ m * 2 ^ k) :
    ((n : Int) - (m * 2 ^ k : Nat)).natAbs ≤ ((n : Int) - u).natAbs ∧
      (((n : Int) - u).natAbs = ((n : Int) - (m * 2 ^ k : Nat)).natAbs → 2 ∣ m) := by
  rcases Nat.lt_or_ge u (2 ^ (52 + k)) with hlt | hge
  · have hbit : ((n : Int) - (m * 2 ^ k : Nat)).natAbs ≤
        ((n : Int) - (2 ^ (52 + k) : Nat)).natAbs := by
      by_cases heq : 2 ^ (52 + k) = m * 2 ^ k
      · exact Nat.le_of_eq (by rw [heq])
      · exact (h.le_of_dvd (Nat.pow_dvd_pow 2 (Nat.le_add_left k 52)) heq).1
    generalize 2 ^ (52 + k) = bit at hlt hn hbit
    refine ⟨by omega, fun htie => by omega⟩
  · exact h.le_of_dvd (hu.dvd hge) hne

private theorem two_dvd_leading {k : Nat} (hlo : 2 ^ 52 ≤ m) (hhi : m ≤ 2 ^ 53) (h : 2 ∣ m) :
    2 ∣ leading (m * 2 ^ k) := by
  rcases Nat.lt_or_eq_of_le hhi with hlt | rfl
  · rwa [leading_mul_two_pow ((Nat.log2_eq_iff (by omega)).mpr ⟨hlo, hlt⟩)]
  · -- Rounding has carried into one bit more.
    rw [Nat.pow_succ, Nat.mul_assoc, ← Nat.pow_succ', leading_mul_two_pow Nat.log2_two_pow]
    decide

/-- Rounding to units of the last of 53 bits leads to the nearest compact number. -/
theorem nearestCompact {k : Nat} (h : HalfEven n (2 ^ k) m) (hn : 2 ^ (52 + k) ≤ n)
    (hlo : 2 ^ 52 ≤ m) (hhi : m ≤ 2 ^ 53) : NearestCompact n (m * 2 ^ k : Nat) := by
  apply NearestCompact.of_natCast (compact_mul_two_pow hhi k)
  · intro u hu
    by_cases heq : u = m * 2 ^ k
    · exact Nat.le_of_eq (by rw [heq])
    · exact (h.le_of_compact hn hu heq).1
  · intro u hu hne htie
    exact two_dvd_leading hlo hhi ((h.le_of_compact hn hu hne).2 htie)

end HalfEven

end NetWorth
