import NetWorth.Decimal.Binary
import NetWorth.Proofs.Decimal.Compact

/-! Whole numbers rounded to significands of 53 bits. A compact number is held as it is, and any
other one as the compact number that is nearest to it. -/
namespace NetWorth
open Float.Model Float.Model.UnpackedFloat

/-! Shifts of a significand with its two residual bits. -/

/-- A number in units: how many whole ones, and by the residual bits whether half a unit is left and
whether anything else is. -/
private structure InUnits (em : ExtendedMantissa) (n unit : Nat) : Prop where
  mantissa_eq : em.mantissa = n / unit
  roundBit_iff : em.roundBit = true ↔ unit ≤ 2 * (n % unit)
  stickyBit_iff : em.stickyBit = true ↔ n % unit ≠ 0 ∧ 2 * (n % unit) ≠ unit

private theorem inUnits_exact (n : Nat) :
    InUnits (ExtendedMantissa.ofMantissaAndAccuracy n .exact) n 1 where
  mantissa_eq := (Nat.div_one n).symm
  roundBit_iff := by simp [ExtendedMantissa.ofMantissaAndAccuracy, Nat.mod_one]
  stickyBit_iff := by simp [ExtendedMantissa.ofMantissaAndAccuracy, Nat.mod_one]

/-- One shift doubles the unit, and the residual bits remember what falls off. -/
private theorem InUnits.shiftRightOne {em : ExtendedMantissa} {n unit : Nat}
    (h : InUnits em n unit) (hpos : 0 < unit) : InUnits em.shiftRightOne n (unit * 2) := by
  have hlt := Nat.mod_lt n hpos
  have hround := h.roundBit_iff
  have hsticky := h.stickyBit_iff
  have hrest : n % (unit * 2) = n % unit ∧ n / unit % 2 = 0 ∨
      n % (unit * 2) = n % unit + unit ∧ n / unit % 2 = 1 := by
    rw [Nat.mod_mul]
    rcases Nat.mod_two_eq_zero_or_one (n / unit) with hbit | hbit
    · exact .inl ⟨by rw [hbit, Nat.mul_zero, Nat.add_zero], hbit⟩
    · exact .inr ⟨by rw [hbit, Nat.mul_one], hbit⟩
  refine ⟨?_, ?_, ?_⟩
  · rw [← Nat.div_div_eq_div_mul, ← h.mantissa_eq]
    rfl
  · change (em.mantissa % 2 != 0) = true ↔ _
    rw [h.mantissa_eq, bne_iff_ne]
    omega
  · change (em.roundBit || em.stickyBit) = true ↔ _
    rw [Bool.or_eq_true, hround, hsticky]
    omega

/-- So a shift by any width counts in units of that power of two. -/
private theorem inUnits_shiftRight (n k : Nat) :
    InUnits (ExtendedMantissa.ofMantissaAndAccuracy n .exact >>> k) n (2 ^ k) := by
  change InUnits (k.repeat ExtendedMantissa.shiftRightOne _) n (2 ^ k)
  induction k with
  | zero => exact inUnits_exact n
  | succ k ih =>
    rw [Nat.pow_succ]
    exact ih.shiftRightOne (Nat.two_pow_pos k)

/-- The residual bits are enough to round halves to even. -/
private theorem InUnits.halfEven {em : ExtendedMantissa} {n unit : Nat} (h : InUnits em n unit)
    (hpos : 0 < unit) : HalfEven n unit em.roundedMantissa := by
  obtain ⟨m, round, sticky⟩ := em
  obtain ⟨hm, hround, hsticky⟩ := h
  have hlt := Nat.mod_lt n hpos
  have hsplit := Nat.div_add_mod' n unit
  dsimp only at hm hround hsticky
  rw [← hm] at hsplit
  cases round <;> cases sticky
  all_goals simp only [Bool.false_eq_true, false_iff, true_iff] at hround hsticky
  · exact .down hsplit (by omega) (by omega)
  · exact .down hsplit (by omega) (by omega)
  · -- Just half a unit is left, and the last bit of `m` decides.
    change HalfEven n unit (m + m % 2)
    rcases Nat.mod_two_eq_zero_or_one m with hbit | hbit
    · rw [hbit]
      exact .down hsplit (by omega) (by omega)
    · rw [hbit]
      exact .up hsplit hlt hround (by omega)
  · exact .up hsplit hlt hround (by omega)

private theorem shiftRight_exact (m k : Nat) :
    ExtendedMantissa.ofMantissaAndAccuracy (m * 2 ^ k) .exact >>> k =
      ExtendedMantissa.ofMantissaAndAccuracy m .exact := by
  change k.repeat ExtendedMantissa.shiftRightOne _ = _
  induction k generalizing m with
  | zero => rw [Nat.pow_zero, Nat.mul_one]; rfl
  | succ k ih =>
    rw [Nat.repeat, Nat.pow_succ', ← Nat.mul_assoc, ih (m * 2)]
    simp [ExtendedMantissa.shiftRightOne, ExtendedMantissa.ofMantissaAndAccuracy]

/-! Rounding. The exponent of the result leaves 53 bits, and never is as low as that of the
subnormal numbers for a whole number. -/

private theorem targetExponent_eq {m : Nat} {e : Int} (h : -1022 ≤ m.log2 + e) :
    Format.binary64.targetExponent (totalExponent m e) = m.log2 + e - 52 := by
  have hbits : (Format.binary64.mantissaBits : Int) = 53 := rfl
  have hmin : Format.binary64.minExponent = -1074 := rfl
  unfold Format.targetExponent totalExponent
  omega

private theorem shiftToTargetExponent_eq {m : Nat} {e : Int} (k : Nat) (hm : m.log2 = 52)
    (he : -1074 ≤ e) :
    shiftToTargetExponent .binary64 (m * 2 ^ k) (e - k) .exact =
      (ExtendedMantissa.ofMantissaAndAccuracy m .exact, e) := by
  have hne : m ≠ 0 := by
    rintro rfl
    contradiction
  have hlog := log2_mul_two_pow hne k
  have htarget := targetExponent_eq (m := m * 2 ^ k) (e := e - k) (by omega)
  have hshift : ((m * 2 ^ k).log2 + (e - k) - 52 - (e - k)).toNat = k := by omega
  unfold shiftToTargetExponent shiftToExponent
  rw [htarget]
  simp only [hshift, shiftRight_exact]
  congr 1
  omega

/-- The float of a rounded significand, which may be one bit too long. -/
private def settled (s : Sign) (m : Nat) (e : Int) : UnpackedFloat :=
  let (em, final) := shiftToTargetExponent .binary64 m e .exact
  if h : em.mantissa = 0 then .zero s else .finite s em.mantissa final (Nat.pos_of_ne_zero h)

/-- Rounding shifts to the target exponent, rounds there, and settles the carry. -/
private theorem roundWithAccuracy_eq (s : Sign) (n : Nat) (e : Int) :
    roundWithAccuracy .binary64 s n e .exact =
      settled s (shiftToTargetExponent .binary64 n e .exact).1.roundedMantissa
        (shiftToTargetExponent .binary64 n e .exact).2 := rfl

private theorem settled_eq (s : Sign) {m : Nat} {e : Int} (k : Nat) (hm : m.log2 = 52)
    (he : -1074 ≤ e) (hpos : 0 < m) : settled s (m * 2 ^ k) (e - k) = .finite s m e hpos := by
  unfold settled
  rw [shiftToTargetExponent_eq k hm he]
  exact dif_neg (Nat.ne_of_gt hpos)

private theorem settled_self (s : Sign) {m : Nat} {e : Int} (hm : m.log2 = 52) (he : -1074 ≤ e)
    (hpos : 0 < m) : settled s m e = .finite s m e hpos := by
  have hzero := settled_eq s 0 hm he hpos
  rwa [Nat.pow_zero, Nat.mul_one, Int.natCast_zero, Int.sub_zero] at hzero

/-- Nothing is lost of a significand of 53 bits with zeros behind it. -/
theorem roundWithAccuracy_exact (s : Sign) {m : Nat} {e : Int} (k : Nat) (hm : m.log2 = 52)
    (he : -1074 ≤ e) (hpos : 0 < m) :
    roundWithAccuracy .binary64 s (m * 2 ^ k) (e - k) .exact = .finite s m e hpos := by
  rw [roundWithAccuracy_eq, shiftToTargetExponent_eq k hm he]
  exact settled_self s hm he hpos

def wholeFloat (s : Sign) (n : Nat) : UnpackedFloat := UnpackedFloat.round .binary64 s n 0

/-- The float of a compact number is the number. -/
theorem Compact.wholeFloat_eq (s : Sign) {n : Nat} (h : Compact n) (hn : n ≠ 0) :
    wholeFloat s n = .finite s (leading n) (n.log2 - 52) (leading_pos hn) := by
  have hshift : (0 - (n.log2 + 0 - 52) : Int).toNat = 52 - n.log2 := by omega
  have hexponent : (0 - (52 - n.log2 : Nat) : Int) = n.log2 - 52 - (n.log2 - 52 : Nat) := by omega
  have hwhole : wholeFloat s n = roundWithAccuracy .binary64 s
      (leading n * 2 ^ (n.log2 - 52)) (n.log2 - 52 - (n.log2 - 52 : Nat)) .exact := by
    unfold wholeFloat UnpackedFloat.round decreaseExponent
    rw [targetExponent_eq (by omega), h.leading_mul]
    simp only [hshift, Nat.shiftLeft_eq, hexponent]
  rw [hwhole]
  exact roundWithAccuracy_exact s (n.log2 - 52) (log2_leading hn) (by omega) (leading_pos hn)

private theorem wholeFloat_eq_settled (s : Sign) {n k : Nat} (h : n.log2 = 52 + k) :
    wholeFloat s n =
      settled s (ExtendedMantissa.ofMantissaAndAccuracy n .exact >>> k).roundedMantissa k := by
  have htarget := targetExponent_eq (m := n) (e := 0) (by omega)
  have hdown : ((0 : Int) - (n.log2 + 0 - 52)).toNat = 0 := by omega
  have hup : ((n.log2 : Int) + 0 - 52 - 0).toNat = k := by omega
  unfold wholeFloat UnpackedFloat.round decreaseExponent
  rw [htarget]
  simp only [hdown, Nat.shiftLeft_zero, Int.natCast_zero, Int.sub_zero]
  rw [roundWithAccuracy_eq]
  unfold shiftToTargetExponent shiftToExponent
  rw [htarget]
  simp only [Int.sub_zero] at hup
  simp only [Int.sub_zero, hup, Int.zero_add]

private theorem exists_wholeFloat_eq_settled (s : Sign) {n k : Nat} (hn : n ≠ 0)
    (hk : n.log2 = 52 + k) :
    ∃ r, HalfEven n (2 ^ k) r ∧ 2 ^ 52 ≤ r ∧ r ≤ 2 ^ 53 ∧ wholeFloat s n = settled s r k := by
  have hpos := Nat.two_pow_pos k
  have hround := (inUnits_shiftRight n k).halfEven hpos
  have hlo : 2 ^ 52 * 2 ^ k ≤ n := by
    rw [← Nat.pow_add, ← hk]
    exact Nat.log2_self_le hn
  have hhi : n ≤ 2 ^ 53 * 2 ^ k := by
    rw [← Nat.pow_add, show 53 + k = n.log2 + 1 by omega]
    exact Nat.le_of_lt Nat.lt_log2_self
  exact ⟨_, hround, hround.le_of_mul_le hpos hlo, hround.le_of_le_mul hpos hhi,
    wholeFloat_eq_settled s hk⟩

private theorem wholeFloat_mul_two_pow (s : Sign) {r : Nat} (k : Nat) (hlo : 2 ^ 52 ≤ r)
    (hhi : r ≤ 2 ^ 53) : wholeFloat s (r * 2 ^ k) = settled s r k := by
  rcases Nat.lt_or_eq_of_le hhi with hlt | rfl
  · have hne : r ≠ 0 := by omega
    have hr : r.log2 = 52 := (Nat.log2_eq_iff hne).mpr ⟨hlo, hlt⟩
    rw [wholeFloat_eq_settled s (k := k) (by rw [log2_mul_two_pow hne, hr]), shiftRight_exact]
    rfl
  · -- Rounding has carried into one bit more.
    have hlog : (2 ^ 52 : Nat).log2 = 52 := Nat.log2_two_pow
    have hw : 2 ^ 53 * 2 ^ k = 2 ^ 52 * 2 ^ (k + 1) := by
      rw [← Nat.pow_add, ← Nat.pow_add]
      congr 1
      omega
    have hcarry := settled_eq s (e := k + 1) 1 hlog (by omega) (by decide)
    rw [← Nat.pow_add, show (k + 1 - (1 : Nat) : Int) = k by omega] at hcarry
    rw [hw, wholeFloat_eq_settled s (k := k + 1) (by rw [log2_mul_two_pow (by decide), hlog]),
      shiftRight_exact, hcarry]
    exact settled_self s hlog (by omega) (by decide)

/-- Every number has the float of the nearest compact number. -/
theorem exists_nearestCompact_wholeFloat (s : Sign) {n : Nat} (hn : n ≠ 0) :
    ∃ w : Nat, NearestCompact n w ∧ w ≠ 0 ∧ wholeFloat s n = wholeFloat s w := by
  by_cases hcompact : Compact n
  · exact ⟨n, .refl hcompact, hn, rfl⟩
  have hlong : 52 < n.log2 := Nat.lt_of_not_le fun h => hcompact (compact_of_log2_le h)
  obtain ⟨k, hk⟩ : ∃ k, n.log2 = 52 + k := ⟨n.log2 - 52, by omega⟩
  obtain ⟨r, hround, hlo, hhi, hwhole⟩ := exists_wholeFloat_eq_settled s hn hk
  refine ⟨r * 2 ^ k, hround.nearestCompact (hk ▸ Nat.log2_self_le hn) hlo hhi, ?_, ?_⟩
  · exact Nat.mul_ne_zero (by omega) (Nat.ne_of_gt (Nat.two_pow_pos k))
  · rw [hwhole, wholeFloat_mul_two_pow s k hlo hhi]

end NetWorth
