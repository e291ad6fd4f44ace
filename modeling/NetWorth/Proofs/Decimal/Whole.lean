import NetWorth.Proofs.Decimal.Packing
import NetWorth.Word

/-! Whole numbers as floats. A compact number is the exact value of its nearest float, and a number
in a signed word has the float of the compact number nearest to it. So a word that has been rounded
to a float once, or cut off from one, is not changed by doing so again. -/
namespace NetWorth
open Float.Model Float.Model.UnpackedFloat

def signOf (n : Int) : Sign := if n < 0 then .negative else .positive

private theorem toFloat_eq_whole {word : UInt64} (h : word.toNat ≠ 0) :
    word.toFloat = ⟨Float.Model.pack (wholeFloat .positive word.toNat)⟩ := by
  have hcompare : compare (word.toNat : Int) 0 = .gt := Int.compare_eq_gt.mpr (by omega)
  change (⟨Float.Model.pack (UnpackedFloat.normalize .binary64 word.toNat 0 .positive)⟩ : Float) = _
  unfold UnpackedFloat.normalize
  rw [hcompare]
  rfl

private theorem toFloat_eq {n : Nat} (hn : n ≠ 0) (hlt : n < 2 ^ 64) :
    n.toUInt64.toFloat = ⟨Float.Model.pack (wholeFloat .positive n)⟩ := by
  have hword : n.toUInt64.toNat = n := Nat.mod_eq_of_lt hlt
  have hwhole := @toFloat_eq_whole n.toUInt64 (by rwa [hword])
  rwa [hword] at hwhole

/-- The float of a compact number has its leading bits for a significand. -/
theorem nearestFloat_compact {n : Int} (h : Compact n.natAbs) (hn : n.natAbs ≠ 0)
    (hlt : n.natAbs < 2 ^ 64) :
    nearestFloat n =
      ⟨Float.Model.pack (.finite (signOf n) (leading n.natAbs) (n.natAbs.log2 - 52)
        (leading_pos hn))⟩ := by
  have hlog : n.natAbs.log2 < 64 := (Nat.log2_lt hn).mpr hlt
  have hpositive : n.natAbs.toUInt64.toFloat = ⟨Float.Model.pack
      (.finite .positive (leading n.natAbs) (n.natAbs.log2 - 52) (leading_pos hn))⟩ := by
    rw [toFloat_eq hn hlt, h.wholeFloat_eq .positive hn]
  unfold nearestFloat
  dsimp only
  rw [hpositive]
  rcases Int.lt_or_le n 0 with hneg | hnonneg
  · rw [if_pos hneg, show signOf n = .negative from if_pos hneg]
    change (⟨Float.Model.pack (Float.Model.unpack (Float.Model.pack _)).neg⟩ : Float) = _
    rw [unpack_pack_finite .positive (log2_leading hn) (leading_pos hn) (by omega) (by omega)]
    rfl
  · have hsign : ¬ n < 0 := Int.not_lt.mpr hnonneg
    rw [if_neg hsign, show signOf n = .positive from if_neg hsign]

theorem unpack_nearestFloat {n : Int} (h : Compact n.natAbs) (hn : n.natAbs ≠ 0)
    (hlt : n.natAbs < 2 ^ 64) :
    (nearestFloat n).toModel.unpack =
      .finite (signOf n) (leading n.natAbs) (n.natAbs.log2 - 52) (leading_pos hn) := by
  have hlog : n.natAbs.log2 < 64 := (Nat.log2_lt hn).mpr hlt
  rw [nearestFloat_compact h hn hlt]
  exact unpack_pack_finite _ (log2_leading hn) (leading_pos hn) (by omega) (by omega)

/-- A number in a signed word has the float of the nearest compact number. -/
theorem exists_nearestCompact_nearestFloat (n : Int) (h : n.natAbs ≤ 2 ^ 63) :
    ∃ w, NearestCompact n w ∧ nearestFloat n = nearestFloat w := by
  by_cases hn : n.natAbs = 0
  · exact ⟨n, .refl (compact_of_le (by omega)), rfl⟩
  obtain ⟨w, hnearest, hw0, hwhole⟩ := exists_nearestCompact_wholeFloat .positive hn
  have hbound := hnearest.natAbs_le_two_pow h
  rw [Int.natAbs_natCast] at hbound
  refine ⟨if n < 0 then -w else w, ?_, ?_⟩
  · split
    · have := hnearest.neg
      rwa [show -(n.natAbs : Int) = n by omega] at this
    · rwa [show (n.natAbs : Int) = n by omega] at hnearest
  · have habs : (if n < 0 then -w else w : Int).natAbs = w := by split <;> omega
    have hneg : (if n < 0 then -w else w : Int) < 0 ↔ n < 0 := by split <;> omega
    unfold nearestFloat
    simp only [habs, hneg]
    rw [toFloat_eq hn (by omega), toFloat_eq hw0 (by omega), hwhole]

private theorem truncate_eq {b : Binary} {n : Int} (h : Compact n.natAbs)
    (hnegative : b.negative = true ↔ n < 0) (hsignificand : b.significand = leading n.natAbs)
    (hexponent : b.exponent = n.natAbs.log2 - 52) : b.truncate = n := by
  have hup : b.exponent.toNat = n.natAbs.log2 - 52 := by omega
  have hdown : (-b.exponent).toNat = 52 - n.natAbs.log2 := by omega
  have hmagnitude : b.significand <<< b.exponent.toNat >>> (-b.exponent).toNat = n.natAbs := by
    rw [hup, hdown, hsignificand, Nat.shiftLeft_eq, Nat.shiftRight_eq_div_pow, h.leading_mul,
      Nat.mul_div_cancel _ (Nat.two_pow_pos _)]
  unfold Binary.truncate
  dsimp only
  rw [hmagnitude]
  split
  · rename_i hneg
    have := hnegative.mp hneg
    omega
  · rename_i hneg
    have := mt hnegative.mpr hneg
    omega

/-- A compact number is the exact value of its nearest float. -/
theorem clampedWholePart_nearestFloat {n : Int} (h : Compact n.natAbs) (hlt : n.natAbs < 2 ^ 64) :
    clampedWholePart (nearestFloat n) = Int64.ofIntClamp n := by
  by_cases hn : n.natAbs = 0
  · rw [Int.natAbs_eq_zero.mp hn]
    decide +kernel
  · obtain ⟨b, hb, hnegative, hsignificand, hexponent⟩ :=
      Binary.exists_ofFloat? (unpack_nearestFloat h hn hlt)
    have hsign : signOf n = .negative ↔ n < 0 := by
      unfold signOf
      split <;> simp [*]
    unfold clampedWholePart
    rw [hb]
    simp only [truncate_eq h (hnegative.trans hsign) hsignificand hexponent]

private theorem natAbs_toInt_le (v : Int64) : v.toInt.natAbs ≤ 2 ^ 63 := by
  have hlo := v.le_toInt
  have hhi := v.toInt_lt
  omega

theorem nearestFloat_mul_one (v : Int64) : nearestFloat v.toInt * 1.0 = nearestFloat v.toInt := by
  obtain ⟨n, hnearest, heq⟩ := exists_nearestCompact_nearestFloat v.toInt (natAbs_toInt_le v)
  have hn := hnearest.compact
  have hle := hnearest.natAbs_le_two_pow (natAbs_toInt_le v)
  rw [heq]
  by_cases hzero : n.natAbs = 0
  · rw [Int.natAbs_eq_zero.mp hzero]
    rfl
  · have hlt : n.natAbs < 2 ^ 64 := by omega
    have hone : (1.0 : Float).toModel.unpack = .finite .positive (2 ^ 52) (-52) (by decide) := rfl
    change (⟨Float.Model.pack (UnpackedFloat.mul .binary64 (nearestFloat n).toModel.unpack
      (1.0 : Float).toModel.unpack)⟩ : Float) = _
    rw [unpack_nearestFloat hn hzero hlt, hone, nearestFloat_compact hn hzero hlt]
    have hwhole := roundWithAccuracy_exact (signOf n) (e := n.natAbs.log2 - 52) 52
      (log2_leading hzero) (by omega) (leading_pos hzero)
    have hsign : signOf n * .positive = signOf n := by
      cases signOf n <;> rfl
    unfold UnpackedFloat.mul
    dsimp only
    rw [hsign]
    congr 2

private theorem significand_lt {x : Float} {b : Binary} (h : Binary.ofFloat? x = some b) :
    b.significand < 2 ^ 53 := by
  have hbit : Binary.leadingBit = 2 ^ 52 := rfl
  have hfraction := Nat.mod_lt x.toBits.toNat (show 0 < Binary.leadingBit by decide)
  unfold Binary.ofFloat? at h
  dsimp only at h
  split at h
  · contradiction
  · split at h <;> injection h with h <;> subst h <;> dsimp only <;> omega

private theorem compact_truncate {b : Binary} (h : b.significand < 2 ^ 53) :
    Compact b.truncate.natAbs := by
  have hnatAbs : b.truncate.natAbs =
      b.significand * 2 ^ b.exponent.toNat / 2 ^ (-b.exponent).toNat := by
    unfold Binary.truncate
    dsimp only
    rw [Nat.shiftLeft_eq, Nat.shiftRight_eq_div_pow]
    split
    · rw [Int.natAbs_neg, Int.natAbs_natCast]
    · rw [Int.natAbs_natCast]
  rw [hnatAbs]
  rcases Int.le_total 0 b.exponent with hle | hle
  · rw [Int.toNat_of_nonpos (Int.neg_nonpos_of_nonneg hle), Nat.pow_zero, Nat.div_one]
    exact compact_mul_two_pow (Nat.le_of_lt h) _
  · rw [Int.toNat_of_nonpos hle, Nat.pow_zero, Nat.mul_one]
    exact compact_of_le (Nat.le_trans (Nat.div_le_self b.significand _) (Nat.le_of_lt h))

private theorem ofIntClamp_of_not_fits {n : Int} (h : ¬ FitsWord n) :
    Int64.ofIntClamp n = Int64.minValue ∨ Int64.ofIntClamp n = Int64.maxValue := by
  unfold Int64.ofIntClamp
  split
  · rename_i hlo
    split
    · rename_i hhi
      exact absurd ⟨hlo, hhi⟩ h
    · exact .inr rfl
  · exact .inl rfl

private theorem toInt_ofIntClamp {n : Int} (h : FitsWord n) : (Int64.ofIntClamp n).toInt = n := by
  unfold Int64.ofIntClamp
  rw [dif_pos h.1, dif_pos h.2, Int64.toInt_ofIntLE]

private theorem clampedWholePart_end {w : Int64}
    (h : w = 0 ∨ w = Int64.minValue ∨ w = Int64.maxValue) :
    clampedWholePart (nearestFloat w.toInt) = w := by
  rcases h with rfl | rfl | rfl <;> decide +kernel

/-- A float that has been cut off to a word is exact from then on. -/
theorem clampedWholePart_idem (x : Float) :
    clampedWholePart (nearestFloat (clampedWholePart x).toInt) = clampedWholePart x := by
  cases hx : Binary.ofFloat? x with
  | none =>
    apply clampedWholePart_end
    unfold clampedWholePart
    rw [hx]
    dsimp only
    split
    · exact .inl rfl
    · split
      · exact .inr (.inl rfl)
      · exact .inr (.inr rfl)
  | some b =>
    have hclamp : clampedWholePart x = Int64.ofIntClamp b.truncate := by
      unfold clampedWholePart
      rw [hx]
    rw [hclamp]
    by_cases hfits : FitsWord b.truncate
    · have hbound := fitsWord_iff.mp hfits
      have hcompact := compact_truncate (significand_lt hx)
      rw [toInt_ofIntClamp hfits, clampedWholePart_nearestFloat hcompact (by omega)]
    · exact clampedWholePart_end (.inr (ofIntClamp_of_not_fits hfits))

/-- A whole part that fits a word is not clamped. -/
theorem clampedWholePart_of_wholePart? {x : Float} {v : Int64} (h : wholePart? x = some v) :
    clampedWholePart x = v := by
  obtain ⟨b, hb, hword⟩ := Option.bind_eq_some_iff.mp h
  unfold signedWord? at hword
  split at hword
  · rename_i hfits
    unfold clampedWholePart
    rw [hb]
    change Int64.ofIntClamp b.truncate = v
    rw [← Option.some.inj hword, ← Int64.toInt_inj, toInt_ofIntClamp hfits]
    exact (Int64.toInt_ofInt_of_le (fitsWord_iff.mp hfits).1 (fitsWord_iff.mp hfits).2).symm
  · cases hword

/-- Through its float, a word becomes the nearest compact number, cut off to a word. -/
theorem exists_nearestCompact_clampedWholePart (v : Int64) :
    ∃ w, NearestCompact v.toInt w ∧
      clampedWholePart (nearestFloat v.toInt) = Int64.ofIntClamp w := by
  obtain ⟨w, hnearest, heq⟩ := exists_nearestCompact_nearestFloat v.toInt (natAbs_toInt_le v)
  have hle := hnearest.natAbs_le_two_pow (natAbs_toInt_le v)
  exact ⟨w, hnearest, by rw [heq, clampedWholePart_nearestFloat hnearest.compact (by omega)]⟩

/-- The word that a float was rounded from can be replaced by the whole part of that float. -/
theorem nearestFloat_idem (v : Int64) :
    nearestFloat (clampedWholePart (nearestFloat v.toInt)).toInt = nearestFloat v.toInt := by
  obtain ⟨n, hnearest, heq⟩ := exists_nearestCompact_nearestFloat v.toInt (natAbs_toInt_le v)
  have hle := hnearest.natAbs_le_two_pow (natAbs_toInt_le v)
  have hlt : n.natAbs < 2 ^ 64 := by omega
  rw [heq, clampedWholePart_nearestFloat hnearest.compact hlt]
  by_cases hfits : FitsWord n
  · rw [toInt_ofIntClamp hfits]
  · -- Only the word next below 2 ^ 63 is rounded up beyond the words.
    have hlarge : n = 2 ^ 63 := by
      rw [fitsWord_iff] at hfits
      omega
    rw [hlarge]
    decide +kernel

/-! Zeros as factors. -/

def IsZero (x : Float) : Prop := ∃ s, x.toModel.unpack = .zero s

theorem isZero_of_beq {x : Float} (h : (x == 0) = true) : IsZero x := by
  change x.toModel.unpack.beq (.zero .positive) = true at h
  unfold IsZero
  cases hx : x.toModel.unpack with
  | zero s => exact ⟨s, rfl⟩
  | notANumber =>
    rw [hx] at h
    contradiction
  | infinity s =>
    rw [hx] at h
    cases s <;> contradiction
  | finite s m e hm =>
    rw [hx] at h
    cases s <;> contradiction

private theorem exists_zero_mul (s : Sign) {u : UnpackedFloat} (h : u.isFinite = true) :
    ∃ t, mul .binary64 (.zero s) u = .zero t := by
  cases u with
  | zero t => exact ⟨s * t, rfl⟩
  | finite t m e hm => exact ⟨s * t, rfl⟩
  | notANumber => contradiction
  | infinity t => contradiction

private theorem exists_mul_zero (s : Sign) {u : UnpackedFloat} (h : u.isFinite = true) :
    ∃ t, mul .binary64 u (.zero s) = .zero t := by
  cases u with
  | zero t => exact ⟨t * s, rfl⟩
  | finite t m e hm => exact ⟨t * s, rfl⟩
  | notANumber => contradiction
  | infinity t => contradiction

/-- Zero times anything finite is a zero. -/
theorem isZero_mul {x y : Float} (hx : x.isFinite = true) (hy : y.isFinite = true)
    (h : IsZero x ∨ IsZero y) : IsZero (x * y) := by
  change ∃ t, (Float.Model.pack (mul .binary64 x.toModel.unpack y.toModel.unpack)).unpack = .zero t
  rcases h with ⟨s, hs⟩ | ⟨s, hs⟩
  · obtain ⟨t, ht⟩ := exists_zero_mul s hy
    rw [hs, ht]
    exact ⟨t, unpack_pack_zero t⟩
  · obtain ⟨t, ht⟩ := exists_mul_zero s hx
    rw [hs, ht]
    exact ⟨t, unpack_pack_zero t⟩

theorem one_add_isZero {x : Float} (h : IsZero x) : 1.0 + x = 1.0 := by
  obtain ⟨s, hs⟩ := h
  change (⟨Float.Model.pack (add .binary64 (1.0 : Float).toModel.unpack x.toModel.unpack)⟩ :
    Float) = _
  rw [hs]
  cases s <;> rfl

private theorem toFloat_cases (word : UInt64) :
    word.toFloat = ⟨Float.Model.pack (.zero .positive)⟩ ∨
      ∃ m e h, m.log2 = 52 ∧ -1074 ≤ e ∧ e ≤ 971 ∧
        word.toFloat = ⟨Float.Model.pack (.finite .positive m e h)⟩ := by
  by_cases hword : word.toNat = 0
  · left
    rw [UInt64.toNat_inj.mp (hword.trans UInt64.toNat_zero.symm)]
    rfl
  · right
    obtain ⟨w, hnearest, hw0, hwhole⟩ := exists_nearestCompact_wholeFloat .positive hword
    have hw : Compact w := hnearest.compact
    have hbound := hnearest.natAbs_le_two_pow (j := 64) (Nat.le_of_lt word.toNat_lt)
    have hlog : w.log2 < 65 := (Nat.log2_lt hw0).mpr (by omega)
    refine ⟨leading w, w.log2 - 52, leading_pos hw0, log2_leading hw0, by omega, by omega, ?_⟩
    rw [toFloat_eq_whole hword, hwhole, hw.wholeFloat_eq .positive hw0]

private theorem isFinite_toFloat (word : UInt64) :
    word.toFloat.isFinite = true ∧ (-word.toFloat).isFinite = true := by
  rcases toFloat_cases word with heq | ⟨m, e, hpos, hm, hlo, hhi, heq⟩
  · rw [heq]
    exact ⟨rfl, rfl⟩
  · rw [heq]
    have hpositive := unpack_pack_finite .positive hm hpos hlo hhi
    have hnegative := unpack_pack_finite .negative hm hpos hlo hhi
    constructor
    · change (Float.Model.pack _).unpack.isFinite = true
      rw [hpositive]
      rfl
    · change (Float.Model.pack (Float.Model.pack _).unpack.neg).unpack.isFinite = true
      rw [hpositive]
      change (Float.Model.pack (.finite .negative m e hpos)).unpack.isFinite = true
      rw [hnegative]
      rfl

/-- The float of a whole number is finite. -/
theorem isFinite_nearestFloat (n : Int) : (nearestFloat n).isFinite = true := by
  unfold nearestFloat
  dsimp only
  split
  · exact (isFinite_toFloat _).2
  · exact (isFinite_toFloat _).1

end NetWorth
