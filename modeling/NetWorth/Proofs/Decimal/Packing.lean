import NetWorth.Proofs.Decimal.Rounding

/-! Floats as bit patterns. A significand of 53 bits comes back from its pattern as it was, and the
exact value of a float is the one that its pattern is unpacked to. -/
namespace NetWorth
open Float.Model Float.Model.UnpackedFloat

private theorem toNat_unpackMantissa (b : BitVec Format.binary64.numBits) :
    (unpackMantissa b).toNat = b.toNat % 2 ^ 52 := rfl

private theorem toNat_unpackExponent (b : BitVec Format.binary64.numBits) :
    (unpackExponent b).toNat = b.toNat >>> 52 % 2048 := rfl

private theorem ofBitVec_unpackSign (bits : UInt64) :
    Sign.ofBitVec (@unpackSign .binary64 bits.toBitVec) = .negative ↔ bits.toNat >>> 63 = 1 := by
  have hword := bits.toNat_lt
  have hsign : (@unpackSign .binary64 bits.toBitVec).toNat = bits.toNat >>> 63 % 2 := rfl
  unfold Sign.ofBitVec
  split
  · rename_i hzero
    rw [hzero] at hsign
    change 0 = _ at hsign
    constructor
    · intro h
      contradiction
    · intro h
      omega
  · rename_i hne
    have : bits.toNat >>> 63 % 2 ≠ 0 := fun heq => hne (BitVec.eq_of_toNat_eq (hsign.trans heq))
    constructor
    · intro _
      omega
    · intro _
      rfl

private theorem unpackSign_packComponents (s : Sign) (e : BitVec 11) (m : BitVec 52) :
    unpackSign (packComponents .binary64 s e m) = s.toBitVec := by
  change (s.toBitVec ++ e ++ m).extractLsb' 63 1 = s.toBitVec
  rw [BitVec.extractLsb'_append_eq_of_le (by decide),
    BitVec.extractLsb'_append_eq_of_le (by decide)]
  exact BitVec.extractLsb'_eq_self

private theorem ofBitVec_toBitVec (s : Sign) : Sign.ofBitVec s.toBitVec = s := by
  cases s <;> rfl

private theorem toNat_implicit_append (v : BitVec 52) : (1#1 ++ v).toNat = 2 ^ 52 + v.toNat := by
  change 2 ^ 52 ||| v.toNat = _
  rw [Nat.or_comm, Nat.or_two_pow_eq_add_of_lt v.isLt, Nat.add_comm]

private theorem finite_congr {s t : Sign} {m n : Nat} {d e : Int} {hm : 0 < m} {hn : 0 < n}
    (hst : s = t) (hmn : m = n) (hde : d = e) : finite s m d hm = finite t n e hn := by
  subst hst hmn hde
  rfl

/-- A zero keeps its sign. -/
theorem unpack_pack_zero (s : Sign) : (Float.Model.pack (.zero s)).unpack = .zero s := by
  cases s <;> rfl

/-- Nothing is lost of a significand of 53 bits when its exponent fits. -/
theorem unpack_pack_finite (s : Sign) {m : Nat} {e : Int} (hm : m.log2 = 52) (hpos : 0 < m)
    (hlo : -1074 ≤ e) (hhi : e ≤ 971) :
    (Float.Model.pack (.finite s m e hpos)).unpack = .finite s m e hpos := by
  obtain ⟨hge, hlt⟩ := (Nat.log2_eq_iff (Nat.ne_of_gt hpos)).mp hm
  obtain ⟨biased, hbiased⟩ : ∃ k : Nat, (k : Int) = e + 1075 := ⟨(e + 1075).toNat, by omega⟩
  have hsum : (e + Format.binary64.exponentBias + (52 : Nat)).toNat = biased := by
    have : (Format.binary64.exponentBias : Int) = 1023 := rfl
    omega
  have hexponent : (BitVec.ofNat 11 biased).toNat = biased := Nat.mod_eq_of_lt (by omega)
  -- The greatest and the least exponent are kept for other floats than these.
  have hnotMax : BitVec.ofNat 11 biased ≠ -1#11 := by
    rw [BitVec.toNat_ne, hexponent]
    change biased ≠ 2047
    omega
  have hnotZero : BitVec.ofNat 11 biased ≠ 0#11 := by
    rw [BitVec.toNat_ne, hexponent]
    change biased ≠ 0
    omega
  have hpack : UnpackedFloat.pack .binary64 (.finite s m e hpos) =
      packComponents .binary64 s (BitVec.ofNat 11 biased) (BitVec.ofNat 52 m) := by
    unfold UnpackedFloat.pack
    dsimp only
    rw [hsum, if_neg (show ¬ 2 ^ 11 ≤ biased + 1 by omega)]
    exact if_pos (show m.log2 + 1 = 53 by omega)
  have hsignificand : (1#1 ++ BitVec.ofNat 52 m).toNat = m := by
    rw [toNat_implicit_append, BitVec.toNat_ofNat]
    omega
  have hbias : (Format.binary64.exponentBias : Int) = 1023 := rfl
  change UnpackedFloat.unpack .binary64 (UnpackedFloat.pack .binary64 (.finite s m e hpos)) = _
  rw [hpack]
  unfold UnpackedFloat.unpack
  dsimp only
  rw [unpackExponent_packComponents, if_neg hnotMax, if_neg hnotZero]
  apply finite_congr
  · rw [unpackSign_packComponents, ofBitVec_toBitVec]
  · rw [unpackMantissa_packComponents, hsignificand]
  · rw [hexponent]
    omega

/-- The exact value of a float has the parts that the float is unpacked to. -/
theorem Binary.exists_ofFloat? {x : Float} {s : Sign} {m : Nat} {e : Int} {hpos : 0 < m}
    (h : x.toModel.unpack = .finite s m e hpos) :
    ∃ b, ofFloat? x = some b ∧ (b.negative = true ↔ s = .negative) ∧ b.significand = m ∧
      b.exponent = e := by
  have hexponent := toNat_unpackExponent x.toBits.toBitVec
  have hmantissa := toNat_unpackMantissa x.toBits.toBitVec
  have hsign := ofBitVec_unpackSign x.toBits
  change UnpackedFloat.unpack .binary64 x.toBits.toBitVec = _ at h
  unfold UnpackedFloat.unpack at h
  unfold ofFloat?
  dsimp only at h ⊢
  generalize @unpackExponent .binary64 x.toBits.toBitVec = ev at h hexponent
  change _ = x.toBits.toNat % leadingBit at hmantissa
  change _ = x.toBits.toNat >>> 52 % 2048 at hexponent
  rw [← hexponent, ← hmantissa]
  have hbias : (Format.binary64.exponentBias : Int) = 1023 := rfl
  -- an exponent of ones only is that of the infinities and of what is no number
  by_cases hmax : ev = -1#11
  · rw [if_pos hmax] at h
    by_cases hzero : @unpackMantissa .binary64 x.toBits.toBitVec = 0#52
    · rw [if_pos hzero] at h
      contradiction
    · rw [if_neg hzero] at h
      contradiction
  · have hfinite : ev.toNat ≠ 2047 := fun heq => hmax (BitVec.eq_of_toNat_eq heq)
    rw [if_neg hmax] at h
    rw [if_neg hfinite]
    -- an exponent of zeros only tells that the leading bit is not implied
    by_cases hmin : ev = 0#11
    · rw [if_pos hmin] at h
      by_cases hzero : @unpackMantissa .binary64 x.toBits.toBitVec = 0#52
      · rw [dif_pos hzero] at h
        contradiction
      · rw [dif_neg hzero] at h
        injection h with hs hm he
        have hsubnormal : ev.toNat = 0 := by rw [hmin]; rfl
        rw [if_pos hsubnormal]
        refine ⟨_, rfl, ?_, hm, ?_⟩
        · simp [← hs, hsign]
        · rw [← he, hbias, hmin]
          rfl
    · rw [if_neg hmin] at h
      injection h with hs hm he
      have hnormal : ev.toNat ≠ 0 := fun heq => hmin (BitVec.eq_of_toNat_eq heq)
      rw [if_neg hnormal]
      refine ⟨_, rfl, ?_, ?_, ?_⟩
      · simp [← hs, hsign]
      · rw [← hm]
        exact (toNat_implicit_append _).symm
      · rw [← he, hbias]
        rfl

end NetWorth
