/-! Whole numbers that machine words hold. -/
namespace NetWorth

/-- The whole numbers that a signed word of 64 bits holds. -/
def FitsWord (n : Int) : Prop := Int64.minValue.toInt ≤ n ∧ n ≤ Int64.maxValue.toInt

instance (n : Int) : Decidable (FitsWord n) := inferInstanceAs (Decidable (_ ∧ _))

theorem fitsWord_iff {n : Int} :
    FitsWord n ↔ -0x8000000000000000 ≤ n ∧ n < 0x8000000000000000 := by
  unfold FitsWord
  rw [Int64.toInt_minValue, Int64.toInt_maxValue]
  omega

theorem fitsWord_toInt (n : Int64) : FitsWord n.toInt :=
  fitsWord_iff.2 ⟨n.le_toInt, n.toInt_lt⟩

def signedWord? (n : Int) : Option Int64 :=
  if FitsWord n then some (Int64.ofInt n) else none

def unsignedWord? (n : Int) : Option UInt64 :=
  if 0 ≤ n ∧ n < UInt64.size then some (UInt64.ofNat n.toNat) else none

def FitsHalfWord (n : Int) : Prop := Int32.minValue.toInt ≤ n ∧ n ≤ Int32.maxValue.toInt

instance (n : Int) : Decidable (FitsHalfWord n) := inferInstanceAs (Decidable (_ ∧ _))

def FitsUnsignedHalfWord (n : Int) : Prop := 0 ≤ n ∧ n < UInt32.size

instance (n : Int) : Decidable (FitsUnsignedHalfWord n) := inferInstanceAs (Decidable (_ ∧ _))

end NetWorth
