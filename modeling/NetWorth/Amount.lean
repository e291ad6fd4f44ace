/-! Amounts of money in whole units. They saturate: a sum or a product that a signed word of 64 bits
cannot hold becomes the nearest amount that it can. -/
namespace NetWorth

/-- An amount of money; debts are negative. -/
abbrev Amount := Int64

namespace Amount

def nearest (n : Int) : Amount := Int64.ofIntClamp n

def least : Int := Int64.minValue.toInt

def greatest : Int := Int64.maxValue.toInt

theorem least_le (a : Amount) : least ≤ a.toInt := Int64.minValue_le_toInt a

theorem le_greatest (a : Amount) : a.toInt ≤ greatest := Int64.toInt_le a

/-- The nearest amount is the number itself, cut off at the least and the greatest amount. -/
theorem toInt_nearest (n : Int) : (nearest n).toInt = max least (min n greatest) := by
  unfold nearest Int64.ofIntClamp
  have hmin : Int64.minValue.toInt = least := rfl
  have hmax : Int64.maxValue.toInt = greatest := rfl
  split
  · rename_i hlo
    split
    · rename_i hhi
      rw [Int64.toInt_ofIntLE]
      omega
    · rename_i hhi
      rw [hmax]
      have : least ≤ greatest := by decide
      omega
  · rw [hmin]
    have : least ≤ greatest := by decide
    omega

def plus (a b : Amount) : Amount := nearest (a.toInt + b.toInt)

def times (a : Amount) (count : Int) : Amount := nearest (a.toInt * count)

def magnitude (a : Amount) : Amount := nearest a.toInt.natAbs

/-- The sum of a list of amounts, from left to right. -/
def total (amounts : List Amount) : Amount := amounts.foldl plus 0

end Amount

end NetWorth
