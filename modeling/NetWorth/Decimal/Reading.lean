import NetWorth.Decimal.Binary

/-! Decimal numerals read as floating-point values: the leading digits that fit a word of 64 bits
are taken as a whole number, which is then scaled by a power of ten. -/
namespace NetWorth.Decimal

/-- Further digits are taken into a whole number as long as it fits a word of 64 bits; the rest is
left over. -/
def takeDigits (whole : Nat) : List Nat → Nat × List Nat
  | [] => (whole, [])
  | d :: ds =>
    if 10 * whole + d < UInt64.size then takeDigits (10 * whole + d) ds else (whole, d :: ds)

def powerOfTen (k : Nat) : Float :=
  Float.ofScientific 1 false k

/-- A float times a power of ten, by one multiplication or by divisions of which all but the last
are by the largest power; nothing if the product is too large. -/
def scale? (x : Float) (k : Int) : Option Float :=
  if x == 0 then some x
  else if 308 < k then none
  else if 0 ≤ k then
    let product := x * powerOfTen k.toNat
    if product.isInf then none else some product
  else if -308 ≤ k then some (x / powerOfTen (-k).toNat)
  else scale? (x / powerOfTen 308) (k + 308)
termination_by (-k).toNat

def read? (whole fraction : List Nat) (power : Int) : Option Float :=
  let (high, dropped) := takeDigits 0 whole
  let (all, unread) := takeDigits high fraction
  scale? (nearestFloat all) (dropped.length - (fraction.length - unread.length : Nat) + power)

end NetWorth.Decimal
