import NetWorth.Word

/-! Binary floating-point values as exact numbers, and whole numbers as floating-point values. -/
namespace NetWorth

/-- A finite value, significand * 2 ^ exponent, with its sign apart. -/
structure Binary where
  negative : Bool
  significand : Nat
  exponent : Int
  /-- The gap to the next smaller magnitude is half the gap to the next larger one. -/
  narrowBelow : Bool
  deriving DecidableEq

namespace Binary

def leadingBit : Nat := 1 <<< 52

def ofFloat? (x : Float) : Option Binary :=
  let bits := x.toBits.toNat
  let negative := decide (bits >>> 63 = 1)
  let biased : Nat := bits >>> 52 % 2048
  let fraction : Nat := bits % leadingBit
  if biased = 2047 then none
  else if biased = 0 then some ⟨negative, fraction, -1074, false⟩
  else some ⟨negative, leadingBit + fraction, biased - 1075, fraction = 0 && biased ≠ 1⟩

def truncate (b : Binary) : Int :=
  let magnitude := b.significand <<< b.exponent.toNat >>> (-b.exponent).toNat
  if b.negative then -(magnitude : Int) else magnitude

end Binary

def wholePart? (x : Float) : Option Int64 := do
  signedWord? (← Binary.ofFloat? x).truncate

/-- The whole part of a float, clamped to the signed words; what is not a number counts as zero. -/
def clampedWholePart (x : Float) : Int64 :=
  match Binary.ofFloat? x with
  | some b => Int64.ofIntClamp b.truncate
  | none => if x.isNaN then 0 else if x < 0 then Int64.minValue else Int64.maxValue

/-- The nearest float to a whole number below 2 ^ 64 in magnitude; of two equally near ones, the
one with the even significand. -/
def nearestFloat (n : Int) : Float :=
  let magnitude := n.natAbs.toUInt64.toFloat
  if n < 0 then -magnitude else magnitude

end NetWorth
