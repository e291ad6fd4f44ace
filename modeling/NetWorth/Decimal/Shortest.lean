import NetWorth.Decimal.Binary

/-! The shortest decimal that reads back to a binary value: the fewest digits, and of these the
nearest to it. -/
namespace NetWorth

structure Decimal where
  digits : Nat
  exponent : Int
  deriving DecidableEq

/-- Which of two equally near decimals is taken: the one with the even last digit, or the larger. -/
inductive Tie
  | toEven
  | upward
  deriving DecidableEq

namespace Decimal

def tenTo (k : Nat) : Nat := Nat.pow 10 k

def compareBinary (a : Nat) (i : Int) (b : Nat) (j : Int) : Ordering :=
  compare ((a * tenTo i.toNat) <<< (-j).toNat) ((b * tenTo (-i).toNat) <<< j.toNat)

/-- The decimal lies in the interval of numbers that round to the magnitude of a binary value. Its
two ends belong to it when the significand is even. -/
def readsBack (d : Decimal) (b : Binary) : Bool :=
  let low := 4 * b.significand - (if b.narrowBelow then 1 else 2)
  let high := 4 * b.significand + 2
  let ends := b.significand % 2 = 0
  let below := compareBinary d.digits d.exponent low (b.exponent - 2)
  let above := compareBinary d.digits d.exponent high (b.exponent - 2)
  (below = .gt || (ends && below = .eq)) && (above = .lt || (ends && above = .eq))

/-- The number of digits before the decimal point of a positive binary value, negative when zeros
follow the point. It is looked for upward from a bound below it. -/
def pointOf (b : Binary) : Int :=
  let start := (b.exponent + b.significand.log2) * 30103 / 100000 - 1
  let above (k : Int) := compareBinary 1 k b.significand b.exponent = .gt
  if above start then start
  else if above (start + 1) then start + 1
  else if above (start + 2) then start + 2
  else start + 3

/-- The greatest multiple of 10 ^ grid that is at most the magnitude of a binary value, counted in
units of the grid, with the exact comparison of the value and the middle of its two neighbours. -/
def floorOn (b : Binary) (grid : Int) : Nat × Ordering :=
  let num := (b.significand * tenTo (-grid).toNat) <<< b.exponent.toNat
  let den := tenTo grid.toNat <<< (-b.exponent).toNat
  (num / den, compare (2 * (num % den)) den)

/-- The neighbour of a binary value on the grid of the multiples of 10 ^ grid that reads back to
it, the nearer one if both do. -/
def nearestOn? (tie : Tie) (b : Binary) (grid : Int) : Option Decimal :=
  let (floor, side) := floorOn b grid
  let down := Decimal.mk floor grid
  let up := Decimal.mk (floor + 1) grid
  if down.readsBack b then
    if up.readsBack b then
      match side, tie with
      | .lt, _ => some down
      | .gt, _ => some up
      | .eq, .upward => some up
      | .eq, .toEven => some (if floor % 2 = 0 then down else up)
    else some down
  else if up.readsBack b then some up
  else none

def stripZeros : Nat → Decimal → Decimal
  | 0, d => d
  | fuel + 1, d => if d.digits % 10 = 0 then stripZeros fuel ⟨d.digits / 10, d.exponent + 1⟩ else d

/-- The shortest decimal for the magnitude of a binary value other than zero. One with seventeen
digits always reads back; the exact value stands in for a search that finds none. -/
def shortest (tie : Tie) (b : Binary) : Decimal :=
  let point := pointOf b
  match (List.range 17).findSome? fun n : Nat => nearestOn? tie b (point - (n + 1)) with
  | some d => stripZeros 20 d
  | none =>
    let places := (-b.exponent).toNat
    ⟨(b.significand * tenTo places) <<< b.exponent.toNat >>> places, -places⟩

end Decimal

end NetWorth
