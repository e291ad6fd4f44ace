import NetWorth.Decimal.Shortest
import NetWorth.Text.Numeral

/-! How floating-point values are written: in plain positional notation in messages, with exponents
for very large and very small values in documents. -/
namespace NetWorth.Decimal

def digitChars (d : Decimal) : List Char :=
  Numeral.ofNat d.digits

/-- The number of digits before the decimal point, negative when zeros follow the point. -/
def point (d : Decimal) : Int :=
  d.digitChars.length + d.exponent

def plain (whole : List Char) (d : Decimal) : List Char :=
  if 0 ≤ d.exponent then d.digitChars ++ List.replicate d.exponent.toNat '0' ++ whole
  else if 0 < d.point then
    d.digitChars.take d.point.toNat ++ '.' :: d.digitChars.drop d.point.toNat
  else '0' :: '.' :: List.replicate (-d.point).toNat '0' ++ d.digitChars

def scientific (d : Decimal) : List Char :=
  let power := d.point - 1
  let fraction := d.digitChars.tail
  d.digitChars.take 1 ++ (if fraction.isEmpty then [] else '.' :: fraction) ++
    'e' :: (if 0 ≤ power then ['+'] else []) ++ Numeral.ofInt power

private def signed (b : Binary) (magnitude : List Char) : List Char :=
  if b.negative then '-' :: magnitude else magnitude

/-- A float in messages: positional, without a point when it is whole. -/
def message (x : Float) : String :=
  match Binary.ofFloat? x with
  | none => if x.isNaN then "NaN" else if x < 0 then "-inf" else "inf"
  | some b =>
    String.ofList <| signed b <|
      if b.significand = 0 then ['0'] else (shortest .upward b).plain []

/-- A finite float in documents: positional with a point from 10 ^ -5 up to 10 ^ 16, and otherwise
with an exponent. Other floats have no notation there. -/
def document? (x : Float) : Option (List Char) :=
  (Binary.ofFloat? x).map fun b =>
    signed b <|
      if b.significand = 0 then ['0', '.', '0']
      else
        let d := shortest .toEven b
        if -5 < d.point ∧ d.point ≤ 16 then d.plain ['.', '0'] else d.scientific

end NetWorth.Decimal
