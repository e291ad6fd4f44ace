import NetWorth.Calendar.Date
import NetWorth.Text.Numeral
import NetWorth.Text.Blank

/-! Dates as text: year, month and day joined by hyphens. The years 0 to 9999 have four digits,
all others a sign and at least four. Reading also admits white space around the parts. -/
namespace NetWorth.Date

def yearText (year : Int) : List Char :=
  let digits := Numeral.zeroPadded 4 (Numeral.ofNat year.natAbs)
  if year < 0 then '-' :: digits else if 9999 < year then '+' :: digits else digits

def chars (d : Date) : List Char :=
  yearText d.year ++ '-' :: Numeral.zeroPadded 2 (Numeral.ofNat d.month) ++
    '-' :: Numeral.zeroPadded 2 (Numeral.ofNat d.day)

def text (d : Date) : String :=
  String.ofList d.chars

def readShort? (count : Nat) (cs : List Char) : Option (Nat × List Char) :=
  match Numeral.spanDigitsUpTo count cs with
  | ([], _) => none
  | (ds, rest) => some (Numeral.ofDigits ds, rest)

/-- A year and what follows it: without a sign it has at most four digits. -/
def readYear? (cs : List Char) : Option (Int × List Char) :=
  let signed (sign : Int) (cs : List Char) :=
    match Numeral.spanDigits cs with
    | ([], _) => none
    | (ds, rest) => some (sign * Numeral.ofDigits ds, rest)
  match cs with
  | '-' :: cs => signed (-1) cs
  | '+' :: cs => signed 1 cs
  | cs => (readShort? 4 cs).map fun r => ((r.1 : Int), r.2)

/-- What follows a hyphen, with the white space around it dropped. -/
def afterHyphen? (cs : List Char) : Option (List Char) :=
  match dropBlanks cs with
  | '-' :: cs => some (dropBlanks cs)
  | _ => none

def ofChars? (cs : List Char) : Option Date := do
  let (year, cs) ← readYear? (dropBlanks cs)
  let (month, cs) ← (afterHyphen? cs).bind (readShort? 2)
  let (day, cs) ← (afterHyphen? cs).bind (readShort? 2)
  if (dropBlanks cs).isEmpty then ofParts? year month day else none

def ofText? (s : String) : Option Date :=
  ofChars? s.toList

end NetWorth.Date
