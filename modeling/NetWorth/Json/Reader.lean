import NetWorth.Json.Tree
import NetWorth.Decimal.Reading

/-! Reading a document from its text. A part that is well formed but stands for no value is kept as
a fault, so that a document is refused only for the faults in the parts that count. -/
namespace NetWorth.Json

def skipSpace (cs : List Char) : List Char :=
  cs.dropWhile fun c => c = ' ' || c = '\t' || c = '\n' || c = '\r'

/-- A piece of a quoted text: a character, or a unit of 16 bits that was written as an escape. -/
inductive Piece
  | char (c : Char)
  | unit (n : Nat)
  deriving DecidableEq

def hexValue? (c : Char) : Option Nat :=
  if '0' ≤ c ∧ c ≤ '9' then some (c.toNat - '0'.toNat)
  else if 'a' ≤ c ∧ c ≤ 'f' then some (c.toNat - 'a'.toNat + 10)
  else if 'A' ≤ c ∧ c ≤ 'F' then some (c.toNat - 'A'.toNat + 10)
  else none

def hexUnit? (a b c d : Char) : Option Nat := do
  some (((← hexValue? a) * 16 + (← hexValue? b)) * 256 + (← hexValue? c) * 16 + (← hexValue? d))

def unescape? : Char → Option Char
  | '"' => some '"'
  | '\\' => some '\\'
  | '/' => some '/'
  | 'b' => some '\x08'
  | 'f' => some '\x0c'
  | 'n' => some '\n'
  | 'r' => some '\r'
  | 't' => some '\t'
  | _ => none

def readPieces : List Char → Option (List Piece × List Char)
  | [] => none
  | '"' :: cs => some ([], cs)
  | '\\' :: 'u' :: a :: b :: c :: d :: cs => do
    let unit ← hexUnit? a b c d
    let (pieces, rest) ← readPieces cs
    some (.unit unit :: pieces, rest)
  | '\\' :: letter :: cs => do
    let c ← unescape? letter
    let (pieces, rest) ← readPieces cs
    some (.char c :: pieces, rest)
  | ['\\'] => none
  | c :: cs =>
    if c.toNat < 0x20 then none
    else do
      let (pieces, rest) ← readPieces cs
      some (.char c :: pieces, rest)

/-- The characters that pieces stand for, two units to a character beyond the 16-bit ones; nothing
if a unit lacks its other half. -/
def joinPieces : List Piece → Option (List Char)
  | [] => some []
  | .char c :: ps => (joinPieces ps).map (c :: ·)
  | .unit high :: ps =>
    if 0xD800 ≤ high ∧ high < 0xDC00 then
      match ps with
      | .unit low :: ps =>
        if 0xDC00 ≤ low ∧ low < 0xE000 then
          (joinPieces ps).map
            (Char.ofNat (0x10000 + (high - 0xD800) * 0x400 + (low - 0xDC00)) :: ·)
        else none
      | _ => none
    else if 0xDC00 ≤ high ∧ high < 0xE000 then none
    else (joinPieces ps).map (Char.ofNat high :: ·)

structure Numerals where
  negative : Bool
  whole : List Nat
  fraction : Option (List Nat)
  power : Option Int

def readFraction? : List Char → Option (Option (List Nat) × List Char)
  | '.' :: cs => match Numeral.spanDigits cs with
    | ([], _) => none
    | (ds, rest) => some (some ds, rest)
  | cs => some (none, cs)

def readPowerDigits? (sign : Int) (cs : List Char) : Option (Option Int × List Char) :=
  match Numeral.spanDigits cs with
  | ([], _) => none
  | (ds, rest) => some (some (sign * Numeral.ofDigits ds), rest)

def readPower? : List Char → Option (Option Int × List Char)
  | 'e' :: '-' :: cs | 'E' :: '-' :: cs => readPowerDigits? (-1) cs
  | 'e' :: '+' :: cs | 'E' :: '+' :: cs => readPowerDigits? 1 cs
  | 'e' :: cs | 'E' :: cs => readPowerDigits? 1 cs
  | cs => some (none, cs)

/-- A number without its sign; a leading zero is followed by no other digit. -/
def readMagnitude? (negative : Bool) (cs : List Char) : Option (Numerals × List Char) := do
  let (whole, cs) := Numeral.spanDigits cs
  if whole = [] ∨ (whole.head? = some 0 ∧ whole.length ≠ 1) then none
  else
    let (fraction, cs) ← readFraction? cs
    let (power, cs) ← readPower? cs
    some (⟨negative, whole, fraction, power⟩, cs)

def readNumerals? : List Char → Option (Numerals × List Char)
  | '-' :: cs => readMagnitude? true cs
  | cs => readMagnitude? false cs

/-- The value of a number: whole if it is written so and fits a word, and otherwise a float. The
negative zero is a float. -/
def Numerals.value (n : Numerals) : Json :=
  let whole := Numeral.ofDigits n.whole
  let asFloat :=
    match Decimal.read? n.whole (n.fraction.getD []) (n.power.getD 0) with
    | some x => float (if n.negative then -x else x)
    | none => fault
  match n.fraction, n.power with
  | none, none =>
    if n.negative then (if 1 ≤ whole ∧ FitsWord (-whole) then int (-whole) else asFloat)
    else if whole < UInt64.size then int whole else asFloat
  | _, _ => asFloat

def maxNesting : Nat := 127

def nestedAt (depth : Nat) (j : Json) : Json :=
  if depth ≤ maxNesting then j else fault

def ofPieces (pieces : List Piece) : Json :=
  match joinPieces pieces with
  | some cs => str (String.ofList cs)
  | none => fault

def ofMembers (members : List (List Piece × Json)) : Json :=
  match members.mapM fun m => (joinPieces m.1).map fun cs => (String.ofList cs, m.2) with
  | some ms => obj ms
  | none => fault

mutual

/-- The document at the front of a text, and what follows it. The depth is the number of containers
around it. -/
def readValue : Nat → Nat → List Char → Option (Json × List Char)
  | 0, _, _ => none
  | fuel + 1, depth, cs =>
    match skipSpace cs with
    | 'n' :: 'u' :: 'l' :: 'l' :: cs => some (null, cs)
    | 't' :: 'r' :: 'u' :: 'e' :: cs => some (bool true, cs)
    | 'f' :: 'a' :: 'l' :: 's' :: 'e' :: cs => some (bool false, cs)
    | '"' :: cs => (readPieces cs).map fun r => (ofPieces r.1, r.2)
    | '[' :: cs =>
      match skipSpace cs with
      | ']' :: cs => some (nestedAt (depth + 1) (arr []), cs)
      | cs => (readItems fuel (depth + 1) cs).map fun r => (nestedAt (depth + 1) (arr r.1), r.2)
    | '\x7b' :: cs =>
      match skipSpace cs with
      | '\x7d' :: cs => some (nestedAt (depth + 1) (obj []), cs)
      | cs =>
        (readMembers fuel (depth + 1) cs).map fun r => (nestedAt (depth + 1) (ofMembers r.1), r.2)
    | cs => (readNumerals? cs).map fun r => (r.1.value, r.2)

def readItems : Nat → Nat → List Char → Option (List Json × List Char)
  | 0, _, _ => none
  | fuel + 1, depth, cs => do
    let (item, cs) ← readValue fuel depth cs
    match skipSpace cs with
    | ',' :: cs => do
      let (items, cs) ← readItems fuel depth cs
      some (item :: items, cs)
    | ']' :: cs => some ([item], cs)
    | _ => none

def readMembers : Nat → Nat → List Char → Option (List (List Piece × Json) × List Char)
  | 0, _, _ => none
  | fuel + 1, depth, cs =>
    match skipSpace cs with
    | '"' :: cs => do
      let (name, cs) ← readPieces cs
      match skipSpace cs with
      | ':' :: cs => do
        let (value, cs) ← readValue fuel depth cs
        match skipSpace cs with
        | ',' :: cs => do
          let (members, cs) ← readMembers fuel depth cs
          some ((name, value) :: members, cs)
        | '\x7d' :: cs => some ([(name, value)], cs)
        | _ => none
      | _ => none
    | _ => none

end

def ofChars? (cs : List Char) : Option Json :=
  match readValue (2 * cs.length + 2) 0 cs with
  | some (j, rest) => if (skipSpace rest).isEmpty then some j else none
  | none => none

def ofText? (s : String) : Option Json :=
  ofChars? s.toList

end NetWorth.Json
