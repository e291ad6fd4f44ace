import NetWorth.Json.Tree

/-! The text of a document, without any space between its parts. -/
namespace NetWorth.Json

def hexDigit (n : Nat) : Char :=
  if n < 10 then Char.ofNat ('0'.toNat + n) else Char.ofNat ('a'.toNat + (n - 10))

def escapeLetters : List (Char × Char) :=
  [('"', '"'), ('\\', '\\'), ('\x08', 'b'), ('\x0c', 'f'), ('\n', 'n'), ('\r', 'r'), ('\t', 't')]

/-- A character inside a quoted text: quotes, backslashes and control characters are escaped. -/
def escape (c : Char) : List Char :=
  match escapeLetters.lookup c with
  | some letter => ['\\', letter]
  | none =>
    if c.toNat < 0x20 then
      ['\\', 'u', '0', '0', hexDigit (c.toNat / 16), hexDigit (c.toNat % 16)]
    else [c]

def quote (s : String) : List Char :=
  '"' :: s.toList.flatMap escape ++ ['"']

mutual

def chars : Json → List Char
  | null => ['n', 'u', 'l', 'l']
  | bool true => ['t', 'r', 'u', 'e']
  | bool false => ['f', 'a', 'l', 's', 'e']
  | int n => Numeral.ofInt n
  | float x => (Decimal.document? x).getD ['n', 'u', 'l', 'l']
  | str s => quote s
  | arr items => '[' :: charsOfItems items ++ [']']
  | obj members => '\x7b' :: charsOfMembers members ++ ['\x7d']
  | fault => ['n', 'u', 'l', 'l']

def charsOfItems : List Json → List Char
  | [] => []
  | [j] => j.chars
  | j :: js => j.chars ++ ',' :: charsOfItems js

def charsOfMembers : List (String × Json) → List Char
  | [] => []
  | [m] => quote m.1 ++ ':' :: m.2.chars
  | m :: ms => quote m.1 ++ ':' :: m.2.chars ++ ',' :: charsOfMembers ms

end

def text (j : Json) : String :=
  String.ofList j.chars

end NetWorth.Json
