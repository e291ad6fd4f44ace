import NetWorth.Decimal.Notation

/-! Documents as trees. The members of an object keep their order and may repeat, and whole numbers
stay apart from floats. -/
namespace NetWorth

inductive Json
  | null
  | bool (value : Bool)
  | int (value : Int)
  | float (value : Float)
  | str (value : String)
  | arr (items : List Json)
  | obj (members : List (String × Json))
  /-- A part of a text that is well formed but stands for no value: a number that is too large, half
  of a character, or a node that lies too deep. It is harmless only where nobody looks at it. -/
  | fault

namespace Json

instance : Inhabited Json := ⟨null⟩

mutual

def depth : Json → Nat
  | arr items => depthOfItems items + 1
  | obj members => depthOfMembers members + 1
  | _ => 1

def depthOfItems : List Json → Nat
  | [] => 0
  | j :: js => max j.depth (depthOfItems js)

def depthOfMembers : List (String × Json) → Nat
  | [] => 0
  | m :: ms => max m.2.depth (depthOfMembers ms)

end

mutual

/-- Every part of a sound tree stands for a value. -/
def sound : Json → Bool
  | arr items => soundItems items
  | obj members => soundMembers members
  | fault => false
  | _ => true

def soundItems : List Json → Bool
  | [] => true
  | j :: js => j.sound && soundItems js

def soundMembers : List (String × Json) → Bool
  | [] => true
  | m :: ms => m.2.sound && soundMembers ms

end

/-- A float as a node; documents have no word for one that is not finite. -/
def ofFloat (x : Float) : Json :=
  if x.isFinite then float x else null

def ofOption {α : Type} (encode : α → Json) : Option α → Json
  | some a => encode a
  | none => null

def ofList {α : Type} (encode : α → Json) (xs : List α) : Json :=
  arr (xs.map encode)

def string? : Json → Option String
  | str s => some s
  | _ => none

def bool? : Json → Option Bool
  | bool b => some b
  | _ => none

/-- The whole number of a node that is one; a float is none even if it has no fractional part. -/
def int? : Json → Option Int
  | int n => some n
  | _ => none

/-- The number of a node as a float; whole numbers go to the nearest one. -/
def float? : Json → Option Float
  | int n => some (nearestFloat n)
  | float x => some x
  | _ => none

def signedWord? (j : Json) : Option Int64 :=
  j.int?.bind NetWorth.signedWord?

def unsignedWord? (j : Json) : Option UInt64 :=
  j.int?.bind NetWorth.unsignedWord?

def list? {α : Type} (decode : Json → Option α) : Json → Option (List α)
  | arr items => items.mapM decode
  | _ => none

def nullable? {α : Type} (decode : Json → Option α) : Json → Option (Option α)
  | null => some none
  | j => (decode j).map some

end Json

end NetWorth
