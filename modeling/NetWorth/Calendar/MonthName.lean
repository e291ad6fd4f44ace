import NetWorth.Calendar.Fault

/-! The French names of the months, in which neither case nor accents count. -/
namespace NetWorth

/-- A letter without its accent and in lower case. Only the letters and accents of French month
names are folded, since no other character can occur in one. -/
def foldLetter (c : Char) : Char :=
  if c ∈ ['é', 'è', 'ê', 'É', 'È', 'Ê'] then 'e'
  else if c ∈ ['û', 'ù', 'Û', 'Ù'] then 'u'
  else if c ∈ ['ô', 'Ô'] then 'o'
  else if c ∈ ['à', 'â', 'À', 'Â'] then 'a'
  else c.toLower

def monthNames : List String :=
  ["janvier", "fevrier", "mars", "avril", "mai", "juin", "juillet", "aout", "septembre", "octobre",
   "novembre", "decembre"]

def monthOfName (name : String) : Except DateFault Nat :=
  let folded := String.ofList ((trimBlanks name.toList).map foldLetter)
  match monthNames.findIdx? (· = folded) with
  | some i => .ok (i + 1)
  | none => .error (.unknownMonthName name)

end NetWorth
