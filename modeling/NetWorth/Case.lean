import NetWorth.NameMap
import NetWorth.Objective

/-! Cases, each a named estate with the period and the objectives that belong to it, and the sets of
cases of one scenario. -/
namespace NetWorth

/-- A name that is not empty and has no white space at its ends. -/
def IsProperName (name : String) : Prop :=
  trimmed name = name ∧ name ≠ ""

instance (name : String) : Decidable (IsProperName name) := inferInstanceAs (Decidable (_ ∧ _))

/-- A named estate, the last day of its period, and what has to be reached. -/
structure Case where
  name : String
  estate : Estate
  stop : Date
  objectives : List Objective
  proper : IsProperName name

/-- The first day of the period of a case is that of its estate. -/
def Case.start (c : Case) : Date := c.estate.date

structure CaseDraft where
  name : Option String := none
  estate : Option Estate := none
  stop : Option Date := none
  objectives : List Objective := []

namespace CaseDraft

/-- The case of a draft. It needs a proper name and an estate; its period ends on its first day
unless another day is given. -/
def build (d : CaseDraft) : Except ValidationError Case :=
  match d.name with
  | none => .error (.missingField "name")
  | some name =>
    if hb : trimmed name = "" then .error (.missingField "name")
    else if ht : trimmed name = name then
      match d.estate with
      | none => .error (.missingField "patrimoine")
      | some estate =>
        .ok ⟨name, estate, d.stop.getD estate.date, d.objectives, ht, fun hn => hb (ht.trans hn)⟩
    else .error (.untrimmedName name)

end CaseDraft

structure CaseSet where
  byName : NameMap Case
  keyed : ∀ e ∈ byName.entries, e.1 = e.2.name

namespace CaseSet

def empty : CaseSet := ⟨.empty, by simp [NameMap.empty]⟩

def cases (s : CaseSet) : List Case := s.byName.values

def names (s : CaseSet) : List String := s.byName.names

def size (s : CaseSet) : Nat := s.cases.length

def get? (s : CaseSet) (name : String) : Option Case := s.byName.find? name

/-- The first case whose estate has a name. -/
def find? (s : CaseSet) (estate : String) : Option Case :=
  s.cases.find? fun c => c.estate.name = estate

def require (s : CaseSet) (estate : String) : Except ReconcileError Case :=
  match s.find? estate with
  | some c => .ok c
  | none => .error (.missingCase estate)

def add (s : CaseSet) (c : Case) : Except ValidationError CaseSet :=
  if (s.get? c.name).isSome then .error (.duplicateCase c.name)
  else .ok ⟨s.byName.insert c.name c, fun e he => by
    rcases NameMap.mem_insert he with rfl | he
    · rfl
    · exact s.keyed e he⟩

def ofList (cs : List Case) : Except ValidationError CaseSet :=
  cs.foldlM add empty

end CaseSet

end NetWorth
