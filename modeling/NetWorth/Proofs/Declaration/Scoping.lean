import NetWorth.Declaration
import NetWorth.Value

/-! Which variables a declaration uses and as what, in the order in which it does, and the rules
that they have to follow. A name means the variable of the innermost frame that declares it. -/
namespace NetWorth

def NumExpr.uses : NumExpr → List (String × ValueType)
  | literal _ => []
  | var name => [(name, .number)]
  | negate e => e.uses
  | binary _ lhs rhs => lhs.uses ++ rhs.uses

def MonthExpr.uses : MonthExpr → List (String × ValueType)
  | number e => e.uses
  | name _ => []

def BaseDate.uses : BaseDate → List (String × ValueType)
  | indeterminate | maximum | minimum => []
  | var name => [(name, .date)]
  | construct day month year => day.uses ++ year.uses ++ month.uses

def OffsetExpr.uses (e : OffsetExpr) : List (String × ValueType) :=
  [e.years, e.months, e.weeks, e.days].flatMap fun part => part.elim [] NumExpr.uses

def DateExpr.uses (e : DateExpr) : List (String × ValueType) :=
  e.base.uses ++ e.offset.elim [] OffsetExpr.uses

namespace ValueExpr

def uses : ValueExpr → List (String × ValueType)
  | date e => e.uses
  | number e => e.uses

def type : ValueExpr → ValueType
  | date _ => .date
  | number _ => .number

end ValueExpr

def PossessionDecl.uses : PossessionDecl → List (String × ValueType)
  | asset _ since value rate => since.uses ++ value.uses ++ rate.uses
  | cash _ since value | debt _ since value => since.uses ++ value.uses
  | flow _ start stop amount day initial =>
    day.uses ++ initial.elim [] NumExpr.uses ++ start.uses ++ stop.uses ++ amount.uses

def ObjectiveDecl.uses : ObjectiveDecl → List (String × ValueType)
  | aggregate target date | possession _ target date => target.uses ++ date.uses

/-- The variables that a case uses besides those its own variables do. -/
def CaseDecl.uses (c : CaseDecl) : List (String × ValueType) :=
  c.start.uses ++ c.stop.uses ++ c.possessions.flatMap PossessionDecl.uses ++
    c.objectives.flatMap ObjectiveDecl.uses

/-- The type of the variable that a name means, the frames being given from the innermost out. -/
def resolve (frames : List (List VariableDecl)) (name : String) : Option ValueType :=
  frames.findSome? fun vs => (vs.find? (·.name = name)).map (·.value.type)

def Resolves (frames : List (List VariableDecl)) (uses : List (String × ValueType)) : Prop :=
  ∀ u ∈ uses, resolve frames u.1 = some u.2

/-- Declarations that follow the earlier ones of their frame, inside other frames: each of them uses
what comes before it, and none has a name that its frame has already. -/
def Declares (outer : List (List VariableDecl)) : (earlier vs : List VariableDecl) → Prop
  | _, [] => True
  | earlier, v :: vs =>
    Resolves (earlier :: outer) v.value.uses ∧ v.name ∉ earlier.map (·.name) ∧
      Declares outer (earlier ++ [v]) vs

structure CaseDecl.WellScoped (shared : List VariableDecl) (c : CaseDecl) : Prop where
  locals : Declares [shared] [] c.locals
  body : Resolves [c.locals, shared] c.uses

/-- A scenario follows the rules of scope: its shared variables among themselves, and every case
with its own variables in front of the shared ones. -/
structure ScenarioDecl.WellScoped (d : ScenarioDecl) : Prop where
  shared : Declares [] [] d.shared
  cases : ∀ c ∈ d.cases, c.WellScoped d.shared

instance (frames : List (List VariableDecl)) (uses : List (String × ValueType)) :
    Decidable (Resolves frames uses) :=
  inferInstanceAs (Decidable (∀ u ∈ uses, resolve frames u.1 = some u.2))

instance decidableDeclares (outer : List (List VariableDecl)) :
    (earlier vs : List VariableDecl) → Decidable (Declares outer earlier vs)
  | _, [] => .isTrue trivial
  | earlier, v :: vs =>
    have := decidableDeclares outer (earlier ++ [v]) vs
    inferInstanceAs (Decidable (_ ∧ _ ∧ _))

instance (shared : List VariableDecl) (c : CaseDecl) : Decidable (c.WellScoped shared) :=
  decidable_of_iff (Declares [shared] [] c.locals ∧ Resolves [c.locals, shared] c.uses)
    ⟨fun h => ⟨h.1, h.2⟩, fun h => ⟨h.locals, h.body⟩⟩

instance (d : ScenarioDecl) : Decidable d.WellScoped :=
  decidable_of_iff (Declares [] [] d.shared ∧ ∀ c ∈ d.cases, c.WellScoped d.shared)
    ⟨fun h => ⟨h.1, h.2⟩, fun h => ⟨h.shared, h.cases⟩⟩

-- a variable of the case hides the shared one of its name
example : ScenarioDecl.WellScoped
    { shared := [⟨"day", .number (.literal 1)⟩]
      cases := [
        { name := "base"
          owner := "Ada"
          start := { base := .var "day" }
          stop := { base := .maximum }
          locals := [⟨"day", .date { base := .construct (.var "day") (.name "may") (.var "day") }⟩] }]
    } := by decide

section
variable {frames outer : List (List VariableDecl)} {inner : List VariableDecl} {v : VariableDecl}
  {us ws : List (String × ValueType)} {name : String} {type : ValueType}

@[simp] theorem resolves_nil : Resolves frames [] := fun _ h => by cases h

@[simp] theorem resolves_singleton : Resolves frames [(name, type)] ↔
    resolve frames name = some type :=
  List.forall_mem_singleton

@[simp] theorem resolves_append :
    Resolves frames (us ++ ws) ↔ Resolves frames us ∧ Resolves frames ws :=
  List.forall_mem_append

@[simp] theorem resolves_flatMap {α : Type} {xs : List α} {f : α → List (String × ValueType)} :
    Resolves frames (xs.flatMap f) ↔ ∀ x ∈ xs, Resolves frames (f x) :=
  List.forall_mem_flatMap

/-- A new variable of a frame is the one that its name means, if it is new there. -/
theorem resolve_concat (h : v.name ∉ inner.map (·.name)) :
    resolve ((inner ++ [v]) :: outer) name =
      if name = v.name then some v.value.type else resolve (inner :: outer) name := by
  simp only [resolve, List.findSome?_cons, List.find?_append]
  by_cases hn : name = v.name
  · subst hn
    have hfree : inner.find? (·.name = v.name) = none := by
      refine List.find?_eq_none.mpr fun w hw he => h ?_
      exact List.mem_map.mpr ⟨w, hw, of_decide_eq_true he⟩
    simp [hfree]
  · simp [hn, Ne.symm hn]

end
end NetWorth
