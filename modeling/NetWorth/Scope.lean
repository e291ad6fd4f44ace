import NetWorth.Error

/-! Variables in nested frames. Names are declared in the innermost frame and looked up from the
innermost frame outward. -/
namespace NetWorth

/-- The variables of one frame, the latest first. -/
abbrev Frame := List (String × Value)

/-- The open frames; there is always at least one. -/
structure Scope where
  innermost : Frame
  outer : List Frame
  deriving DecidableEq

namespace Scope

def empty : Scope := ⟨[], []⟩

def frames (s : Scope) : List Frame := s.innermost :: s.outer

def depth (s : Scope) : Nat := s.frames.length

def push (s : Scope) : Scope := ⟨[], s.frames⟩

/-- The innermost frame is closed, unless it is the only one. -/
def pop (s : Scope) : Scope :=
  match s.outer with
  | [] => s
  | frame :: outer => ⟨frame, outer⟩

def lookup (s : Scope) (name : String) : Option Value :=
  s.frames.findSome? (·.lookup name)

def hasInnermost (s : Scope) (name : String) : Bool :=
  (s.innermost.lookup name).isSome

/-- A variable is added to the innermost frame, unless that has one of its name already. The scope
comes back in either case. -/
def declare (s : Scope) (name : String) (value : Value) : Scope × Except EvalError Unit :=
  if s.hasInnermost name then (s, .error (.duplicateVariable name))
  else (⟨(name, value) :: s.innermost, s.outer⟩, .ok ())

section
variable {s : Scope} {name : String} {value : Value}

theorem declare_of_hasInnermost (h : s.hasInnermost name) :
    s.declare name value = (s, .error (.duplicateVariable name)) := if_pos h

theorem declare_of_not_hasInnermost (h : ¬ s.hasInnermost name) :
    s.declare name value = (⟨(name, value) :: s.innermost, s.outer⟩, .ok ()) := if_neg h

/-- A name can be declared exactly once in a frame, whatever frames further out have. -/
theorem declare_succeeds_iff : (s.declare name value).2 = .ok () ↔ ¬ s.hasInnermost name := by
  by_cases h : s.hasInnermost name
  · simp [declare_of_hasInnermost h, h]
  · simp [declare_of_not_hasInnermost h, h]

/-- The only reason to refuse a name is that the innermost frame has it. -/
theorem declare_refused_iff {e : EvalError} :
    (s.declare name value).2 = .error e ↔ s.hasInnermost name ∧ e = .duplicateVariable name := by
  by_cases h : s.hasInnermost name
  · simp [declare_of_hasInnermost h, h, eq_comm]
  · simp [declare_of_not_hasInnermost h, h]

/-- A name that is taken changes nothing. -/
theorem declare_of_refused {e : EvalError} (h : (s.declare name value).2 = .error e) :
    (s.declare name value).1 = s := by
  rw [declare_of_hasInnermost (declare_refused_iff.mp h).1]

theorem outer_declare (s : Scope) (name : String) (value : Value) :
    (s.declare name value).1.outer = s.outer := by
  unfold declare
  split <;> rfl

/-- No name but the declared one is touched, whether it is taken or not. -/
theorem lookup_declare_of_ne {other : String} (h : other ≠ name) :
    (s.declare name value).1.lookup other = s.lookup other := by
  unfold declare
  split
  · rfl
  · simp only [lookup, frames, List.findSome?_cons, List.lookup_cons, beq_eq_false_iff_ne.2 h]

/-- A declared variable is found under its name. -/
theorem lookup_declare (h : (s.declare name value).2 = .ok ()) (other : String) :
    (s.declare name value).1.lookup other =
      if other = name then some value else s.lookup other := by
  split
  · rename_i ho
    subst ho
    simp [declare_of_not_hasInnermost (declare_succeeds_iff.mp h), lookup, frames]
  · rename_i ho
    exact lookup_declare_of_ne ho

end

def number (s : Scope) (name : String) : Except EvalError Float :=
  match s.lookup name with
  | none => .error (.undefinedVariable name)
  | some (.number x) => .ok x
  | some (.date _) => .error (.typeMismatch name .number .date)

def date (s : Scope) (name : String) : Except EvalError Date :=
  match s.lookup name with
  | none => .error (.undefinedVariable name)
  | some (.date d) => .ok d
  | some (.number _) => .error (.typeMismatch name .date .number)

def get (s : Scope) (name : String) : ValueType → Except EvalError Value
  | .date => (s.date name).map .date
  | .number => (s.number name).map .number

end Scope

end NetWorth
