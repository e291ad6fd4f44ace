import NetWorth.Proofs.Declaration.Frame

/-! Moves on a scope, one after another. A move that is refused changes nothing, and what is done
between opening a frame and closing it leaves no trace. -/
namespace NetWorth

inductive ScopeMove
  | push
  | pop
  | bind (name : String) (value : Value)
  | declare (decl : VariableDecl)

namespace Scope

/-- The scope after a move, and whether the move was refused. -/
def move (s : Scope) : ScopeMove → Scope × Except EvalError Unit
  | .push => (s.push, .ok ())
  | .pop => (s.pop, .ok ())
  | .bind name value => s.declare name value
  | .declare d =>
    let (s, declared) := d.declare s
    (s, declared.map fun _ => ())

def run (s : Scope) : List ScopeMove → Scope
  | [] => s
  | m :: ms => (s.move m).1.run ms

theorem run_append (s : Scope) (ms ns : List ScopeMove) :
    s.run (ms ++ ns) = (s.run ms).run ns := by
  induction ms generalizing s with
  | nil => rfl
  | cons m ms ih => exact ih _

/-- A declared variable is bound to what its expression evaluates to. -/
theorem move_declare {s : Scope} {d : VariableDecl} {value : Value}
    (h : d.value.eval s = .ok value) : s.move (.declare d) = s.move (.bind d.name value) := by
  simp only [move, VariableDecl.declare_of_eval h]
  cases hs : s.declare d.name value with
  | mk t result => cases result <;> rfl

theorem move_declare_of_error {s : Scope} {d : VariableDecl} {e : EvalError}
    (h : d.value.eval s = .error e) : s.move (.declare d) = (s, .error e) := by
  rw [move, VariableDecl.declare_of_error h]
  rfl

/-- A move that is refused leaves the scope as it was. -/
theorem move_of_refused {s : Scope} {m : ScopeMove} {e : EvalError}
    (h : (s.move m).2 = .error e) : (s.move m).1 = s := by
  cases m with
  | push => cases h
  | pop => cases h
  | bind name value => exact declare_of_refused h
  | declare d => exact VariableDecl.declare_of_failed (Attempt.map_eq_error_iff.mp h)

end Scope

/-- Moves with a closing of a frame for every opening, in this order. -/
inductive ScopeMove.Balanced : List ScopeMove → Prop
  | nil : Balanced []
  | bind (name : String) (value : Value) {ms : List ScopeMove} (h : Balanced ms) :
      Balanced (.bind name value :: ms)
  | declare (d : VariableDecl) {ms : List ScopeMove} (h : Balanced ms) :
      Balanced (.declare d :: ms)
  | frame {inner ms : List ScopeMove} (hi : Balanced inner) (h : Balanced ms) :
      Balanced (.push :: inner ++ .pop :: ms)

namespace Scope

/-- A binding is added to the innermost frame unless that has one of its name. -/
theorem lookup_innermost_declare (s : Scope) (name : String) (value : Value) (other : String) :
    (s.declare name value).1.innermost.lookup other =
      if other = name then (s.innermost.lookup other).or (some value)
      else s.innermost.lookup other := by
  by_cases h : s.hasInnermost name
  · obtain ⟨bound, hbound⟩ := Option.isSome_iff_exists.mp h
    rw [declare_of_hasInnermost h]
    split
    · rename_i ho
      rw [ho, hbound, Option.some_or]
    · rfl
  · have hbound : s.innermost.lookup name = none := by
      rwa [hasInnermost, Option.not_isSome_iff_eq_none] at h
    rw [declare_of_not_hasInnermost h, List.lookup_cons]
    by_cases ho : other = name
    · rw [if_pos ho, beq_iff_eq.mpr ho, ho, hbound, Option.none_or]
    · rw [if_neg ho, beq_eq_false_iff_ne.mpr ho]

theorem run_push_pop_of_outer {s : Scope} {ms : List ScopeMove}
    (h : (s.push.run ms).outer = s.push.outer) : s.run (.push :: ms ++ [.pop]) = s := by
  rw [run_append, run, run, run, move, move, pop, h]
  rfl

/-- Every frame but the innermost is as it was. -/
theorem outer_run_of_balanced {ms : List ScopeMove} (h : ScopeMove.Balanced ms) (s : Scope) :
    (s.run ms).outer = s.outer := by
  induction h generalizing s with
  | nil => rfl
  | bind name value _ ih => rw [run, ih, move, outer_declare]
  | declare d _ ih => rw [run, ih, move, d.outer_declare]
  | @frame inner ms _ _ ihi ih =>
    -- the frame is closed again before the moves that follow it
    rw [List.append_cons, run_append, run_push_pop_of_outer (ihi _), ih]

/-- A frame that is opened and closed again leaves nothing behind. -/
theorem run_push_pop {ms : List ScopeMove} (h : ScopeMove.Balanced ms) (s : Scope) :
    s.run (.push :: ms ++ [.pop]) = s :=
  run_push_pop_of_outer (outer_run_of_balanced h _)

end Scope

end NetWorth
