import NetWorth.Proofs.Case
import NetWorth.Proofs.Declaration.Frame
import NetWorth.Proofs.Expr.Lookup

/-! Shared variables against variables of a case. A scope can be flattened to one frame, which finds
the same; only names that outer frames have cannot be declared there again. So a case that takes the
shared variables for its own is built to the same, or fails for the same reason. -/
namespace NetWorth

open Attempt

namespace Scope

def flat (s : Scope) : Scope := ⟨s.frames.flatten, []⟩

private theorem lookup_flatten (frames : List Frame) (name : String) :
    frames.flatten.lookup name = frames.findSome? (·.lookup name) := by
  induction frames with
  | nil => rfl
  | cons frame frames ih =>
    rw [List.flatten_cons, List.lookup_append, ih, List.findSome?_cons]
    cases frame.lookup name <;> rfl

/-- Putting all frames into one changes no lookup. -/
theorem lookup_flat (s : Scope) (name : String) : s.flat.lookup name = s.lookup name := by
  rw [lookup, lookup, flat, frames, List.findSome?_singleton]
  exact lookup_flatten s.frames name

theorem flat_agrees (s : Scope) : s.flat.Agrees s := s.lookup_flat

theorem flat_push {s : Scope} (h : s.outer = []) : s.push.flat = s := by
  cases s with
  | mk innermost outer =>
    subst h
    simp [flat, push, frames]

def FreeOutside (s : Scope) (name : String) : Prop := s.outer.findSome? (·.lookup name) = none

theorem hasInnermost_flat {s : Scope} {name : String} (h : s.FreeOutside name) :
    s.flat.hasInnermost name = s.hasInnermost name := by
  rw [hasInnermost, hasInnermost, flat, lookup_flatten, frames, List.findSome?_cons, h]
  cases s.innermost.lookup name <;> rfl

/-- A name that only the innermost frame may have is declared alike in both. -/
theorem declare_flat {s : Scope} {name : String} (h : s.FreeOutside name) (value : Value) :
    s.flat.declare name value = ((s.declare name value).1.flat, (s.declare name value).2) := by
  rw [declare, declare, hasInnermost_flat h]
  split <;> rfl

end Scope

theorem VariableDecl.declare_flat {s : Scope} {v : VariableDecl} (h : s.FreeOutside v.name) :
    v.declare s.flat = ((v.declare s).1.flat, (v.declare s).2) := by
  rw [declare, declare, v.value.eval_congr s.flat_agrees]
  cases v.value.eval s with
  | error e => rfl
  | ok value => simp only [Scope.declare_flat h]

/-- Any number of such variables is declared alike in both as well. -/
theorem declareAll_flat {s : Scope} {vs : List VariableDecl}
    (h : ∀ v ∈ vs, s.FreeOutside v.name) :
    declareAll s.flat vs = ((declareAll s vs).1.flat, (declareAll s vs).2) := by
  induction vs generalizing s with
  | nil => rfl
  | cons v vs ih =>
    obtain ⟨hv, hvs⟩ := List.forall_mem_cons.mp h
    have hflat := VariableDecl.declare_flat hv
    cases hd : (v.declare s).2 with
    | error e =>
      rw [declareAll_of_error hd, declareAll_of_error ((congrArg Prod.snd hflat).trans hd)]
    | ok value =>
      rw [declareAll_of_ok hd, declareAll_of_ok ((congrArg Prod.snd hflat).trans hd), hflat]
      exact ih fun w hw => by rw [Scope.FreeOutside, v.outer_declare]; exact hvs w hw

theorem declareAll_append (s : Scope) (vs ws : List VariableDecl) :
    declareAll s (vs ++ ws) = match declareAll s vs with
      | (t, .ok ()) => declareAll t ws
      | (t, .error e) => (t, .error e) := by
  induction vs generalizing s with
  | nil => rfl
  | cons v vs ih =>
    rw [List.cons_append]
    cases hd : (v.declare s).2 with
    | error e => rw [declareAll_of_error hd, declareAll_of_error hd]
    | ok value => rw [declareAll_of_ok hd, declareAll_of_ok hd, ih]

/-- Declarations add no other names than their own. -/
theorem lookup_declareAll_of_not_mem {s : Scope} {vs : List VariableDecl} {name : String}
    (h : name ∉ vs.map (·.name)) : (declareAll s vs).1.lookup name = s.lookup name := by
  induction vs generalizing s with
  | nil => rfl
  | cons v vs ih =>
    rw [List.map_cons, List.mem_cons, not_or] at h
    cases hd : (v.declare s).2 with
    | error e => rw [declareAll_of_error hd]
    | ok value => rw [declareAll_of_ok hd, ih h.2, VariableDecl.lookup_declare_of_ne h.1]

section
variable {s t : Scope}

theorem PossessionDecl.build_congr (h : s.Agrees t) (p : PossessionDecl) :
    p.build s = p.build t := by
  have hdraft : p.draft s = p.draft t := by
    cases p <;>
      simp only [draft, DateExpr.eval_congr h, NumExpr.evalAmount_congr h, NumExpr.eval_congr h]
  rw [build, build, hdraft]

theorem ObjectiveDecl.build_congr (h : s.Agrees t) (o : ObjectiveDecl) :
    o.build s = o.build t := by
  cases o <;> simp only [build, DateExpr.eval_congr h, NumExpr.evalAmount_congr h]

/-- A case is built by what the scope finds, not by the frames it is found in. -/
theorem CaseDecl.buildIn_congr (h : s.Agrees t) (c : CaseDecl) : c.buildIn s = c.buildIn t := by
  have hobjectives : ObjectiveDecl.build s = ObjectiveDecl.build t :=
    funext (ObjectiveDecl.build_congr h)
  simp only [buildIn, DateExpr.eval_congr h, PossessionDecl.build_congr h, hobjectives]

end

namespace CaseDecl

/-- The case with more variables, declared before its own. -/
def inlining (vs : List VariableDecl) (c : CaseDecl) : CaseDecl :=
  { c with locals := vs ++ c.locals }

/-- Inlined variables are declared first, and then the case goes on as it would. -/
theorem inlining_build (vs : List VariableDecl) (c : CaseDecl) (s : Scope) :
    ((c.inlining vs).build s).2 = (declareAll s vs).2.mapError .evaluation >>= fun _ =>
      (c.build (declareAll s vs).1).2 := by
  rw [build_eq, build_eq, inlining, declareAll_append]
  cases declareAll s vs with
  | mk t result => cases result <;> rfl

/-- A frame of its own is of no use to a case whose variables are new to a scope of one frame. -/
theorem build_eq_buildApart {s : Scope} {c : CaseDecl} (houter : s.outer = [])
    (h : ∀ v ∈ c.locals, s.lookup v.name = none) : (c.build s).2 = c.buildApart s := by
  have hflat : declareAll s c.locals =
      ((declareAll s.push c.locals).1.flat, (declareAll s.push c.locals).2) := by
    rw [← declareAll_flat h, Scope.flat_push houter]
  rw [buildApart, build_eq, build_eq, hflat]
  exact bind_congr fun _ => c.buildIn_congr (Scope.flat_agrees _)

/-- A case with inlined variables is built like one that shares them. -/
theorem buildAlone_inlining {vs : List VariableDecl} {c : CaseDecl}
    (h : ∀ v ∈ c.locals, v.name ∉ vs.map (·.name)) :
    (c.inlining vs).buildAlone = (declareAll .empty vs).2.mapError .evaluation >>= fun _ =>
      c.buildApart (declareAll .empty vs).1 := by
  have houter : (declareAll .empty vs).1.outer = [] := outer_declareAll .empty vs
  rw [buildAlone, inlining_build, build_eq_buildApart houter]
  intro v hv
  rw [lookup_declareAll_of_not_mem (h v hv)]
  rfl

end CaseDecl

theorem CaseSet.exists_ofList_singleton (k : Case) :
    ∃ set, CaseSet.ofList [k] = .ok set ∧ set.cases = [k] := ⟨_, rfl, rfl⟩

/-- Sharing variables with a case is the same as declaring them in it, before its own: both build
the one case, or both fail with one error. -/
theorem ScenarioDecl.build_inlining {vs : List VariableDecl} {c : CaseDecl}
    (h : ∀ v ∈ c.locals, v.name ∉ vs.map (·.name)) :
    (∃ k set, (c.inlining vs).buildAlone = .ok k ∧ build ⟨vs, [c]⟩ = .ok set ∧ set.cases = [k]) ∨
      ∃ e, (c.inlining vs).buildAlone = .error e ∧ build ⟨vs, [c]⟩ = .error e := by
  rw [CaseDecl.buildAlone_inlining h, build_eq]
  cases (declareAll .empty vs).2 with
  | error e => exact .inr ⟨.evaluation e, rfl, rfl⟩
  | ok _ =>
    simp only [mapError_ok, List.mapM_cons, List.mapM_nil]
    cases hk : c.buildApart (declareAll .empty vs).1 with
    | error e => exact .inr ⟨e, rfl, rfl⟩
    | ok k =>
      obtain ⟨set, hset, hcases⟩ := CaseSet.exists_ofList_singleton k
      refine .inl ⟨k, set, rfl, ?_, hcases⟩
      change (CaseSet.ofList [k]).mapError .validation = .ok set
      rw [hset, mapError_ok]

def wage : CaseDecl where
  name := "wage"
  owner := "Ada"
  start := { base := .var "start" }
  stop := { base := .var "start", offset := some { years := some (.var "years") } }
  locals := [⟨"net", .number (.binary .sub (.var "gross") (.ofInt 500))⟩]
  possessions := [.cash "purse" { base := .var "start" } (.var "net")]

def wageBasis : List VariableDecl :=
  [⟨"start", .date (.ofParts 2021 1 1)⟩, ⟨"years", .number (.ofInt 1)⟩,
    ⟨"gross", .number (.ofInt 2500)⟩]

theorem ScenarioDecl.build_inlining_wage : (∀ v ∈ wage.locals, v.name ∉ wageBasis.map (·.name)) ∧
    ∃ k set, (wage.inlining wageBasis).buildAlone = .ok k ∧
      build ⟨wageBasis, [wage]⟩ = .ok set ∧ set.cases = [k] := by
  have hnew : ∀ v ∈ wage.locals, v.name ∉ wageBasis.map (·.name) := by decide
  refine ⟨hnew, ?_⟩
  rcases build_inlining hnew with h | ⟨e, he, _⟩
  · exact h
  · have hk : ∃ k, (wage.inlining wageBasis).buildAlone = .ok k := ⟨_, rfl⟩
    obtain ⟨k, hk⟩ := hk
    rw [hk] at he
    cases he

end NetWorth
