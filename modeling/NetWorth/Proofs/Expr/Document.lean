import NetWorth.Expr.Document
import NetWorth.Proofs.Json.Restoring

/-! Expressions in documents. An expression is read back as it was written, whatever its shape,
unless one of its literals is not finite: documents have no word for such a number. -/
namespace NetWorth

def AllFinite (xs : List Float) : Prop := ∀ x ∈ xs, x.isFinite = true

section
variable {xs ys : List Float}

@[simp] theorem allFinite_nil : AllFinite [] := fun _ h => by cases h

@[simp] theorem allFinite_singleton {x : Float} : AllFinite [x] ↔ x.isFinite = true :=
  List.forall_mem_singleton

@[simp] theorem allFinite_append : AllFinite (xs ++ ys) ↔ AllFinite xs ∧ AllFinite ys :=
  List.forall_mem_append

@[simp] theorem allFinite_flatMap {α : Type} {as : List α} {f : α → List Float} :
    AllFinite (as.flatMap f) ↔ ∀ a ∈ as, AllFinite (f a) :=
  List.forall_mem_flatMap

@[simp] theorem allFinite_elim {α : Type} {x : Option α} {f : α → List Float} :
    AllFinite (x.elim [] f) ↔ ∀ a ∈ x, AllFinite (f a) := by
  cases x <;> simp

end

open Json

/-- An operation is read back from its name. -/
theorem BinaryOp.ofName?_name (op : BinaryOp) :
    ((str op.name).choice? true ["add", "sub", "mul", "div"]).bind ofName? = some op := by
  cases op <;> decide

namespace NumExpr

/-- The numbers that an expression writes out. -/
def literals : NumExpr → List Float
  | literal x => [x]
  | var _ => []
  | negate e => e.literals
  | binary _ lhs rhs => lhs.literals ++ rhs.literals

@[simp] theorem sound_toJson (e : NumExpr) : e.toJson.sound = true := by
  induction e with
  | literal x => simp [toJson]
  | var name => rfl
  | negate e ih => simp [toJson, ih]
  | binary op lhs rhs ihl ihr => simp [toJson, ihl, ihr]

theorem toJson_ne_null (e : NumExpr) : e.toJson ≠ null := by
  cases e <;> exact Json.noConfusion

section
variable {fuel : Nat} {inKind : Bool} {e lhs rhs : NumExpr}

theorem read_literal (x : Float) :
    read (fuel + 1) inKind (literal x).toJson = (ofFloat x).float?.map literal := by
  simp [read, toJson, kinds, kind?_ofKind, record?_obj]

theorem read_var (name : String) :
    read (fuel + 1) inKind (var name).toJson = some (var name) := by
  simp [read, toJson, kinds, kind?_ofKind, record?_obj]

theorem read_negate :
    read (fuel + 1) inKind (negate e).toJson = (read fuel true e.toJson).map negate := by
  simp [read, toJson, kinds, kind?_ofKind, record?_obj]

/-- Reading an operation reads its two sides. -/
theorem read_binary (op : BinaryOp) :
    read (fuel + 1) inKind (binary op lhs rhs).toJson =
      (read fuel true lhs.toJson).bind fun lhs => (read fuel true rhs.toJson).bind fun rhs =>
        some (binary op lhs rhs) := by
  simp [read, toJson, kinds, kind?_ofKind, record?_obj, BinaryOp.ofName?_name]

/-- Looking as deep as the node is enough. -/
theorem read_toJson (h : e.toJson.depth ≤ fuel) :
    Restores (AllFinite e.literals) e (read fuel inKind e.toJson) := by
  -- the parts of a node are less deep than the node itself
  induction fuel generalizing inKind e with
  | zero => exact absurd h (Nat.not_le_of_lt e.toJson.depth_pos)
  | succ fuel ih =>
    cases e with
    | literal x =>
      rw [read_literal]
      exact ((restores_ofFloat x).map literal).of_iff allFinite_singleton.symm
    | var name =>
      rw [read_var]
      exact (Restores.some _).of_iff (by simp [literals])
    | negate e =>
      have he : e.toJson.depth ≤ fuel := by
        simp only [toJson, ofKind, depth, depthOfMembers] at h
        omega
      rw [read_negate]
      exact (ih he).map negate
    | binary op lhs rhs =>
      have hsides : lhs.toJson.depth ≤ fuel ∧ rhs.toJson.depth ≤ fuel := by
        simp only [toJson, ofKind, depth, depthOfMembers] at h
        omega
      rw [read_binary]
      exact Restores.of_iff ((ih hsides.1).bind ((ih hsides.2).bind (.some _)))
        (by simp [literals])

theorem restores_toJson (e : NumExpr) :
    Restores (AllFinite e.literals) e (ofJson? inKind e.toJson) := read_toJson (Nat.le_refl _)

/-- A part that may be absent is either read back or not there. -/
theorem restores_ofOption (part : Option NumExpr) :
    Restores (AllFinite (part.elim [] literals)) part
      ((ofOption toJson part).nullable? (ofJson? inKind)) :=
  (Restores.nullable restores_toJson toJson_ne_null part).of_iff allFinite_elim.symm

end
end NumExpr

namespace MonthExpr

def literals : MonthExpr → List Float
  | number e => e.literals
  | name _ => []

@[simp] theorem sound_toJson (e : MonthExpr) : e.toJson.sound = true := by
  cases e <;> simp [toJson]

theorem restores_toJson (e : MonthExpr) : Restores (AllFinite e.literals) e (ofJson? e.toJson) := by
  cases e with
  | number e => exact e.restores_toJson.map number
  | name text => exact (Restores.some _).of_iff (by simp [literals])

end MonthExpr

namespace BaseDate

def literals : BaseDate → List Float
  | indeterminate | maximum | minimum | var _ => []
  | construct day month year => day.literals ++ month.literals ++ year.literals

@[simp] theorem sound_toJson (e : BaseDate) : e.toJson.sound = true := by
  cases e <;> simp [toJson]

theorem restores_toJson (e : BaseDate) (inKind : Bool) :
    Restores (AllFinite e.literals) e (ofJson? inKind e.toJson) := by
  cases e with
  | indeterminate | maximum | minimum =>
    refine Restores.of_iff (p := True) ⟨fun _ => ?_, by simp⟩ (by simp [literals])
    simp [ofJson?, toJson, kinds, kind?_ofKind, fieldless]
  | var name =>
    refine Restores.of_iff (p := True) ⟨fun _ => ?_, by simp⟩ (by simp [literals])
    simp [ofJson?, toJson, kinds, kind?_ofKind, record?_obj]
  | construct day month year =>
    have hread : ofJson? inKind (construct day month year).toJson =
        (NumExpr.ofJson? true day.toJson).bind fun day => (MonthExpr.ofJson? month.toJson).bind
          fun month => (NumExpr.ofJson? true year.toJson).bind fun year =>
            some (construct day month year) := by
      simp [ofJson?, toJson, kinds, kind?_ofKind, record?_obj]
    rw [hread]
    exact Restores.of_iff (day.restores_toJson.bind (month.restores_toJson.bind
      (year.restores_toJson.bind (.some _)))) (by simp [literals])

end BaseDate

namespace OffsetExpr

def literals (e : OffsetExpr) : List Float :=
  [e.years, e.months, e.weeks, e.days].flatMap fun part => part.elim [] NumExpr.literals

@[simp] theorem sound_toJson (e : OffsetExpr) : e.toJson.sound = true := by
  simp [toJson, sound_ofOption]

theorem restores_toJson (e : OffsetExpr) (inKind : Bool) :
    Restores (AllFinite e.literals) e (ofJson? inKind e.toJson) := by
  have hread : ofJson? inKind e.toJson =
      ((ofOption NumExpr.toJson e.years).nullable? (NumExpr.ofJson? inKind)).bind fun years =>
      ((ofOption NumExpr.toJson e.months).nullable? (NumExpr.ofJson? inKind)).bind fun months =>
      ((ofOption NumExpr.toJson e.weeks).nullable? (NumExpr.ofJson? inKind)).bind fun weeks =>
      ((ofOption NumExpr.toJson e.days).nullable? (NumExpr.ofJson? inKind)).bind fun days =>
        some ⟨e.negative, years, months, weeks, days⟩ := by
    simp [ofJson?, toJson, record?_obj]
  rw [hread]
  exact Restores.of_iff ((NumExpr.restores_ofOption e.years).bind
    ((NumExpr.restores_ofOption e.months).bind ((NumExpr.restores_ofOption e.weeks).bind
      ((NumExpr.restores_ofOption e.days).bind (.some _))))) (by simp [literals])

end OffsetExpr

namespace DateExpr

def literals (e : DateExpr) : List Float :=
  e.base.literals ++ e.offset.elim [] OffsetExpr.literals

@[simp] theorem sound_toJson (e : DateExpr) : e.toJson.sound = true := by
  simp [toJson, sound_ofOption]

theorem restores_toJson (e : DateExpr) (inKind : Bool) :
    Restores (AllFinite e.literals) e (ofJson? inKind e.toJson) := by
  have hread : ofJson? inKind e.toJson = (BaseDate.ofJson? inKind e.base.toJson).bind fun base =>
      ((ofOption OffsetExpr.toJson e.offset).nullable? (OffsetExpr.ofJson? inKind)).bind
        fun offset => some ⟨base, offset⟩ := by
    simp [ofJson?, toJson, record?_obj]
  have hoffset := Restores.nullable (fun offset => OffsetExpr.restores_toJson offset inKind)
    (fun _ => Json.noConfusion) e.offset
  rw [hread]
  exact Restores.of_iff ((e.base.restores_toJson inKind).bind (hoffset.bind (.some _)))
    (by simp [literals])

end DateExpr

def ValueExpr.literals : ValueExpr → List Float
  | date e => e.literals
  | number e => e.literals

/-- A declaration survives its document exactly if all its numbers are finite. -/
theorem VariableDecl.restores_toJson (d : VariableDecl) :
    Restores (AllFinite d.value.literals) d (ofJson? d.toJson) := by
  obtain ⟨name, value⟩ := d
  cases value with
  | date e =>
    have hread : ofJson? (toJson ⟨name, .date e⟩) =
        ((DateExpr.ofJson? false e.toJson).map .date).bind fun value => some ⟨name, value⟩ := by
      simp [ofJson?, toJson, record?_obj, valueOfJson?, variant?]
    rw [hread]
    exact Restores.of_iff (((e.restores_toJson false).map _).bind (.some _))
      (by simp [ValueExpr.literals])
  | number e =>
    have hread : ofJson? (toJson ⟨name, .number e⟩) =
        ((NumExpr.ofJson? false e.toJson).map .number).bind fun value => some ⟨name, value⟩ := by
      simp [ofJson?, toJson, record?_obj, valueOfJson?, variant?]
    rw [hread]
    exact Restores.of_iff ((e.restores_toJson.map _).bind (.some _))
      (by simp [ValueExpr.literals])

end NetWorth
