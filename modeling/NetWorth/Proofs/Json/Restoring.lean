import NetWorth.Proofs.Json.Record

/-! Nodes that do not hold every value. What was written is read back exactly where a condition is
met, and where it is not, nothing is read. -/
namespace NetWorth.Json
variable {α β : Type} {p q : Prop} {a : α} {b : β} {x : Option α}

theorem depth_pos (j : Json) : 0 < j.depth := by
  cases j <;> simp [depth]

@[simp] theorem sound_str (s : String) : (str s).sound = true := rfl

@[simp] theorem sound_bool (b : Bool) : (bool b).sound = true := rfl

@[simp] theorem sound_obj (members : List (String × Json)) :
    (obj members).sound = soundMembers members := by rw [sound]

@[simp] theorem soundMembers_nil : soundMembers [] = true := by rw [soundMembers]

@[simp] theorem soundMembers_cons (m : String × Json) (ms : List (String × Json)) :
    soundMembers (m :: ms) = (m.2.sound && soundMembers ms) := by rw [soundMembers]

@[simp] theorem sound_ofKind (kind : String) (members : List (String × Json)) :
    (ofKind kind members).sound = soundMembers members := rfl

@[simp] theorem sound_ofFloat (x : Float) : (ofFloat x).sound = true := by
  unfold ofFloat
  split <;> rfl

theorem sound_ofOption {encode : α → Json} (h : ∀ a, (encode a).sound = true) (x : Option α) :
    (ofOption encode x).sound = true := by
  cases x with
  | none => rfl
  | some a => exact h a

/-- Reading gives back a value under a condition, and nothing otherwise. -/
structure Restores (p : Prop) (a : α) (x : Option α) : Prop where
  some_of : p → x = some a
  none_of_not : ¬ p → x = none

namespace Restores

theorem eq_some_iff (h : Restores p a x) : x = some a ↔ p := by
  refine ⟨fun hx => ?_, h.some_of⟩
  by_contra hp
  rw [h.none_of_not hp] at hx
  cases hx

theorem of_iff (h : Restores p a x) (hpq : p ↔ q) : Restores q a x :=
  ⟨fun hq => h.some_of (hpq.mpr hq), fun hq => h.none_of_not fun hp => hq (hpq.mp hp)⟩

theorem some (a : α) : Restores True a (some a) := ⟨fun _ => rfl, fun h => absurd trivial h⟩

/-- Two parts are read one after the other, each under its condition. -/
theorem bind {f : α → Option β} (hx : Restores p a x) (hf : Restores q b (f a)) :
    Restores (p ∧ q) b (x.bind f) where
  some_of h := by rw [hx.some_of h.1, Option.bind_some, hf.some_of h.2]
  none_of_not h := by
    by_cases hp : p
    · rw [hx.some_of hp, Option.bind_some, hf.none_of_not fun hq => h ⟨hp, hq⟩]
    · rw [hx.none_of_not hp, Option.bind_none]

theorem map (hx : Restores p a x) (f : α → β) : Restores p (f a) (x.map f) where
  some_of h := by rw [hx.some_of h, Option.map_some]
  none_of_not h := by rw [hx.none_of_not h, Option.map_none]

/-- Every element of a list has to be one that can be written. -/
theorem list {encode : α → Json} {decode : Json → Option α} {p : α → Prop}
    (h : ∀ a, Restores (p a) a (decode (encode a))) (as : List α) :
    Restores (∀ a ∈ as, p a) as ((ofList encode as).list? decode) := by
  change Restores _ _ ((as.map encode).mapM decode)
  induction as with
  | nil => exact (Restores.some []).of_iff (by simp)
  | cons a as ih =>
    rw [List.map_cons, List.mapM_cons]
    exact ((h a).bind (ih.bind (.some (a :: as)))).of_iff (by simp)

/-- A value that is absent is always read back, since nothing else is written like it. -/
theorem nullable {encode : α → Json} {decode : Json → Option α} {p : α → Prop}
    (h : ∀ a, Restores (p a) a (decode (encode a))) (hne : ∀ a, encode a ≠ null) (x : Option α) :
    Restores (∀ a ∈ x, p a) x ((ofOption encode x).nullable? decode) := by
  cases x with
  | none => exact (Restores.some none).of_iff (by simp)
  | some a =>
    have ha := (h a).map Option.some
    rw [ofOption, nullable?]
    · exact ha.of_iff (by simp)
    · exact hne a

end Restores

/-- A float survives its node exactly if it is finite. -/
theorem restores_ofFloat (x : Float) : Restores (x.isFinite = true) x (ofFloat x).float? where
  some_of h := by rw [ofFloat, if_pos h]; rfl
  none_of_not h := by rw [ofFloat, if_neg h]; rfl

end NetWorth.Json
