/-! What a computation that may fail has established. A chain of steps fails at its first failing
step, and so does a walk through a list: `mapM_eq_error_iff` and `forM_eq_error_iff`. Which errors
cannot arise, `Avoids`, and what is certain after a success, `Tests`, is found step by step. -/
namespace NetWorth.Attempt
variable {ε δ α β : Type}

theorem bind_eq_ok_iff {x : Except ε α} {f : α → Except ε β} {b : β} :
    (x >>= f) = .ok b ↔ ∃ a, x = .ok a ∧ f a = .ok b := by
  cases x <;> simp [bind, Except.bind]

theorem bind_eq_error_iff {x : Except ε α} {f : α → Except ε β} {e : ε} :
    (x >>= f) = .error e ↔ x = .error e ∨ ∃ a, x = .ok a ∧ f a = .error e := by
  cases x <;> simp [bind, Except.bind]

theorem map_eq_ok_iff {x : Except ε α} {f : α → β} {b : β} :
    x.map f = .ok b ↔ ∃ a, x = .ok a ∧ f a = b := by
  cases x <;> simp [Except.map]

theorem map_eq_error_iff {x : Except ε α} {f : α → β} {e : ε} :
    x.map f = .error e ↔ x = .error e := by
  cases x <;> simp [Except.map]

@[simp] theorem mapError_ok (f : ε → δ) (a : α) : (.ok a : Except ε α).mapError f = .ok a := rfl

@[simp] theorem mapError_error (f : ε → δ) (e : ε) :
    (.error e : Except ε α).mapError f = .error (f e) := rfl

theorem mapError_eq_ok_iff {x : Except ε α} {f : ε → δ} {a : α} :
    x.mapError f = .ok a ↔ x = .ok a := by
  cases x <;> simp

theorem mapError_eq_error_iff {x : Except ε α} {f : ε → δ} {e : δ} :
    x.mapError f = .error e ↔ ∃ d, x = .error d ∧ e = f d := by
  cases x <;> simp [eq_comm]

/-- A walk succeeds exactly when each of its steps does. -/
theorem mapM_eq_ok_iff {f : α → Except ε β} {xs : List α} {ys : List β} :
    xs.mapM f = .ok ys ↔ xs.map f = ys.map .ok := by
  induction xs generalizing ys with
  | nil => cases ys <;> simp [pure, Except.pure]
  | cons x xs ih =>
    rw [List.mapM_cons, bind_eq_ok_iff]
    cases ys with
    | nil => simp [bind_eq_ok_iff, pure, Except.pure]
    | cons y ys =>
      simp only [bind_eq_ok_iff, ih, pure, Except.pure, Except.ok.injEq, List.map_cons,
        List.cons.injEq]
      constructor
      · rintro ⟨z, hz, zs, hzs, rfl, rfl⟩
        exact ⟨hz, hzs⟩
      · intro ⟨hy, hys⟩
        exact ⟨y, hy, ys, hys, rfl, rfl⟩

theorem mapM_succeeds_iff {f : α → Except ε β} {xs : List α} :
    (∃ ys, xs.mapM f = .ok ys) ↔ ∀ x ∈ xs, ∃ y, f x = .ok y := by
  simp only [mapM_eq_ok_iff]
  induction xs with
  | nil => exact ⟨fun _ _ h => by simp at h, fun _ => ⟨[], rfl⟩⟩
  | cons x xs ih =>
    rw [List.forall_mem_cons, ← ih]
    constructor
    · rintro ⟨_ | ⟨y, ys⟩, h⟩
      · simp at h
      · exact ⟨⟨y, (List.cons.inj h).1⟩, ys, (List.cons.inj h).2⟩
    · intro ⟨⟨y, hy⟩, ys, hys⟩
      exact ⟨y :: ys, by simp [hy, hys]⟩

/-- Every result of a walk is that of some member. -/
theorem exists_of_mem_mapM {f : α → Except ε β} {xs : List α} {ys : List β}
    (h : xs.mapM f = .ok ys) {y : β} (hy : y ∈ ys) : ∃ x ∈ xs, f x = .ok y := by
  have hmem : Except.ok y ∈ xs.map f := by
    rw [mapM_eq_ok_iff.mp h]
    exact List.mem_map_of_mem hy
  exact List.mem_map.mp hmem

/-- The error of a walk is that of its first member that fails. -/
theorem mapM_eq_error_iff {f : α → Except ε β} {xs : List α} {e : ε} :
    xs.mapM f = .error e ↔ ∃ before x after, xs = before ++ x :: after ∧
      (∀ b ∈ before, ∃ y, f b = .ok y) ∧ f x = .error e := by
  induction xs with
  | nil => simp [pure, Except.pure]
  | cons x xs ih =>
    rw [List.mapM_cons, bind_eq_error_iff]
    constructor
    · rintro (h | ⟨y, hy, h⟩)
      · exact ⟨[], x, xs, rfl, by simp, h⟩
      · rcases bind_eq_error_iff.mp h with h | ⟨ys, _, h⟩
        · obtain ⟨before, z, after, rfl, hb, hz⟩ := ih.mp h
          exact ⟨x :: before, z, after, rfl, List.forall_mem_cons.mpr ⟨⟨y, hy⟩, hb⟩, hz⟩
        · cases h
    · intro ⟨before, z, after, he, hb, hz⟩
      cases before with
      | nil =>
        obtain ⟨rfl, rfl⟩ := List.cons.inj he
        exact .inl hz
      | cons b before =>
        obtain ⟨rfl, rfl⟩ := List.cons.inj he
        obtain ⟨⟨y, hy⟩, hb⟩ := List.forall_mem_cons.mp hb
        exact .inr ⟨y, hy, bind_eq_error_iff.mpr (.inl (ih.mpr ⟨before, z, after, rfl, hb, hz⟩))⟩

private theorem forM_eq_map_mapM (f : α → Except ε Unit) (xs : List α) :
    xs.forM f = (xs.mapM f).map fun _ => () := by
  induction xs with
  | nil => rfl
  | cons x xs ih =>
    change (f x >>= fun _ => xs.forM f) = _
    rw [List.mapM_cons, ih]
    cases hx : f x with
    | error e => rfl
    | ok u => cases xs.mapM f <;> rfl

private theorem succeeds_iff {x : Except ε Unit} : (∃ u, x = .ok u) ↔ x = .ok () :=
  ⟨fun ⟨_, h⟩ => h, fun h => ⟨(), h⟩⟩

theorem forM_eq_ok_iff {f : α → Except ε Unit} {xs : List α} :
    xs.forM f = .ok () ↔ ∀ x ∈ xs, f x = .ok () := by
  rw [← succeeds_iff, forM_eq_map_mapM]
  simpa only [map_eq_ok_iff, and_true, exists_const, succeeds_iff] using
    mapM_succeeds_iff (f := f)

theorem forM_eq_error_iff {f : α → Except ε Unit} {xs : List α} {e : ε} :
    xs.forM f = .error e ↔ ∃ before x after, xs = before ++ x :: after ∧
      (∀ b ∈ before, f b = .ok ()) ∧ f x = .error e := by
  rw [forM_eq_map_mapM, map_eq_error_iff, mapM_eq_error_iff]
  simp only [succeeds_iff]

def Avoids (bad : ε → Prop) (x : Except ε α) : Prop := ∀ e, x = .error e → ¬ bad e

namespace Avoids
variable {bad : ε → Prop} {x : Except ε α}

theorem ok (a : α) : Avoids bad (.ok a) := fun _ h => by cases h

theorem error {e : ε} (h : ¬ bad e) : Avoids bad (.error e : Except ε α) := fun _ he => by
  cases he
  exact h

/-- A first step whose error is not bad, and a second one after each of its results. -/
theorem bind {f : α → Except ε β} (hx : Avoids bad x) (hf : ∀ a, x = .ok a → Avoids bad (f a)) :
    Avoids bad (x >>= f) := by
  intro e h
  rcases bind_eq_error_iff.mp h with h | ⟨a, ha, h⟩
  · exact hx e h
  · exact hf a ha e h

theorem map {f : α → β} (hx : Avoids bad x) : Avoids bad (x.map f) :=
  fun e h => hx e (map_eq_error_iff.mp h)

theorem mapError {y : Except δ α} {f : δ → ε} (hy : Avoids (bad ∘ f) y) :
    Avoids bad (y.mapError f) := by
  intro e h
  obtain ⟨d, hd, rfl⟩ := mapError_eq_error_iff.mp h
  exact hy d hd

/-- Errors that are wrapped in a way that is never bad. -/
theorem of_mapError {f : δ → ε} (h : ∀ d, ¬ bad (f d)) (y : Except δ α) :
    Avoids bad (y.mapError f) :=
  .mapError fun d _ => h d

theorem mono {worse : ε → Prop} (hx : Avoids bad x) (h : ∀ e, worse e → bad e) :
    Avoids worse x :=
  fun e he hw => hx e he (h e hw)

theorem mapM {f : α → Except ε β} {xs : List α} (h : ∀ a ∈ xs, Avoids bad (f a)) :
    Avoids bad (xs.mapM f) := by
  intro e he
  obtain ⟨before, a, after, rfl, _, ha⟩ := mapM_eq_error_iff.mp he
  exact h a (by simp) e ha

end Avoids

/-- Success establishes a condition, and under this condition no error of a kind arises. -/
structure Tests (bad : ε → Prop) (p : Prop) (x : Except ε α) : Prop where
  avoids : p → Avoids bad x
  holds : ∀ a, x = .ok a → p

namespace Tests
variable {bad : ε → Prop} {p q : Prop} {x : Except ε α}

theorem of_avoids (h : Avoids bad x) : Tests bad True x := ⟨fun _ => h, fun _ _ => trivial⟩

theorem ok (a : α) : Tests bad True (.ok a) := of_avoids (.ok a)

theorem error (e : ε) : Tests bad False (.error e : Except ε α) :=
  ⟨fun h => h.elim, fun _ h => by cases h⟩

theorem of_iff (h : Tests bad p x) (hpq : p ↔ q) : Tests bad q x :=
  ⟨fun hq => h.avoids (hpq.mpr hq), fun a ha => hpq.mp (h.holds a ha)⟩

theorem bind {f : α → Except ε β} (hx : Tests bad p x) (hf : ∀ a, x = .ok a → Tests bad q (f a)) :
    Tests bad (p ∧ q) (x >>= f) where
  avoids h := (hx.avoids h.1).bind fun a ha => (hf a ha).avoids h.2
  holds b hb := by
    obtain ⟨a, ha, hb⟩ := bind_eq_ok_iff.mp hb
    exact ⟨hx.holds a ha, (hf a ha).holds b hb⟩

/-- A step after the test has no part in it. -/
theorem bind_avoids {f : α → Except ε β} (hx : Tests bad p x)
    (hf : ∀ a, x = .ok a → Avoids bad (f a)) : Tests bad p (x >>= f) :=
  (hx.bind fun a ha => of_avoids (hf a ha)).of_iff (and_iff_left trivial)

theorem map {f : α → β} (hx : Tests bad p x) : Tests bad p (x.map f) where
  avoids h := (hx.avoids h).map
  holds b hb := by
    obtain ⟨a, ha, _⟩ := map_eq_ok_iff.mp hb
    exact hx.holds a ha

theorem mapError {y : Except δ α} {f : δ → ε} (hy : Tests (bad ∘ f) p y) :
    Tests bad p (y.mapError f) where
  avoids h := (hy.avoids h).mapError
  holds a ha := hy.holds a (mapError_eq_ok_iff.mp ha)

theorem mapM {f : α → Except ε β} {xs : List α} {p : α → Prop}
    (h : ∀ a ∈ xs, Tests bad (p a) (f a)) : Tests bad (∀ a ∈ xs, p a) (xs.mapM f) where
  avoids hp := .mapM fun a ha => (h a ha).avoids (hp a ha)
  holds ys hys a ha := by
    obtain ⟨y, hy⟩ := mapM_succeeds_iff.mp ⟨ys, hys⟩ a ha
    exact (h a ha).holds y hy

end Tests
end NetWorth.Attempt
