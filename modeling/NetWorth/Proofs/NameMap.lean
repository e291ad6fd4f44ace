import Mathlib.Data.List.Nodup
import Mathlib.Data.String.Basic
import NetWorth.NameMap

/-! Maps from names through their lookups: entries and lookups say the same, and a map is determined
by what it finds, `ext_find?`. -/
namespace NetWorth.NameMap
variable {α : Type}

/-- The names of a map stand in order. -/
theorem names_ascending (m : NameMap α) : m.names.Pairwise (· < ·) :=
  List.pairwise_map.mpr m.ascending

theorem names_nodup (m : NameMap α) : m.names.Nodup :=
  m.names_ascending.imp fun h => ne_of_lt h

private theorem lookup_of_mem {es : List (String × α)} {name : String} {value : α}
    (hn : (es.map (·.1)).Nodup) (h : (name, value) ∈ es) : es.lookup name = some value := by
  obtain ⟨before, after, rfl⟩ := List.append_of_mem h
  refine List.lookup_eq_some_iff.mpr ⟨before, after, rfl, fun e he => bne_iff_ne.mpr ?_⟩
  rintro rfl
  rw [List.map_append, List.map_cons, List.nodup_append] at hn
  exact hn.2.2 _ (List.mem_map_of_mem he) _ List.mem_cons_self rfl

/-- Every entry of a map is found under its name, and nothing else is. -/
theorem find?_eq_some_iff {m : NameMap α} {name : String} {value : α} :
    m.find? name = some value ↔ (name, value) ∈ m.entries := by
  refine ⟨fun h => ?_, lookup_of_mem m.names_nodup⟩
  obtain ⟨before, after, he, _⟩ := List.lookup_eq_some_iff.mp h
  simp [he]

theorem find?_isSome_iff {m : NameMap α} {name : String} :
    (m.find? name).isSome ↔ name ∈ m.names := by
  rw [Option.isSome_iff_exists]
  simp only [find?_eq_some_iff, names, List.mem_map]
  exact ⟨fun ⟨v, h⟩ => ⟨(name, v), h, rfl⟩, fun ⟨e, h, he⟩ => ⟨e.2, he ▸ h⟩⟩

/-- Two maps that find the same are equal, since their entries are in the same order. -/
theorem ext_find? {m n : NameMap α} (h : ∀ name, m.find? name = n.find? name) : m = n := by
  have nodup (m : NameMap α) : m.entries.Nodup := List.Nodup.of_map _ m.names_nodup
  have hp : m.entries.Perm n.entries := (List.perm_ext_iff_of_nodup (nodup m) (nodup n)).mpr
    fun e => by rw [← find?_eq_some_iff, h, find?_eq_some_iff]
  exact ext (hp.eq_of_pairwise (fun a b _ _ hab hba => absurd hab (lt_asymm hba))
    m.ascending n.ascending)

theorem find?_empty (name : String) : (empty : NameMap α).find? name = none := rfl

theorem mem_names_insert {m : NameMap α} {name other : String} {value : α} :
    other ∈ (m.insert name value).names ↔ other = name ∨ other ∈ m.names := by
  rw [← find?_isSome_iff, ← find?_isSome_iff, find?_insert]
  by_cases h : other = name <;> simp [h]

private theorem mem_names_foldl {es : List (String × α)} {m : NameMap α} {name : String} :
    name ∈ (es.foldl (fun m e => m.insert e.1 e.2) m).names ↔
      name ∈ m.names ∨ name ∈ es.map (·.1) := by
  induction es generalizing m with
  | nil => simp
  | cons e es ih =>
    rw [List.foldl_cons, ih, mem_names_insert, List.map_cons, List.mem_cons]
    exact ⟨by rintro ((h | h) | h) <;> simp [h], by rintro (h | h | h) <;> simp [h]⟩

theorem mem_names_ofList {es : List (String × α)} {name : String} :
    name ∈ (ofList es).names ↔ name ∈ es.map (·.1) := by
  rw [ofList, mem_names_foldl]
  simp [names, empty]

/-- A name beyond all others goes to the end. -/
private theorem put_last {es : List (String × α)} {name : String} (value : α)
    (h : ∀ e ∈ es, e.1 < name) : put name value es = es ++ [(name, value)] := by
  induction es with
  | nil => rfl
  | cons e es ih =>
    rw [List.forall_mem_cons] at h
    rw [put, if_neg (lt_asymm h.1), if_neg (ne_of_gt h.1), ih h.2, List.cons_append]

/-- Ascending entries are put one behind the other. -/
private theorem entries_foldl {es : List (String × α)} {m : NameMap α}
    (h : (m.entries ++ es).Pairwise (·.1 < ·.1)) :
    (es.foldl (fun m e => m.insert e.1 e.2) m).entries = m.entries ++ es := by
  induction es generalizing m with
  | nil => exact (List.append_nil _).symm
  | cons e es ih =>
    have hput : (m.insert e.1 e.2).entries = m.entries ++ [e] :=
      put_last e.2 fun a ha => (List.pairwise_append.mp h).2.2 a ha e List.mem_cons_self
    rw [List.foldl_cons, ih, hput, List.append_assoc, List.singleton_append]
    rw [hput, List.append_assoc, List.singleton_append]
    exact h

/-- Nothing is lost of a map that is put together from its entries. -/
theorem ofList_entries (m : NameMap α) : ofList m.entries = m :=
  ext (entries_foldl (m := empty) m.ascending)

end NetWorth.NameMap
