import Mathlib.Data.List.Nodup
import NetWorth.Calendar.Document
import NetWorth.Proofs.Json.Reading

/-! Records and words in documents: what was written into a node is found there again. -/
namespace NetWorth.Json
variable {α : Type}

/-- An object is a record of its members if none of them occurs twice. -/
theorem record?_obj {fields : List String} {members : List (String × Json)}
    (h : (members.map (·.1)).Nodup) : record? fields (obj members) = some ⟨members, true⟩ := by
  refine if_pos (List.all_eq_true.mpr fun f _ => decide_eq_true ?_)
  have hcount := List.nodup_iff_count_le_one.mp h f
  rw [List.count, List.countP_map] at hcount
  refine le_of_eq_of_le (List.countP_congr fun m _ => ?_) hcount
  simp

namespace Record
variable {key name : String} {j : Json} {members : List (String × Json)} {named : Bool}
  {decode : Json → Option α}

@[simp] theorem find?_cons :
    find? ⟨(key, j) :: members, named⟩ name =
      if name = key then some j else find? ⟨members, named⟩ name := by
  simp only [find?, List.lookup_cons]
  split <;> simp_all

@[simp] theorem required_cons :
    required ⟨(key, j) :: members, named⟩ name decode =
      if name = key then decode j else required ⟨members, named⟩ name decode := by
  rw [required, find?_cons]
  split <;> rfl

@[simp] theorem optional_cons :
    optional ⟨(key, j) :: members, named⟩ name decode =
      if name = key then j.nullable? decode else optional ⟨members, named⟩ name decode := by
  rw [optional, find?_cons]
  by_cases h : name = key <;> simp [optional, h]

@[simp] theorem defaulted_cons {value : α} :
    defaulted ⟨(key, j) :: members, named⟩ name value decode =
      if name = key then decode j else defaulted ⟨members, named⟩ name value decode := by
  rw [defaulted, find?_cons]
  by_cases h : name = key <;> simp [defaulted, h]

end Record

theorem list?_ofList {encode : α → Json} {decode : Json → Option α}
    (h : ∀ x, decode (encode x) = some x) (xs : List α) :
    (ofList encode xs).list? decode = some xs :=
  mapM_map_eq_some fun x _ => h x

theorem nullable?_ofOption {encode : α → Json} {decode : Json → Option α}
    (h : ∀ x, decode (encode x) = some x) (hnull : decode null = none) (x : Option α) :
    (ofOption encode x).nullable? decode = some x := by
  cases x with
  | none => rfl
  | some a =>
    have hne : encode a ≠ null := fun he => by
      have ha := h a
      rw [he, hnull] at ha
      cases ha
    rw [ofOption, nullable?, h]
    · rfl
    · exact hne

@[simp] theorem string?_str (s : String) : (str s).string? = some s := rfl

@[simp] theorem bool?_bool (b : Bool) : (bool b).bool? = some b := rfl

@[simp] theorem signedWord?_ofSigned (n : Int64) : (ofSigned n).signedWord? = some n := by
  rw [ofSigned, signedWord?, int?, Option.bind_some, NetWorth.signedWord?,
    if_pos (fitsWord_toInt n), Int64.ofInt_toInt]

@[simp] theorem unsignedWord?_ofUnsigned (n : UInt64) : (ofUnsigned n).unsignedWord? = some n := by
  have hn : (n.toNat : Int) < UInt64.size := Int.ofNat_lt.mpr n.toNat_lt_size
  rw [ofUnsigned, unsignedWord?, int?, Option.bind_some, NetWorth.unsignedWord?,
    if_pos ⟨Int.natCast_nonneg _, hn⟩, Int.toNat_natCast, UInt64.ofNat_toNat]

end NetWorth.Json
