import NetWorth.Json.Tree

/-! Nodes with a fixed set of fields, and nodes of one of several kinds. A record is written as an
object, in which unknown members are passed over, or as the list of its fields in order. -/
namespace NetWorth.Json

/-- The fields of a node. In a record that was written as a list, no field is absent but those with
a default at its end. -/
structure Record where
  members : List (String × Json)
  named : Bool

namespace Record

def find? (r : Record) (name : String) : Option Json :=
  r.members.lookup name

def required {α : Type} (r : Record) (name : String) (decode : Json → Option α) : Option α :=
  (r.find? name).bind decode

def optional {α : Type} (r : Record) (name : String) (decode : Json → Option α) :
    Option (Option α) :=
  match r.find? name with
  | some j => j.nullable? decode
  | none => if r.named then some none else none

def defaulted {α : Type} (r : Record) (name : String) (value : α) (decode : Json → Option α) :
    Option α :=
  match r.find? name with
  | some j => decode j
  | none => some value

end Record

def record? (fields : List String) : Json → Option Record
  | obj members =>
    if fields.all fun f => members.countP (fun m => m.1 = f) ≤ 1 then some ⟨members, true⟩ else none
  | arr items => if items.length ≤ fields.length then some ⟨fields.zip items, false⟩ else none
  | _ => none

/-- One of several names, as a text or as an object that gives nothing to that name. Within a node
of some kind an empty object is nothing as well. -/
def choice? (inKind : Bool) (names : List String) : Json → Option String
  | str s => if s ∈ names then some s else none
  | obj [(s, null)] => if s ∈ names then some s else none
  | obj [(s, obj [])] => if inKind ∧ s ∈ names then some s else none
  | _ => none

def variant? (names : List String) : Json → Option (String × Json)
  | obj [m] => if m.1 ∈ names then some m else none
  | _ => none

/-- The name of a kind. Within a node of some kind the place of the name among all names will do. -/
private def kindName? (inKind : Bool) (kinds : List String) : Json → Option String
  | str s => if s ∈ kinds then some s else none
  | int n => if inKind ∧ 0 ≤ n then kinds[n.toNat]? else none
  | _ => none

/-- A field that tells by one of several names how to read the field beside it. In a record that was
written as a list it is a plain text. -/
def Record.selector? (r : Record) (name : String) (names : List String) : Option String :=
  r.required name (if r.named then choice? false names else kindName? false names)

/-- The kind of a node and the node of its other fields. All parts of such a node have to stand for
values; a node within another one has been seen to already. -/
def kind? (inKind : Bool) (kinds : List String) (j : Json) : Option (String × Json) :=
  if inKind || j.sound then
    match j with
    | obj members =>
      match members.filter fun m => m.1 = "kind" with
      | [m] => (kindName? inKind kinds m.2).map (·, obj (members.filter fun m => m.1 ≠ "kind"))
      | _ => none
    | arr (item :: items) => (kindName? inKind kinds item).map (·, arr items)
    | _ => none
  else none

def ofKind (kind : String) (members : List (String × Json)) : Json :=
  obj (("kind", str kind) :: members)

/-- The kind of a node is told apart from its other fields again. -/
theorem kind?_ofKind {inKind : Bool} {kinds : List String} {kind : String}
    {members : List (String × Json)} (hkind : kind ∈ kinds)
    (hfields : "kind" ∉ members.map (·.1)) (hsound : soundMembers members = true) :
    kind? inKind kinds (ofKind kind members) = some (kind, obj members) := by
  have hs : (ofKind kind members).sound = true := hsound
  have hne : ∀ m ∈ members, m.1 ≠ "kind" := fun m hm he => hfields (List.mem_map.2 ⟨m, hm, he⟩)
  have hnone : members.filter (fun m => m.1 = "kind") = [] :=
    List.filter_eq_nil_iff.2 fun m hm => mt of_decide_eq_true (hne m hm)
  have hall : members.filter (fun m => m.1 ≠ "kind") = members :=
    List.filter_eq_self.2 fun m hm => decide_eq_true (hne m hm)
  unfold kind?
  rw [hs, Bool.or_true, if_pos rfl]
  simp only [ofKind, List.filter_cons, hnone, hall]
  simp [kindName?, hkind]

end NetWorth.Json
