import NetWorth.Proofs.Json.Quoted
import NetWorth.Proofs.Numeral

/-! Reading a printed document gives the document back: `ofText?_text`. -/
namespace NetWorth.Json

open Numeral

/-- Nothing that goes on a number. -/
def Ends (rest : List Char) : Prop :=
  ∀ c ∈ rest.head?, digit? c = none ∧ c ≠ '.' ∧ c ≠ 'e' ∧ c ≠ 'E'

theorem ends_nil : Ends [] := by rintro c ⟨⟩

theorem ends_cons {c : Char} (h : c ∈ [',', ']', '\x7d']) (cs : List Char) : Ends (c :: cs) := by
  rintro d ⟨⟩
  simp only [List.mem_cons, List.not_mem_nil, or_false] at h
  rcases h with rfl | rfl | rfl <;> decide

def numeralsOf : Int → Numerals
  | .ofNat n => ⟨false, digits n, none, none⟩
  | .negSucc n => ⟨true, digits (n + 1), none, none⟩

/-- The whole numbers that a word holds, with or without a sign. -/
def IsWord (n : Int) : Prop := FitsWord n ∨ 0 ≤ n ∧ n < UInt64.size

/-- A word is read as a whole number, not as a float. -/
theorem value_numeralsOf {n : Int} (h : IsWord n) : (numeralsOf n).value = int n := by
  cases n with
  | ofNat n =>
    have hn : n < UInt64.size := by
      change IsWord (n : Int) at h
      rcases h with h | h
      · have hword := (fitsWord_iff.mp h).2
        simp only [UInt64.size]
        omega
      · omega
    simp only [numeralsOf, Numerals.value, ofDigits_digits]
    rw [if_neg (by decide), if_pos hn]
    rfl
  | negSucc n =>
    have hfits : FitsWord (-((n + 1 : Nat) : Int)) :=
      h.resolve_right fun hn => absurd hn.1 (by omega)
    simp only [numeralsOf, Numerals.value, ofDigits_digits]
    rw [if_pos trivial, if_pos ⟨by omega, hfits⟩]
    rfl

section
variable {rest : List Char} (ends : Ends rest)
include ends

theorem readFraction?_none : readFraction? rest = some (none, rest) := by
  cases rest with
  | nil => rfl
  | cons c cs =>
    have hpoint := (ends c rfl).2.1
    rw [readFraction?]
    exact fun _ h => hpoint (List.cons.inj h).1

theorem readPower?_none : readPower? rest = some (none, rest) := by
  cases rest with
  | nil => rfl
  | cons c cs =>
    have hpower := (ends c rfl).2.2
    unfold readPower?
    split <;> simp_all

theorem readMagnitude?_ofNat (negative : Bool) (n : Nat) :
    readMagnitude? negative (ofNat n ++ rest) = some (⟨negative, digits n, none, none⟩, rest) := by
  rw [readMagnitude?, spanDigits_ofNat n rest fun c hc => (ends c hc).1]
  simp only
  rw [if_neg (no_leading_zero n), readFraction?_none ends]
  simp only [Option.bind_eq_bind, Option.bind_some, readPower?_none ends]

/-- A whole number is read to its end. -/
theorem readNumerals?_ofInt (n : Int) :
    readNumerals? (ofInt n ++ rest) = some (numeralsOf n, rest) := by
  cases n with
  | ofNat n =>
    obtain ⟨d, cs, hd, hcs⟩ := exists_cons_of_digits (digits_ne_nil n) (digits_lt n) rest
    have hminus : digitChar d ≠ '-' := digitChar_ne hd rfl
    have hunsigned :
        readNumerals? (digitChar d :: cs) = readMagnitude? false (digitChar d :: cs) := by
      rw [readNumerals?]
      exact fun _ h => hminus (List.cons.inj h).1
    rw [ofInt, ofNat, hcs, hunsigned, ← hcs]
    exact readMagnitude?_ofNat ends false n
  | negSucc n => exact readMagnitude?_ofNat ends true (n + 1)

end

/-- A document without floats and faults, whose whole numbers fit words and in which no more
containers than there is room for lie within one another. -/
inductive Legible : Nat → Json → Prop
  | null {room : Nat} : Legible room null
  | bool {room : Nat} (b : Bool) : Legible room (bool b)
  | int {room : Nat} {n : Int} (word : IsWord n) : Legible room (int n)
  | str {room : Nat} (s : String) : Legible room (str s)
  | arr {room : Nat} {items : List Json} (h : ∀ j ∈ items, Legible room j) :
      Legible (room + 1) (arr items)
  | obj {room : Nat} {members : List (String × Json)} (h : ∀ m ∈ members, Legible room m.2) :
      Legible (room + 1) (obj members)

def NoStart (c : Char) : Prop := c ∈ [' ', '\t', '\n', '\r', ']']

instance (c : Char) : Decidable (NoStart c) := inferInstanceAs (Decidable (c ∈ _))

theorem skipSpace_of_start {c : Char} (h : ¬ NoStart c) (cs : List Char) :
    skipSpace (c :: cs) = c :: cs := by
  refine List.dropWhile_cons_of_neg ?_
  simp only [NoStart, List.mem_cons, not_or] at h
  simp [h]

def StartsNumber (c : Char) : Prop := c = '-' ∨ (digit? c).isSome

instance (c : Char) : Decidable (StartsNumber c) := inferInstanceAs (Decidable (_ ∨ _))

theorem not_noStart_of_startsNumber {c : Char} (h : StartsNumber c) : ¬ NoStart c := by
  simp only [NoStart, List.mem_cons, List.not_mem_nil, or_false]
  rintro (rfl | rfl | rfl | rfl | rfl) <;> exact absurd h (by decide)

theorem exists_cons_ofInt (n : Int) : ∃ c cs, ofInt n = c :: cs ∧ StartsNumber c := by
  cases n with
  | ofNat n =>
    obtain ⟨d, cs, hd, hcs⟩ := exists_cons_of_digits (digits_ne_nil n) (digits_lt n) []
    exact ⟨_, cs, (List.append_nil _).symm.trans hcs, .inr (by simp [digit?_digitChar d hd])⟩
  | negSucc n => exact ⟨_, _, rfl, .inl rfl⟩

/-- A document starts with no space, and not as the end of a list. -/
theorem Legible.exists_cons {room : Nat} {j : Json} (h : Legible room j) :
    ∃ c cs, j.chars = c :: cs ∧ ¬ NoStart c := by
  cases h with
  | null => exact ⟨_, _, rfl, by decide⟩
  | bool b => cases b <;> exact ⟨_, _, rfl, by decide⟩
  | @int _ n _ =>
    obtain ⟨c, cs, hcs, hc⟩ := exists_cons_ofInt n
    exact ⟨c, cs, hcs, not_noStart_of_startsNumber hc⟩
  | str s => exact ⟨_, _, rfl, by decide⟩
  | arr h => exact ⟨_, _, rfl, by decide⟩
  | obj h => exact ⟨_, _, rfl, by decide⟩

theorem readValue_of_startsNumber {c : Char} (h : StartsNumber c) (fuel depth : Nat)
    (cs : List Char) :
    readValue (fuel + 1) depth (c :: cs) =
      (readNumerals? (c :: cs)).map fun r => (r.1.value, r.2) := by
  have hother : ∀ d ∈ ['n', 't', 'f', '"', '[', '\x7b'], c ≠ d := by
    simp only [List.forall_mem_cons, List.not_mem_nil, false_imp_iff, implies_true, and_true]
    refine ⟨?_, ?_, ?_, ?_, ?_, ?_⟩ <;> (rintro rfl; exact absurd h (by decide))
  rw [readValue, skipSpace_of_start (not_noStart_of_startsNumber h)]
  split
  case h_7 => rfl
  all_goals
    rename_i heq
    exact absurd (List.cons.inj heq).1 (hother _ (by decide))

def Reads (room : Nat) (j : Json) : Prop :=
  ∀ fuel depth rest, j.chars.length ≤ fuel → depth + room ≤ maxNesting → Ends rest →
    readValue fuel depth (j.chars ++ rest) = some (j, rest)

section
variable {room : Nat}

/-- A leaf is read back if it is before anything that ends it. -/
theorem reads_leaf {j : Json} (hlength : 0 < j.chars.length)
    (h : ∀ fuel depth rest, Ends rest →
      readValue (fuel + 1) depth (j.chars ++ rest) = some (j, rest)) : Reads room j := by
  intro fuel depth rest hfuel _ ends
  cases fuel with
  | zero => omega
  | succ fuel => exact h fuel depth rest ends

theorem reads_int {n : Int} (word : IsWord n) : Reads room (int n) := by
  obtain ⟨c, cs, hcs, hc⟩ := exists_cons_ofInt n
  refine reads_leaf (by simp [chars, hcs]) fun fuel depth rest ends => ?_
  rw [chars, hcs, List.cons_append, readValue_of_startsNumber hc, ← List.cons_append, ← hcs,
    readNumerals?_ofInt ends, Option.map_some, value_numeralsOf word]

theorem reads_str (s : String) : Reads room (str s) := by
  refine reads_leaf (by simp [chars, quote]) fun fuel depth rest _ => ?_
  obtain ⟨cs, hcs, hread⟩ := readPieces_of_quote s rest
  rw [chars, hcs, readValue, skipSpace_of_start (by decide)]
  simp only [hread, Option.map_some, ofPieces_piecesOf]

theorem charsOfItems_cons (j k : Json) (js : List Json) :
    charsOfItems (j :: k :: js) = j.chars ++ ',' :: charsOfItems (k :: js) := by
  rw [charsOfItems]
  exact List.cons_ne_nil k js

theorem exists_cons_charsOfItems {j : Json} (h : Legible room j) (js : List Json) :
    ∃ c cs, charsOfItems (j :: js) = c :: cs ∧ ¬ NoStart c := by
  obtain ⟨c, cs, hcs, hc⟩ := h.exists_cons
  cases js with
  | nil => exact ⟨c, cs, by rw [charsOfItems, hcs], hc⟩
  | cons k js => exact ⟨c, _, by rw [charsOfItems_cons, hcs, List.cons_append], hc⟩

theorem charsOfMembers_cons (m n : String × Json) (ms : List (String × Json)) :
    charsOfMembers (m :: n :: ms) =
      quote m.1 ++ ':' :: (m.2.chars ++ ',' :: charsOfMembers (n :: ms)) := by
  rw [charsOfMembers, List.append_assoc, List.cons_append]
  exact List.cons_ne_nil n ms

/-- The elements of a list are read to its end, where fuel is left for each of them. -/
theorem readItems_charsOfItems {items : List Json} (hne : items ≠ [])
    (h : ∀ j ∈ items, Reads room j) {fuel depth : Nat}
    (hfuel : (charsOfItems items).length + 1 ≤ fuel) (hdepth : depth + room ≤ maxNesting)
    (rest : List Char) :
    readItems fuel depth (charsOfItems items ++ ']' :: rest) = some (items, rest) := by
  induction items generalizing fuel with
  | nil => exact absurd rfl hne
  | cons j js ih =>
    rw [List.forall_mem_cons] at h
    cases fuel with
    | zero => omega
    | succ fuel =>
      cases js with
      | nil =>
        rw [charsOfItems] at hfuel
        rw [charsOfItems, readItems,
          h.1 fuel depth _ (by omega) hdepth (ends_cons (by decide) rest)]
        rfl
      | cons k js =>
        rw [charsOfItems_cons, List.length_append, List.length_cons] at hfuel
        have hjs : readItems fuel depth _ = _ := ih (List.cons_ne_nil _ _) h.2 (by omega)
        rw [charsOfItems_cons, List.append_assoc, List.cons_append, readItems,
          h.1 fuel depth _ (by omega) hdepth (ends_cons (by decide) _)]
        simp only [Option.bind_eq_bind, Option.bind_some]
        rw [skipSpace_of_start (by decide)]
        simp only [hjs, Option.bind_some]

/-- How reading goes on after a member of an object. -/
def readRest (fuel depth : Nat) (m : List Piece × Json) :
    List Char → Option (List (List Piece × Json) × List Char)
  | ',' :: cs => (readMembers fuel depth cs).bind fun r => some (m :: r.1, r.2)
  | '\x7d' :: cs => some ([m], cs)
  | _ => none

theorem readMembers_succ (m : String × Json) (hm : Reads room m.2) {fuel depth : Nat}
    (hfuel : m.2.chars.length ≤ fuel) (hdepth : depth + room ≤ maxNesting) {rest : List Char}
    (ends : Ends rest) :
    readMembers (fuel + 1) depth (quote m.1 ++ ':' :: (m.2.chars ++ rest)) =
      readRest fuel depth (piecesOf m.1, m.2) (skipSpace rest) := by
  obtain ⟨cs, hcs, hread⟩ := readPieces_of_quote m.1 (':' :: (m.2.chars ++ rest))
  rw [hcs, readMembers, skipSpace_of_start (by decide)]
  simp only [hread, Option.bind_eq_bind, Option.bind_some]
  rw [skipSpace_of_start (by decide)]
  simp only [hm fuel depth rest hfuel hdepth ends, Option.bind_some]
  rfl

/-- Members are read back one by one up to the closing brace. -/
theorem readMembers_charsOfMembers {members : List (String × Json)} (hne : members ≠ [])
    (h : ∀ m ∈ members, Reads room m.2) {fuel depth : Nat}
    (hfuel : (charsOfMembers members).length + 1 ≤ fuel) (hdepth : depth + room ≤ maxNesting)
    (rest : List Char) :
    readMembers fuel depth (charsOfMembers members ++ '\x7d' :: rest) =
      some (members.map fun m => (piecesOf m.1, m.2), rest) := by
  induction members generalizing fuel with
  | nil => exact absurd rfl hne
  | cons m ms ih =>
    rw [List.forall_mem_cons] at h
    cases fuel with
    | zero => omega
    | succ fuel =>
      cases ms with
      | nil =>
        rw [charsOfMembers, List.length_append, List.length_cons] at hfuel
        rw [charsOfMembers, List.append_assoc, List.cons_append,
          readMembers_succ m h.1 (by omega) hdepth (ends_cons (by decide) rest),
          skipSpace_of_start (by decide)]
        rfl
      | cons n ms =>
        simp only [charsOfMembers_cons, List.length_append, List.length_cons] at hfuel
        have hms : readMembers fuel depth _ = _ := ih (List.cons_ne_nil _ _) h.2 (by omega)
        rw [charsOfMembers_cons, List.append_assoc, List.cons_append, List.append_assoc,
          List.cons_append, readMembers_succ m h.1 (by omega) hdepth (ends_cons (by decide) _),
          skipSpace_of_start (by decide), readRest, hms]
        rfl

theorem nestedAt_of_le {depth : Nat} (h : depth ≤ maxNesting) (j : Json) : nestedAt depth j = j :=
  if_pos h

theorem readValue_items {c : Char} (h : ¬ NoStart c) (fuel depth : Nat) (cs : List Char) :
    readValue (fuel + 1) depth ('[' :: c :: cs) =
      (readItems fuel (depth + 1) (c :: cs)).map fun r =>
        (nestedAt (depth + 1) (arr r.1), r.2) := by
  rw [readValue, skipSpace_of_start (by decide)]
  simp only
  rw [skipSpace_of_start h]
  split
  · rename_i heq
    exact absurd (by rw [(List.cons.inj heq).1]; decide) h
  · rfl

theorem readValue_members (fuel depth : Nat) (cs : List Char) :
    readValue (fuel + 1) depth ('\x7b' :: '"' :: cs) =
      (readMembers fuel (depth + 1) ('"' :: cs)).map fun r =>
        (nestedAt (depth + 1) (ofMembers r.1), r.2) := by
  rw [readValue, skipSpace_of_start (by decide)]
  simp only
  rw [skipSpace_of_start (by decide)]
  rfl

/-- A list needs room for one level more than its elements. -/
theorem reads_arr {items : List Json} (legible : ∀ j ∈ items, Legible room j)
    (h : ∀ j ∈ items, Reads room j) : Reads (room + 1) (arr items) := by
  intro fuel depth rest hfuel hdepth _
  rw [chars, List.length_append, List.length_cons, List.length_singleton] at hfuel
  rw [chars, List.append_assoc, List.cons_append, List.singleton_append]
  cases fuel with
  | zero => omega
  | succ fuel =>
    cases items with
    | nil =>
      rw [charsOfItems, List.nil_append, readValue, skipSpace_of_start (by decide)]
      exact congrArg some (congrArg (·, rest) (nestedAt_of_le (by omega) _))
    | cons j js =>
      -- the reader looks for the end of the list first, so it counts where the elements start
      have hread : readItems fuel (depth + 1) (charsOfItems (j :: js) ++ ']' :: rest) = _ :=
        readItems_charsOfItems (List.cons_ne_nil j js) h (by omega) (by omega) rest
      obtain ⟨c, cs, hcs, hc⟩ := exists_cons_charsOfItems (legible j List.mem_cons_self) js
      rw [hcs, List.cons_append] at hread
      rw [hcs, List.cons_append, readValue_items hc, hread, Option.map_some,
        nestedAt_of_le (by omega)]

/-- An object needs room for one level more than its members. -/
theorem reads_obj {members : List (String × Json)} (h : ∀ m ∈ members, Reads room m.2) :
    Reads (room + 1) (obj members) := by
  intro fuel depth rest hfuel hdepth _
  rw [chars, List.length_append, List.length_cons, List.length_singleton] at hfuel
  rw [chars, List.append_assoc, List.cons_append, List.singleton_append]
  cases fuel with
  | zero => omega
  | succ fuel =>
    cases members with
    | nil =>
      rw [charsOfMembers, List.nil_append, readValue, skipSpace_of_start (by decide)]
      exact congrArg some (congrArg (·, rest) (nestedAt_of_le (by omega) _))
    | cons m ms =>
      have hread : readMembers fuel (depth + 1) (charsOfMembers (m :: ms) ++ '\x7d' :: rest) = _ :=
        readMembers_charsOfMembers (List.cons_ne_nil m ms) h (by omega) (by omega) rest
      obtain ⟨cs, hcs⟩ : ∃ cs, charsOfMembers (m :: ms) = '"' :: cs := by
        cases ms <;> exact ⟨_, rfl⟩
      rw [hcs, List.cons_append] at hread
      rw [hcs, List.cons_append, readValue_members, hread, Option.map_some,
        nestedAt_of_le (by omega), ofMembers_piecesOf]

/-- By induction on the document: its parts are read one after another, one level deeper. -/
theorem Legible.reads {j : Json} (h : Legible room j) : Reads room j := by
  induction h with
  | null => exact reads_leaf (by decide) fun fuel depth rest _ => rfl
  | bool b => cases b <;> exact reads_leaf (by decide) fun fuel depth rest _ => rfl
  | int word => exact reads_int word
  | str s => exact reads_str s
  | arr h ih => exact reads_arr h ih
  | obj h ih => exact reads_obj ih

end

/-- A legible document survives its text. -/
theorem Legible.ofText?_text {j : Json} (h : Legible maxNesting j) : ofText? j.text = some j := by
  have hread := h.reads (2 * j.chars.length + 2) 0 [] (by omega) (by omega) ends_nil
  rw [List.append_nil] at hread
  rw [ofText?, text, String.toList_ofList, ofChars?, hread]
  rfl

end NetWorth.Json
