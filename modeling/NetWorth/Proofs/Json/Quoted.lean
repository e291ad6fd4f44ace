import NetWorth.Json.Printer
import NetWorth.Json.Reader

/-! A quoted text is read back character by character: `readPieces_quoted`, `joinPieces_quoted`. -/
namespace NetWorth.Json

/-- A list is read back if each of its elements is. -/
theorem mapM_map_eq_some {α β : Type} {encode : α → β} {decode : β → Option α} {xs : List α}
    (h : ∀ x ∈ xs, decode (encode x) = some x) : (xs.map encode).mapM decode = some xs := by
  induction xs with
  | nil => rfl
  | cons x xs ih =>
    rw [List.forall_mem_cons] at h
    rw [List.map_cons, List.mapM_cons, h.1, ih h.2]
    rfl

/-- How a character is read after it was written: control characters without a letter of their own
are written as units. -/
def pieceOf (c : Char) : Piece :=
  if escapeLetters.lookup c = none ∧ c.toNat < 0x20 then .unit c.toNat else .char c

theorem unescape?_of_mem {e : Char × Char} (h : e ∈ escapeLetters) :
    e.2 ≠ 'u' ∧ unescape? e.2 = some e.1 := by
  have : ∀ e ∈ escapeLetters, e.2 ≠ 'u' ∧ unescape? e.2 = some e.1 := by decide
  exact this e h

theorem hexUnit?_hexDigit {n : Nat} (h : n < 0x20) :
    hexUnit? '0' '0' (hexDigit (n / 16)) (hexDigit (n % 16)) = some n := by
  have : ∀ n, n < 0x20 →
      hexUnit? '0' '0' (hexDigit (n / 16)) (hexDigit (n % 16)) = some n := by decide
  exact this n h

/-- The characters that cannot stand for themselves have a letter. -/
theorem ne_of_lookup_eq_none {c d : Char} (h : escapeLetters.lookup c = none)
    (hd : (escapeLetters.lookup d).isSome) : c ≠ d := by
  rintro rfl
  rw [h] at hd
  cases hd

/-- Every character is read back from its escape, and nothing of what follows is touched. -/
theorem readPieces_escape (c : Char) (cs : List Char) :
    readPieces (escape c ++ cs) = (readPieces cs).map fun r => (pieceOf c :: r.1, r.2) := by
  cases hletter : escapeLetters.lookup c with
  | some letter =>
    have hescape : escape c = ['\\', letter] := by rw [escape, hletter]
    have hpiece : pieceOf c = .char c := if_neg fun h => by rw [hletter] at h; cases h.1
    obtain ⟨before, after, he, _⟩ := List.lookup_eq_some_iff.mp hletter
    obtain ⟨hu, hread⟩ := unescape?_of_mem (e := (c, letter)) (by simp [he])
    rw [hescape, hpiece, List.cons_append, List.singleton_append, readPieces, hread]
    · cases readPieces cs <;> rfl
    · intro a b c d ds hletter
      exact absurd hletter hu
  | none =>
    by_cases hcontrol : c.toNat < 0x20
    · have hescape : escape c =
          ['\\', 'u', '0', '0', hexDigit (c.toNat / 16), hexDigit (c.toNat % 16)] := by
        rw [escape, hletter]
        exact if_pos hcontrol
      rw [hescape, pieceOf, if_pos ⟨hletter, hcontrol⟩]
      simp only [List.cons_append, List.nil_append, readPieces, hexUnit?_hexDigit hcontrol]
      cases readPieces cs <;> rfl
    · have hescape : escape c = [c] := by
        rw [escape, hletter]
        exact if_neg hcontrol
      have hquote : c ≠ '"' := ne_of_lookup_eq_none hletter (by decide)
      have hbackslash : c ≠ '\\' := ne_of_lookup_eq_none hletter (by decide)
      rw [hescape, pieceOf, if_neg fun h => hcontrol h.2, List.singleton_append, readPieces,
        if_neg hcontrol]
      -- what is left is that no other pattern of the reader comes first
      · cases readPieces cs <;> rfl
      · exact hquote
      · exact fun _ _ _ _ _ h _ => hbackslash h
      · exact fun _ _ h _ => hbackslash h
      · exact fun h _ => hbackslash h

/-- A quoted text ends at its own quote. -/
theorem readPieces_quoted (cs rest : List Char) :
    readPieces (cs.flatMap escape ++ '"' :: rest) = some (cs.map pieceOf, rest) := by
  induction cs with
  | nil => rw [List.flatMap_nil, List.nil_append, readPieces, List.map_nil]
  | cons c cs ih =>
    rw [List.flatMap_cons, List.append_assoc, readPieces_escape, ih, Option.map_some, List.map_cons]

theorem joinPieces_cons (c : Char) (ps : List Piece) :
    joinPieces (pieceOf c :: ps) = (joinPieces ps).map (c :: ·) := by
  rw [pieceOf]
  split
  · rename_i h
    -- such a unit is far below those that need another half
    conv => lhs; unfold joinPieces
    rw [if_neg (by omega), if_neg (by omega), Char.ofNat_toNat]
  · rw [joinPieces]

/-- Escapes never make halves of a character. -/
theorem joinPieces_quoted (cs : List Char) : joinPieces (cs.map pieceOf) = some cs := by
  induction cs with
  | nil => rfl
  | cons c cs ih => rw [List.map_cons, joinPieces_cons, ih, Option.map_some]

def piecesOf (s : String) : List Piece := s.toList.map pieceOf

theorem ofPieces_piecesOf (s : String) : ofPieces (piecesOf s) = str s := by
  rw [ofPieces, piecesOf, joinPieces_quoted]
  exact congrArg str (String.ofList_toList)

theorem ofMembers_piecesOf (members : List (String × Json)) :
    ofMembers (members.map fun m => (piecesOf m.1, m.2)) = obj members := by
  have hread : (members.map fun m => (piecesOf m.1, m.2)).mapM
      (fun m => (joinPieces m.1).map fun cs => (String.ofList cs, m.2)) = some members := by
    refine mapM_map_eq_some fun m _ => ?_
    rw [piecesOf, joinPieces_quoted, Option.map_some, String.ofList_toList]
  rw [ofMembers, hread]

/-- What a quoted text leaves to be read after its opening quote. -/
theorem readPieces_of_quote (s : String) (rest : List Char) :
    ∃ cs, quote s ++ rest = '"' :: cs ∧ readPieces cs = some (piecesOf s, rest) := by
  refine ⟨s.toList.flatMap escape ++ '"' :: rest, ?_, readPieces_quoted s.toList rest⟩
  rw [quote, List.append_assoc, List.cons_append, List.singleton_append]

end NetWorth.Json
