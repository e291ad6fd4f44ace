import NetWorth.Text.Numeral

/-! How long numerals are, where they start, and that zeros in front do not count. -/
namespace NetWorth.Numeral

theorem digits_ne_nil (n : Nat) : digits n ≠ [] := by
  by_cases h : n < 10
  · simp [digits_of_lt h]
  · simp [digits_of_le (Nat.le_of_not_lt h)]

theorem head_digits_ne_zero {n : Nat} (h : 0 < n) : (digits n).head? ≠ some 0 := by
  induction n using Nat.strongRecOn with
  | _ n ih =>
    by_cases hn : n < 10
    · rw [digits_of_lt hn]
      simp
      omega
    · rw [digits_of_le (by omega), List.head?_append, Option.or_of_isSome (by simp [digits_ne_nil])]
      exact ih (n / 10) (by omega) (by omega)

/-- Only zero itself has a numeral that starts with a zero. -/
theorem no_leading_zero (n : Nat) :
    ¬ (digits n = [] ∨ ((digits n).head? = some 0 ∧ (digits n).length ≠ 1)) := by
  rintro (h | ⟨hhead, hlength⟩)
  · exact digits_ne_nil n h
  · rcases Nat.eq_zero_or_pos n with rfl | hn
    · exact hlength rfl
    · exact head_digits_ne_zero hn hhead

theorem length_digits_le {count n : Nat} (h : n < Nat.pow 10 (count + 1)) :
    (digits n).length ≤ count + 1 := by
  induction count generalizing n with
  | zero => exact Nat.le_of_eq (by rw [digits_of_lt h, List.length_singleton])
  | succ count ih =>
    by_cases hn : n < 10
    · rw [digits_of_lt hn, List.length_singleton]
      omega
    · have hdigits := ih (n := n / 10) (by change n < Nat.pow 10 (count + 1) * 10 at h; omega)
      rw [digits_of_le (by omega), List.length_append, List.length_singleton]
      omega

theorem ofDigits_zeros (count : Nat) (ds : List Nat) :
    ofDigits (List.replicate count 0 ++ ds) = ofDigits ds := by
  induction count with
  | zero => rfl
  | succ count ih => exact ih

def padded (width n : Nat) : List Nat :=
  List.replicate (width - (digits n).length) 0 ++ digits n

theorem zeroPadded_ofNat (width n : Nat) :
    zeroPadded width (ofNat n) = (padded width n).map digitChar := by
  simp [zeroPadded, ofNat, padded, digitChar]

theorem padded_lt (width n : Nat) : ∀ d ∈ padded width n, d < 10 := by
  intro d hd
  rcases List.mem_append.mp hd with h | h
  · rw [List.eq_of_mem_replicate h]
    decide
  · exact digits_lt n d h

theorem padded_ne_nil (width n : Nat) : padded width n ≠ [] :=
  List.append_ne_nil_of_right_ne_nil _ (digits_ne_nil n)

/-- Zeros before a numeral do not change the number. -/
theorem ofDigits_padded (width n : Nat) : ofDigits (padded width n) = n := by
  rw [padded, ofDigits_zeros, ofDigits_digits]

theorem length_padded {width n : Nat} (h : (digits n).length ≤ width) :
    (padded width n).length = width := by
  rw [padded, List.length_append, List.length_replicate]
  omega

/-- A text of digits starts with one. -/
theorem exists_cons_of_digits {ds : List Nat} (hne : ds ≠ []) (h : ∀ d ∈ ds, d < 10)
    (rest : List Char) :
    ∃ d cs, d < 10 ∧ ds.map digitChar ++ rest = digitChar d :: cs := by
  obtain ⟨d, ds, rfl⟩ := List.exists_cons_of_ne_nil hne
  exact ⟨d, _, h d List.mem_cons_self, rfl⟩

theorem digitChar_ne {d : Nat} {c : Char} (h : d < 10) (hc : digit? c = none) :
    digitChar d ≠ c := by
  rintro rfl
  rw [digit?_digitChar d h] at hc
  cases hc

/-- Digits are read up to the first character that is none. -/
theorem spanDigitsUpTo_map_digitChar {ds : List Nat} {count : Nat} (h : ∀ d ∈ ds, d < 10)
    (hlength : ds.length ≤ count) (rest : List Char) (stop : ∀ c ∈ rest.head?, digit? c = none) :
    spanDigitsUpTo count (ds.map digitChar ++ rest) = (ds, rest) := by
  induction ds generalizing count with
  | nil =>
    cases count with
    | zero => rfl
    | succ count =>
      cases rest with
      | nil => rfl
      | cons c cs => simp [spanDigitsUpTo, stop c (by simp)]
  | cons d ds ih =>
    cases count with
    | zero => simp at hlength
    | succ count =>
      rw [List.forall_mem_cons] at h
      have hds := ih h.2 (Nat.le_of_succ_le_succ hlength)
      simp [spanDigitsUpTo, digit?_digitChar d h.1, hds]

end NetWorth.Numeral
