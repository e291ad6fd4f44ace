import NetWorth.Calendar.DateText
import NetWorth.Proofs.Numeral

/-! A date is read back from its text, whatever its year: `ofText?_text`. -/
namespace NetWorth.Date

open Numeral

private theorem isBlank_digitChar {d : Nat} (h : d < 10) : isBlank (digitChar d) = false := by
  have : ∀ d, d < 10 → isBlank (digitChar d) = false := by decide
  exact this d h

private theorem dropBlanks_zeroPadded (width n : Nat) (rest : List Char) :
    dropBlanks (zeroPadded width (ofNat n) ++ rest) = zeroPadded width (ofNat n) ++ rest := by
  rw [zeroPadded_ofNat]
  obtain ⟨d, cs, hd, he⟩ := exists_cons_of_digits (padded_ne_nil width n) (padded_lt width n) rest
  rw [he, dropBlanks, List.dropWhile_cons_of_neg (by simp [isBlank_digitChar hd])]

private theorem dropBlanks_sign {c : Char} (h : isBlank c = false) (cs : List Char) :
    dropBlanks (c :: cs) = c :: cs :=
  List.dropWhile_cons_of_neg (by simp [h])

theorem afterHyphen?_zeroPadded (width n : Nat) (rest : List Char) :
    afterHyphen? ('-' :: (zeroPadded width (ofNat n) ++ rest)) =
      some (zeroPadded width (ofNat n) ++ rest) := by
  rw [afterHyphen?, dropBlanks_sign (by decide)]
  exact congrArg some (dropBlanks_zeroPadded width n rest)

theorem readYear?_of_ne {c : Char} {cs : List Char} (hminus : c ≠ '-') (hplus : c ≠ '+') :
    readYear? (c :: cs) = (readShort? 4 (c :: cs)).map fun r => ((r.1 : Int), r.2) := by
  unfold readYear?
  split
  · rename_i h
    exact absurd (List.cons.inj h).1 hminus
  · rename_i h
    exact absurd (List.cons.inj h).1 hplus
  · rfl

section
variable {rest : List Char} (stop : ∀ c ∈ rest.head?, digit? c = none)
include stop

theorem readShort?_zeroPadded {count n : Nat} (h : (digits n).length ≤ count) :
    readShort? count (zeroPadded count (ofNat n) ++ rest) = some (n, rest) := by
  have hspan : spanDigitsUpTo count (zeroPadded count (ofNat n) ++ rest) =
      (padded count n, rest) := by
    rw [zeroPadded_ofNat]
    exact spanDigitsUpTo_map_digitChar (padded_lt count n) (Nat.le_of_eq (length_padded h)) rest
      stop
  obtain ⟨d, ds, hds⟩ := List.exists_cons_of_ne_nil (padded_ne_nil count n)
  rw [readShort?, hspan, hds]
  simp only
  rw [← hds, ofDigits_padded]

theorem spanDigits_zeroPadded (width n : Nat) :
    spanDigits (zeroPadded width (ofNat n) ++ rest) = (padded width n, rest) := by
  rw [zeroPadded_ofNat]
  exact spanDigits_map_digitChar _ (padded_lt width n) rest stop

/-- A year is read to its end, with a sign or with four digits. -/
theorem readYear?_yearText (year : Int) :
    readYear? (yearText year ++ rest) = some (year, rest) := by
  obtain ⟨d, ds, hds⟩ := List.exists_cons_of_ne_nil (padded_ne_nil 4 year.natAbs)
  have hvalue : ofDigits (d :: ds) = year.natAbs := hds ▸ ofDigits_padded 4 year.natAbs
  rw [yearText]
  split
  · rename_i hneg
    simp only [List.cons_append, readYear?, spanDigits_zeroPadded stop, hds, hvalue]
    congr 2
    omega
  · split
    · simp only [List.cons_append, readYear?, spanDigits_zeroPadded stop, hds, hvalue]
      congr 2
      omega
    · have hlength : (digits year.natAbs).length ≤ 4 :=
        length_digits_le (by change _ < 10000; omega)
      have hshort := readShort?_zeroPadded stop hlength
      obtain ⟨d, cs, hd, hcs⟩ :=
        exists_cons_of_digits (padded_ne_nil 4 year.natAbs) (padded_lt 4 year.natAbs) rest
      rw [← zeroPadded_ofNat] at hcs
      rw [hcs, readYear?_of_ne (digitChar_ne hd rfl) (digitChar_ne hd rfl), ← hcs, hshort,
        Option.map_some]
      congr 2
      omega

end

private theorem dropBlanks_yearText (year : Int) (rest : List Char) :
    dropBlanks (yearText year ++ rest) = yearText year ++ rest := by
  rw [yearText]
  split
  · exact dropBlanks_sign (by decide) _
  · split
    · exact dropBlanks_sign (by decide) _
    · exact dropBlanks_zeroPadded 4 _ rest

/-- A date is read back from its characters. -/
theorem ofChars?_chars (d : Date) : ofChars? d.chars = some d := by
  have hyphen (cs : List Char) : ∀ c ∈ ('-' :: cs).head?, digit? c = none := by
    rintro c ⟨⟩
    decide
  have hmonth : (digits d.month).length ≤ 2 :=
    length_digits_le (Nat.lt_of_le_of_lt d.month_le (by decide))
  have hday : (digits d.day).length ≤ 2 :=
    length_digits_le (Nat.lt_of_le_of_lt
      (Nat.le_trans d.day_le (daysInMonth_bounds d.year d.month).2) (by decide))
  have hend : zeroPadded 2 (ofNat d.day) = zeroPadded 2 (ofNat d.day) ++ [] :=
    (List.append_nil _).symm
  rw [chars, List.append_assoc, List.cons_append, hend, ofChars?, dropBlanks_yearText,
    readYear?_yearText (hyphen _)]
  simp only [Option.bind_eq_bind, Option.bind_some]
  rw [afterHyphen?_zeroPadded, Option.bind_some, readShort?_zeroPadded (hyphen _) hmonth]
  simp only [Option.bind_some]
  rw [afterHyphen?_zeroPadded, Option.bind_some, readShort?_zeroPadded (by simp) hday]
  exact ofParts?_eq_some_iff.mpr ⟨rfl, rfl, rfl⟩

/-- Every date of the calendar survives its text. -/
theorem ofText?_text (d : Date) : ofText? d.text = some d := by
  rw [ofText?, text, String.toList_ofList, ofChars?_chars]

example : last.text = "+262142-12-31" := rfl

end NetWorth.Date
