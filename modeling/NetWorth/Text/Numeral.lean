/-! Decimal numerals in ASCII digits. The digits of a number write that number, `ofDigits_digits`,
and reading stops where they end, `spanDigits_ofNat`. -/
namespace NetWorth.Numeral

private def digitsUp : Nat → Nat → List Nat
  | 0, _ => []
  | fuel + 1, n => if n < 10 then [n] else n % 10 :: digitsUp fuel (n / 10)

/-- The decimal digits of a number, the most significant first; zero has one digit. -/
def digits (n : Nat) : List Nat :=
  (digitsUp (n + 1) n).reverse

def ofDigits (ds : List Nat) : Nat :=
  ds.foldl (fun n d => 10 * n + d) 0

private theorem foldr_digitsUp (fuel n : Nat) (h : n < fuel) :
    (digitsUp fuel n).foldr (fun d n => 10 * n + d) 0 = n := by
  induction fuel generalizing n with
  | zero => omega
  | succ fuel ih =>
    unfold digitsUp
    split
    · simp
    · rw [List.foldr_cons, ih (n / 10) (by omega)]
      omega

/-- A number is read back from its digits. -/
theorem ofDigits_digits (n : Nat) : ofDigits (digits n) = n := by
  rw [ofDigits, digits, List.foldl_reverse]
  exact foldr_digitsUp (n + 1) n (by omega)

private theorem digitsUp_lt (fuel n : Nat) : ∀ d ∈ digitsUp fuel n, d < 10 := by
  induction fuel generalizing n with
  | zero => simp [digitsUp]
  | succ fuel ih =>
    unfold digitsUp
    split
    · simpa
    · intro d hd
      rcases List.mem_cons.1 hd with rfl | hd
      · omega
      · exact ih _ d hd

theorem digits_lt (n : Nat) : ∀ d ∈ digits n, d < 10 := by
  intro d hd
  exact digitsUp_lt _ _ d (List.mem_reverse.1 hd)

private theorem digitsUp_congr {fuel fuel' n : Nat} (h : n < fuel) (h' : n < fuel') :
    digitsUp fuel n = digitsUp fuel' n := by
  induction fuel generalizing fuel' n with
  | zero => omega
  | succ fuel ih =>
    cases fuel' with
    | zero => omega
    | succ fuel' =>
      unfold digitsUp
      split
      · rfl
      · have hn : digitsUp fuel (n / 10) = digitsUp fuel' (n / 10) := ih (by omega) (by omega)
        rw [hn]

theorem digits_of_lt {n : Nat} (h : n < 10) : digits n = [n] := by
  rw [digits, digitsUp, if_pos h, List.reverse_singleton]

/-- The last digit of a number is its rest by ten. -/
theorem digits_of_le {n : Nat} (h : 10 ≤ n) : digits n = digits (n / 10) ++ [n % 10] := by
  rw [digits, digitsUp, if_neg (by omega), List.reverse_cons,
    digitsUp_congr (by omega) (Nat.lt_succ_self (n / 10)), digits]

def digitChar (d : Nat) : Char :=
  Char.ofNat ('0'.toNat + d)

def digit? (c : Char) : Option Nat :=
  if '0' ≤ c ∧ c ≤ '9' then some (c.toNat - '0'.toNat) else none

theorem digit?_digitChar (d : Nat) (h : d < 10) : digit? (digitChar d) = some d := by
  have : ∀ d, d < 10 → digit? (digitChar d) = some d := by decide
  exact this d h

def ofNat (n : Nat) : List Char :=
  (digits n).map digitChar

def ofInt : Int → List Char
  | .ofNat n => ofNat n
  | .negSucc n => '-' :: ofNat (n + 1)

def zeroPadded (width : Nat) (cs : List Char) : List Char :=
  List.replicate (width - cs.length) '0' ++ cs

def spanDigits : List Char → List Nat × List Char
  | [] => ([], [])
  | c :: cs => match digit? c with
    | some d => (d :: (spanDigits cs).1, (spanDigits cs).2)
    | none => ([], c :: cs)

def spanDigitsUpTo : Nat → List Char → List Nat × List Char
  | 0, cs => ([], cs)
  | _ + 1, [] => ([], [])
  | count + 1, c :: cs => match digit? c with
    | some d => (d :: (spanDigitsUpTo count cs).1, (spanDigitsUpTo count cs).2)
    | none => ([], c :: cs)

theorem spanDigits_map_digitChar (ds : List Nat) (h : ∀ d ∈ ds, d < 10) (rest : List Char)
    (stop : ∀ c ∈ rest.head?, digit? c = none) :
    spanDigits (ds.map digitChar ++ rest) = (ds, rest) := by
  induction ds with
  | nil =>
    cases rest with
    | nil => rfl
    | cons c cs => simp [spanDigits, stop c (by simp)]
  | cons d ds ih =>
    simp [spanDigits, digit?_digitChar d (h d (by simp)), ih fun e he => h e (by simp [he])]

/-- What follows a number is left over by reading its digits, if it starts with no digit. -/
theorem spanDigits_ofNat (n : Nat) (rest : List Char) (stop : ∀ c ∈ rest.head?, digit? c = none) :
    spanDigits (ofNat n ++ rest) = (digits n, rest) :=
  spanDigits_map_digitChar _ (digits_lt n) rest stop

def text (n : Int) : String :=
  String.ofList (ofInt n)

end NetWorth.Numeral
