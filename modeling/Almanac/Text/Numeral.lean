/-!
# Decimal numerals

How numbers are written and read.

* `decimal` writes a natural number without leading zeros, `padded` writes exactly the asked
  number of low digits, `signed` puts a minus before a negative number;
* `digits?` reads a nonempty run of ASCII digits, leading zeros included;
* `natural?` and `integer?` read the whole text, let a plus sign stand in front, and refuse a
  value outside the stated bounds. Only `integer?` knows the minus sign, so `-0` is an integer
  and no natural number.
-/

namespace Almanac.Numeral

/-! ## 1. Digits -/

/-- The character of a digit below ten. -/
def digitChar (d : Nat) : Char :=
  Char.ofNat ('0'.toNat + d)

/-- The digit a character stands for. -/
def digitValue (c : Char) : Nat :=
  c.toNat - '0'.toNat

/-! ## 2. Writing -/

/-- The digits of a number, without leading zeros; zero has the one digit `0`. -/
def decimal (n : Nat) : List Char :=
  if n < 10 then [digitChar n] else decimal (n / 10) ++ [digitChar (n % 10)]
termination_by n

/-- Exactly `width` digits: the low digits of the number, zeros in front. -/
def padded : (width n : Nat) → List Char
  | 0, _ => []
  | width + 1, n => padded width (n / 10) ++ [digitChar (n % 10)]

/-- At least `width` digits. -/
def atLeast (width n : Nat) : List Char :=
  let digits := decimal n
  List.replicate (width - digits.length) '0' ++ digits

/-- An integer, with a minus sign when it is negative. -/
def signed : Int → List Char
  | .ofNat n => decimal n
  | .negSucc n => '-' :: decimal (n + 1)

/-- The number as a string. -/
def text (n : Int) : String :=
  String.ofList (signed n)

/-! ## 3. Reading -/

/-- The number that a list of digits writes. -/
def value (cs : List Char) : Nat :=
  cs.foldl (fun acc c => 10 * acc + digitValue c) 0

/-- The value of a nonempty text of ASCII digits. -/
def digits? (cs : List Char) : Option Nat :=
  if cs ≠ [] ∧ cs.all Char.isDigit then some (value cs) else none

/-- A natural number not above `most`; one plus sign may stand in front. -/
def natural? (most : Nat) (cs : List Char) : Option Nat :=
  let magnitude := match cs with
    | '+' :: rest => digits? rest
    | _ => digits? cs
  magnitude.filter (· ≤ most)

/-- An integer in `[least, most]`; one sign may stand in front. -/
def integer? (least most : Int) (cs : List Char) : Option Int :=
  let number : Option Int := match cs with
    | '+' :: rest => (digits? rest).map Int.ofNat
    | '-' :: rest => (digits? rest).map fun n => -Int.ofNat n
    | _ => (digits? cs).map Int.ofNat
  number.filter fun n => least ≤ n ∧ n ≤ most

/-- The largest number that INTERVAL, COUNT and the unsigned list values can hold. -/
def unsignedMax : Nat := 4294967295

/-- The least number that the signed list values can hold. -/
def signedMin : Int := -2147483648

/-- The greatest number that the signed list values can hold. -/
def signedMax : Int := 2147483647

/-! ## 4. Laws -/

theorem toNat_digitChar {d : Nat} (h : d < 10) : (digitChar d).toNat = 48 + d := by
  have : ∀ d : Fin 10, (digitChar d.val).toNat = 48 + d.val := by decide
  exact this ⟨d, h⟩

theorem digitValue_digitChar {d : Nat} (h : d < 10) : digitValue (digitChar d) = d := by
  have : ∀ d : Fin 10, digitValue (digitChar d.val) = d.val := by decide
  exact this ⟨d, h⟩

theorem isDigit_digitChar {d : Nat} (h : d < 10) : (digitChar d).isDigit = true := by
  have : ∀ d : Fin 10, (digitChar d.val).isDigit = true := by decide
  exact this ⟨d, h⟩

theorem value_append_singleton (cs : List Char) (c : Char) :
    value (cs ++ [c]) = 10 * value cs + digitValue c := by
  simp [value, List.foldl_append]

theorem length_padded (width n : Nat) : (padded width n).length = width := by
  induction width generalizing n with
  | zero => rfl
  | succ width ih => simp [padded, ih]

/-- Every character of a padded number is a digit. -/
theorem all_isDigit_padded (width n : Nat) : (padded width n).all Char.isDigit = true := by
  induction width generalizing n with
  | zero => rfl
  | succ width ih => simp [padded, ih, isDigit_digitChar (Nat.mod_lt n (by omega : 10 > 0))]

/-- A padded number reads back as its low digits. -/
theorem value_padded (width n : Nat) : value (padded width n) = n % Nat.pow 10 width := by
  induction width generalizing n with
  | zero => simp [padded, value, Nat.mod_one]
  | succ width ih =>
    rw [padded, value_append_singleton, ih, digitValue_digitChar (Nat.mod_lt _ (by omega)),
      show Nat.pow 10 (width + 1) = 10 * Nat.pow 10 width from Nat.mul_comm _ _, Nat.mod_mul]
    omega

theorem decimal_ne_nil (n : Nat) : decimal n ≠ [] := by
  rw [decimal]; split <;> simp

/-- Every character of a decimal number is a digit. -/
theorem all_isDigit_decimal (n : Nat) : (decimal n).all Char.isDigit = true := by
  fun_induction decimal n with
  | case1 n h => simp [isDigit_digitChar h]
  | case2 n h ih => simp [ih, isDigit_digitChar (Nat.mod_lt n (by omega : 10 > 0))]

/-- A decimal number reads back. -/
theorem value_decimal (n : Nat) : value (decimal n) = n := by
  fun_induction decimal n with
  | case1 n h => simp [value, digitValue_digitChar h]
  | case2 n h ih =>
    rw [value_append_singleton, ih, digitValue_digitChar (Nat.mod_lt n (by omega))]
    omega

theorem digits?_decimal (n : Nat) : digits? (decimal n) = some n := by
  simp [digits?, decimal_ne_nil, value_decimal, -List.all_eq_true, all_isDigit_decimal]

end Almanac.Numeral
