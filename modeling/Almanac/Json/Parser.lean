import Almanac.Json.Basic

/-!
# Reading JSON

A text is cut into tokens, and the tokens are put together to values. The reader is strict: no
comments, no trailing commas, no leading zeros, no control characters within strings, and nothing
but blanks after the value. A string that holds half a surrogate pair is well formed; it is for
those who need its text to refuse it.

Both steps end because each of them uses up input: the tokens by the length of the text that is
left, the values by the number of tokens.
-/

namespace Almanac.Json

/-! ## 1. Tokens -/

/-- A mark of punctuation, or a value without parts. -/
inductive Token where
  | mark (c : Char)
  | leaf (value : Json)
deriving Inhabited

/-- The blanks of JSON. -/
def isSpace (c : Char) : Bool :=
  c = ' ' || c = '\t' || c = '\n' || c = '\r'

/-- The value of a hexadecimal digit in either case. -/
def hexValue? (c : Char) : Option Nat :=
  if c.isDigit then some (Numeral.digitValue c)
  else if 'a' ≤ c ∧ c ≤ 'f' then some (c.toNat - 'a'.toNat + 10)
  else if 'A' ≤ c ∧ c ≤ 'F' then some (c.toNat - 'A'.toNat + 10)
  else none

/-- The number that four hexadecimal digits write. -/
def hex4? (a b c d : Char) : Option Nat := do
  let a ← hexValue? a
  let b ← hexValue? b
  let c ← hexValue? c
  let d ← hexValue? d
  return ((a * 16 + b) * 16 + c) * 16 + d

/-- The character of an escape of one letter. -/
def plainEscape? : Char → Option Char
  | '"' => some '"'
  | '\\' => some '\\'
  | '/' => some '/'
  | 'b' => some (Char.ofNat 8)
  | 'f' => some (Char.ofNat 12)
  | 'n' => some '\n'
  | 'r' => some '\r'
  | 't' => some '\t'
  | _ => none

/-- The body of a string up to its closing quote, as it is written, and the text after that. -/
def stringBody? : List Char → Option (List Char × List Char)
  | [] => none
  | '"' :: rest => some ([], rest)
  | '\\' :: 'u' :: a :: b :: c :: d :: rest =>
    if (hex4? a b c d).isNone then none
    else
      (stringBody? rest).map fun (body, after) =>
        ('\\' :: 'u' :: a :: b :: c :: d :: body, after)
  | '\\' :: c :: rest =>
    if (plainEscape? c).isNone then none
    else (stringBody? rest).map fun (body, after) => ('\\' :: c :: body, after)
  | c :: rest =>
    if c.toNat < 32 ∨ c = '\\' then none
    else (stringBody? rest).map fun (body, after) => (c :: body, after)

/-- The text that a body stands for; half a surrogate pair stands for none. -/
def unescape? : List Char → Option (List Char)
  | [] => some []
  | '\\' :: 'u' :: a :: b :: c :: d :: rest =>
    match hex4? a b c d with
    | none => none
    | some high =>
      if high < 0xD800 ∨ 0xE000 ≤ high then (unescape? rest).map (Char.ofNat high :: ·)
      else if 0xDC00 ≤ high then none
      else
        match rest with
        | '\\' :: 'u' :: e :: f :: g :: h :: rest =>
          match hex4? e f g h with
          | none => none
          | some low =>
            if 0xDC00 ≤ low ∧ low < 0xE000 then
              (unescape? rest).map
                (Char.ofNat (0x10000 + (high - 0xD800) * 0x400 + (low - 0xDC00)) :: ·)
            else none
        | _ => none
  | '\\' :: c :: rest =>
    match plainEscape? c with
    | none => none
    | some e => (unescape? rest).map (e :: ·)
  | c :: rest => (unescape? rest).map (c :: ·)

/-- The string of a body. -/
def ofBody (body : List Char) : JsonString :=
  match unescape? body with
  | some value => .text (String.ofList value)
  | none => .unpaired (String.ofList body)

/-- Whether a text is a nonempty run of digits. -/
def isDigits (cs : List Char) : Bool :=
  !cs.isEmpty && cs.all Char.isDigit

/-- Whether a text is an exponent without its letter: an optional sign and digits. -/
def isExponent : List Char → Bool
  | '+' :: digits => isDigits digits
  | '-' :: digits => isDigits digits
  | digits => isDigits digits

/-- Whether a text is the part of a number after its whole digits. -/
def isFraction (cs : List Char) : Bool :=
  let exponent : List Char → Bool
    | [] => true
    | c :: rest => (c = 'e' || c = 'E') && isExponent rest
  match cs with
  | '.' :: rest =>
    isDigits (rest.takeWhile Char.isDigit) && exponent (rest.dropWhile Char.isDigit)
  | _ => exponent cs

/-- Whether a text is a number. -/
def isNumber (cs : List Char) : Bool :=
  let magnitude := match cs with
    | '-' :: rest => rest
    | _ => cs
  match magnitude with
  | '0' :: rest => isFraction rest
  | _ =>
    isDigits (magnitude.takeWhile Char.isDigit) && isFraction (magnitude.dropWhile Char.isDigit)

/-- Whether a character may stand in a word or a number. -/
def isWordChar (c : Char) : Bool :=
  c.isAlphanum || c = '-' || c = '+' || c = '.'

/-- The value that a word or a number is. -/
def ofWord? (cs : List Char) : Option Json :=
  if cs = ['n', 'u', 'l', 'l'] then some null
  else if cs = ['t', 'r', 'u', 'e'] then some (bool true)
  else if cs = ['f', 'a', 'l', 's', 'e'] then some (bool false)
  else if isNumber cs then some (number (String.ofList cs))
  else none

/-- The first token of a text that does not start with a blank, and the text after it. -/
def token? : List Char → Option (Token × List Char)
  | [] => none
  | c :: rest =>
    if ['[', ']', Char.ofNat 123, Char.ofNat 125, ',', ':'].contains c then some (.mark c, rest)
    else if c = '"' then
      (stringBody? rest).map fun (body, after) => (.leaf (string (ofBody body)), after)
    else
      (ofWord? (c :: rest.takeWhile isWordChar)).map fun value =>
        (.leaf value, rest.dropWhile isWordChar)

theorem length_stringBody? {cs body after : List Char} (h : stringBody? cs = some (body, after)) :
    after.length < cs.length := by
  fun_induction stringBody? cs generalizing body after <;>
    simp only [Option.map_eq_some_iff, Option.some.injEq, Prod.mk.injEq, Prod.exists,
      reduceCtorEq] at h
  case case2 => simp [h.2]
  all_goals
    rename_i ih
    obtain ⟨cs, after', hcs, -, rfl⟩ := h
    have := ih hcs
    simp only [List.length_cons]
    omega

theorem length_token? {cs after : List Char} {t : Token} (h : token? cs = some (t, after)) :
    after.length < cs.length := by
  cases cs with
  | nil => simp [token?] at h
  | cons c rest =>
    simp only [token?] at h
    split at h
    · simp only [Option.some.injEq, Prod.mk.injEq] at h
      simp [h.2]
    · split at h
      · simp only [Option.map_eq_some_iff, Prod.mk.injEq, Prod.exists] at h
        obtain ⟨b, a, hb, -, rfl⟩ := h
        have := length_stringBody? hb
        simp only [List.length_cons]
        omega
      · simp only [Option.map_eq_some_iff, Prod.mk.injEq] at h
        obtain ⟨v, -, -, rfl⟩ := h
        have := (List.dropWhile_sublist isWordChar (l := rest)).length_le
        simp only [List.length_cons]
        omega

/-- The tokens of a whole text. -/
def tokens? (cs : List Char) : Option (List Token) :=
  if (cs.dropWhile isSpace).isEmpty then some []
  else
    match _h : token? (cs.dropWhile isSpace) with
    | none => none
    | some (t, after) => (tokens? after).map (t :: ·)
termination_by cs.length
decreasing_by
  have := length_token? _h
  have := (List.dropWhile_sublist isSpace (l := cs)).length_le
  omega

/-! ## 2. Values -/

/-- The mark that opens an object. -/
def openBrace : Char := Char.ofNat 123

/-- The mark that closes an object. -/
def closeBrace : Char := Char.ofNat 125

mutual

/-- The value in front of some tokens; `fuel` is at least their number. -/
def value? : (fuel : Nat) → List Token → Option (Json × List Token)
  | 0, _ => none
  | _ + 1, [] => none
  | _ + 1, .leaf v :: rest => some (v, rest)
  | fuel + 1, .mark c :: rest =>
    if c = '[' then
      match rest with
      | .mark ']' :: rest => some (array [], rest)
      | _ => (items? fuel rest).map fun (items, rest) => (array items, rest)
    else if c = openBrace then
      match rest with
      | .mark d :: rest => if d = closeBrace then some (object [], rest) else none
      | _ => (fields? fuel rest).map fun (fields, rest) => (object fields, rest)
    else none

/-- The items of an array in front of some tokens, up to its closing mark. -/
def items? : (fuel : Nat) → List Token → Option (List Json × List Token)
  | 0, _ => none
  | fuel + 1, ts => do
    let (item, rest) ← value? fuel ts
    match rest with
    | .mark ']' :: rest => some ([item], rest)
    | .mark ',' :: rest =>
      let (items, rest) ← items? fuel rest
      some (item :: items, rest)
    | _ => none

/-- The fields of an object in front of some tokens, up to its closing mark. -/
def fields? : (fuel : Nat) → List Token → Option (List (JsonString × Json) × List Token)
  | fuel + 1, .leaf (.string name) :: .mark ':' :: rest => do
    let (value, rest) ← value? fuel rest
    match rest with
    | .mark c :: rest =>
      if c = closeBrace then some ([(name, value)], rest)
      else if c = ',' then
        let (fields, rest) ← fields? fuel rest
        some ((name, value) :: fields, rest)
      else none
    | _ => none
  | _, _ => none

end

/-- The value that a whole text is. -/
def parse? (text : String) : Option Json := do
  let tokens ← tokens? text.toList
  let (value, rest) ← value? (tokens.length + 1) tokens
  guard rest.isEmpty
  return value

end Almanac.Json
