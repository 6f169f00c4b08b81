/-!
# Blank characters, trimming and splitting

Every text this library reads is taken apart as a list of characters. This file fixes the four
cuts the readers share:

* a character is blank (`isBlank`) when Unicode gives it the property `White_Space`, twenty-five
  characters in all;
* `trim` drops the blanks at both ends and nothing in between;
* `splitOn` cuts at every occurrence of a separator, so a text with `n` separators has `n + 1`
  pieces, and `cut?` cuts at the first one only;
* `upper` raises the ASCII letters and leaves every other character alone.
-/

namespace Almanac.Text

/-! ## 1. Blanks -/

/-- The Unicode property `White_Space`. -/
def isBlank (c : Char) : Bool :=
  let n := c.toNat
  (0x09 ≤ n && n ≤ 0x0D) || n == 0x20 || n == 0x85 || n == 0xA0 || n == 0x1680 ||
    (0x2000 ≤ n && n ≤ 0x200A) || n == 0x2028 || n == 0x2029 || n == 0x202F || n == 0x205F ||
    n == 0x3000

/-- The text without the blanks it begins with. -/
def trimStart (cs : List Char) : List Char :=
  cs.dropWhile isBlank

/-- The text without the blanks it ends with. -/
def trimEnd (cs : List Char) : List Char :=
  (cs.reverse.dropWhile isBlank).reverse

/-- The text without the blanks at either end. -/
def trim (cs : List Char) : List Char :=
  trimEnd (trimStart cs)

/-! ## 2. Separators -/

/-- The pieces between the occurrences of a separator; the empty text is one empty piece. -/
def splitOn (separator : Char) : List Char → List (List Char)
  | [] => [[]]
  | c :: rest =>
    if c = separator then [] :: splitOn separator rest
    else
      match splitOn separator rest with
      | [] => [[c]]
      | piece :: pieces => (c :: piece) :: pieces

/-- The text before the first separator and the text after it. -/
def cut? (separator : Char) : List Char → Option (List Char × List Char)
  | [] => none
  | c :: rest =>
    if c = separator then some ([], rest)
    else (cut? separator rest).map fun (before, after) => (c :: before, after)

/-- The trimmed items of a separated list, the empty ones left out. -/
def items (separator : Char) (cs : List Char) : List (List Char) :=
  ((splitOn separator cs).map trim).filter (!·.isEmpty)

/-- Items joined by a separator. -/
def join (separator : Char) : List (List Char) → List Char
  | [] => []
  | [item] => item
  | item :: rest => item ++ separator :: join separator rest

/-! ## 3. Letter case -/

/-- ASCII letters in upper case. -/
def upper (cs : List Char) : List Char :=
  cs.map Char.toUpper

/-- What follows a given head, whose letters may stand in either case. -/
def dropHead? : (head text : List Char) → Option (List Char)
  | [], text => some text
  | _ :: _, [] => none
  | h :: head, c :: text => if h.toUpper = c.toUpper then dropHead? head text else none

/-! ## 4. Laws -/

/-- Joining undoes splitting. -/
theorem join_splitOn (separator : Char) (cs : List Char) :
    join separator (splitOn separator cs) = cs := by
  have ne : ∀ ds, splitOn separator ds ≠ [] := by
    intro ds
    cases ds with
    | nil => simp [splitOn]
    | cons d ds =>
      simp only [splitOn]
      split
      · simp
      · split <;> simp
  induction cs with
  | nil => rfl
  | cons c rest ih =>
    simp only [splitOn]
    split
    · rename_i h
      subst h
      cases hs : splitOn c rest with
      | nil => exact absurd hs (ne rest)
      | cons piece pieces => rw [hs] at ih; simp [join, ih]
    · cases hs : splitOn separator rest with
      | nil => exact absurd hs (ne rest)
      | cons piece pieces =>
        rw [hs] at ih
        cases pieces with
        | nil => simpa [join] using ih
        | cons q qs => simpa [join] using ih

/-- What is cut apart reads back as the text, and the part before the cut has no separator. -/
theorem eq_of_cut? {separator : Char} {cs before after : List Char}
    (h : cut? separator cs = some (before, after)) :
    cs = before ++ separator :: after ∧ separator ∉ before := by
  induction cs generalizing before with
  | nil => simp [cut?] at h
  | cons c rest ih =>
    simp only [cut?] at h
    split at h
    · rename_i hc
      simp only [Option.some.injEq, Prod.mk.injEq] at h
      obtain ⟨rfl, rfl⟩ := h
      simp [hc]
    · rename_i hc
      simp only [Option.map_eq_some_iff, Prod.mk.injEq, Prod.exists] at h
      obtain ⟨b, a, hb, rfl, rfl⟩ := h
      obtain ⟨hrest, hmem⟩ := ih hb
      exact ⟨by simp [hrest], by simp [hmem, Ne.symm hc]⟩

end Almanac.Text
