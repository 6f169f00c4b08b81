import Almanac.Proofs.Text.Cuts
import Almanac.Rule.Vocabulary
import Almanac.Text.Numeral

/-!
# Words and numerals read back

The values of rule text are words: one or more of the digits, the upper-case letters and the two
signs (`IsWord`). A word has no blanks and no separators, so that no cut goes through it
(`IsWord.trim`, `IsWord.not_mem`). This file shows

* numbers are written as words, and **read back** within the bounds of their reader
  (`natural?_decimal`, `integer?_signed`);
* so are the vocabularies of rules (`Frequency.parse_text` and its like) and the weekdays with
  ordinals (`DayEntry.parse_chars`).
-/

namespace Almanac

namespace Text

/-! ## 1. Words -/

/-- A character that is no blank and separates nothing. -/
def isPlain (c : Char) : Bool :=
  c == '+' || c == '-' || c.isDigit || c.isUpper

/-- A text of plain characters, not empty. -/
def IsWord (cs : List Char) : Prop := cs ≠ [] ∧ cs.all isPlain = true

instance (cs : List Char) : Decidable (IsWord cs) := inferInstanceAs (Decidable (_ ∧ _))

theorem isPlain_bounds {c : Char} (h : isPlain c = true) :
    c.toNat = 43 ∨ c.toNat = 45 ∨ 48 ≤ c.toNat ∧ c.toNat ≤ 57 ∨ 65 ≤ c.toNat ∧ c.toNat ≤ 90 := by
  unfold isPlain Char.isDigit Char.isUpper at h
  simp only [Bool.or_eq_true, beq_iff_eq, Bool.and_eq_true, decide_eq_true_eq, ge_iff_le,
    UInt32.le_iff_toNat_le] at h
  rcases h with ((rfl | rfl) | digit) | letter
  · exact .inl rfl
  · exact .inr (.inl rfl)
  · exact .inr (.inr (.inl digit))
  · exact .inr (.inr (.inr letter))

theorem isBlank_of_isPlain {c : Char} (h : isPlain c = true) : isBlank c = false := by
  have := isPlain_bounds h
  unfold isBlank
  simp only [Bool.or_eq_false_iff, Bool.and_eq_false_iff, decide_eq_false_iff_not,
    beq_eq_false_iff_ne]
  omega

namespace IsWord

variable {cs ds : List Char}

theorem trim (h : IsWord cs) : Text.trim cs = cs :=
  trim_of_forall fun c hc => isBlank_of_isPlain (List.all_eq_true.mp h.2 c hc)

/-- No separator of rule text is plain. -/
theorem not_mem (h : IsWord cs) {separator : Char} (other : isPlain separator = false) :
    separator ∉ cs := fun mem => by
  have := List.all_eq_true.mp h.2 separator mem
  rw [other] at this
  cases this

theorem append (h : IsWord cs) (k : ds.all isPlain = true) : IsWord (cs ++ ds) := by
  refine ⟨by simp [h.1], ?_⟩
  rw [List.all_append, h.2, k]
  rfl

end IsWord

theorem isPlain_of_isDigit {c : Char} (h : c.isDigit = true) : isPlain c = true := by
  simp [isPlain, h]

theorem all_isPlain_of_digits {cs : List Char} (h : cs.all Char.isDigit = true) :
    cs.all isPlain = true :=
  List.all_eq_true.mpr fun c hc => isPlain_of_isDigit (List.all_eq_true.mp h c hc)

end Text

open Text

/-! ## 2. Numerals -/

namespace Numeral

theorem isWord_decimal (n : Nat) : IsWord (decimal n) :=
  ⟨decimal_ne_nil n, all_isPlain_of_digits (all_isDigit_decimal n)⟩

theorem isWord_signed (n : Int) : IsWord (signed n) := by
  cases n with
  | ofNat n => exact isWord_decimal n
  | negSucc n => exact ⟨by simp [signed], by simp [signed, (isWord_decimal (n + 1)).2, isPlain]⟩

/-- A number that is written without a sign begins with a digit. -/
theorem decimal_eq_cons (n : Nat) : ∃ c rest, decimal n = c :: rest ∧ c.isDigit = true := by
  cases h : decimal n with
  | nil => exact absurd h (decimal_ne_nil n)
  | cons c rest =>
    have digits := all_isDigit_decimal n
    rw [h] at digits
    exact ⟨c, rest, rfl, List.all_eq_true.mp digits c List.mem_cons_self⟩

/-- **A natural number reads back.** -/
theorem natural?_decimal {n most : Nat} (h : n ≤ most) : natural? most (decimal n) = some n := by
  obtain ⟨c, rest, e, digit⟩ := decimal_eq_cons n
  have plain : c ≠ '+' := by
    rintro rfl
    cases digit
  have read := digits?_decimal n
  unfold natural?
  rw [e] at *
  split
  · rename_i e'
    cases e'
    exact absurd rfl plain
  · rw [read, Option.filter_some, if_pos (decide_eq_true h)]

/-- **An integer reads back.** -/
theorem integer?_signed {n least most : Int} (low : least ≤ n) (high : n ≤ most) :
    integer? least most (signed n) = some n := by
  have within : decide (least ≤ n ∧ n ≤ most) = true := decide_eq_true ⟨low, high⟩
  cases n with
  | ofNat n =>
    obtain ⟨c, rest, e, digit⟩ := decimal_eq_cons n
    have read := digits?_decimal n
    unfold integer? signed
    simp only
    rw [e] at *
    split
    · rename_i e'
      cases e'
      cases digit
    · rename_i e'
      cases e'
      cases digit
    · rw [read, Option.map_some, Option.filter_some, if_pos within]
  | negSucc n =>
    unfold integer? signed
    simp only
    rw [digits?_decimal, Option.map_some, Option.filter_some]
    exact if_pos within

end Numeral

/-! ## 3. Vocabularies -/

theorem Frequency.parse_text (f : Frequency) : Frequency.parse f.text = .ok f := by
  cases f <;> rfl

theorem Weekday.parse_code (day : Weekday) : Weekday.parse day.code = .ok day := by
  cases day <;> rfl

theorem Skip.parse_text (s : Skip) : Skip.parse s.text = .ok s := by
  cases s <;> rfl

theorem Scale.parse_text (s : Scale) : Scale.parse s.text = .ok s := by
  cases s <;> rfl

theorem Frequency.isWord_text (f : Frequency) : IsWord f.text.toList := by
  cases f <;> decide

theorem Weekday.isWord_code (day : Weekday) : IsWord day.code.toList := by
  cases day <;> decide

theorem Skip.isWord_text (s : Skip) : IsWord s.text.toList := by
  cases s <;> decide

theorem Scale.isWord_text (s : Scale) : IsWord s.text.toList := by
  cases s <;> decide

namespace DayEntry

theorem cutCode?_append {c d : Char} (cs : List Char) (hc : c.utf8Size = 1) (hd : d.utf8Size = 1) :
    cutCode? (cs ++ [c, d]) = some (cs, [c, d]) := by
  unfold cutCode?
  rw [List.reverse_append]
  simp [hc, hd]

theorem cutCode?_append_code (cs : List Char) (day : Weekday) :
    cutCode? (cs ++ day.code.toList) = some (cs, day.code.toList) := by
  cases day <;> exact cutCode?_append cs rfl rfl

theorem isWord_chars (e : DayEntry) : IsWord e.chars := by
  have code := e.day.isWord_code
  unfold chars
  split
  · exact code
  · exact (Numeral.isWord_signed e.ordinal).append code.2

/-- **A weekday with an ordinal reads back.** -/
theorem parse_chars {e : DayEntry} (low : Numeral.signedMin ≤ e.ordinal)
    (high : e.ordinal ≤ Numeral.signedMax) : DayEntry.parse (String.ofList e.chars) = .ok e := by
  unfold DayEntry.parse
  simp only
  rw [String.toList_ofList, e.isWord_chars.trim]
  unfold chars
  rw [cutCode?_append_code]
  simp only [String.ofList_toList, Weekday.parse_code]
  by_cases zero : e.ordinal = 0
  · rw [if_pos zero]
    obtain ⟨ordinal, day⟩ := e
    cases zero
    rfl
  · have written := Numeral.isWord_signed e.ordinal
    rw [if_neg zero, if_neg (by simp [written.1]), Numeral.integer?_signed low high]
    rfl

end DayEntry

end Almanac
