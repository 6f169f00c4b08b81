import Almanac.Proofs.Calendar.Clock
import Almanac.Proofs.Text.Results
import Almanac.Proofs.Text.Words
import Almanac.Temporal.Parser
import Almanac.Temporal.Printer
import Mathlib.Data.Option.Basic

/-!
# Temporal text reads back

A value in the years 0 to 9999 is written in fields of a fixed width. This file shows

* both readers take such a field off the front of a text (`field?_padded`, `looseField?_padded`);
* **the strict reader reads back** every value without a zone and without a leap second
  (`readStrict_chars`); at a leap second it stops (`readStrict_leap`), and there the relaxed reader
  reads back (`readRelaxed_leap`);
* what a reader answers can be written so that it reads it (`Temporal.Legible`,
  `Temporal.legible_of_parseWith`): it has no zone, and a leap second comes from the relaxed reader
  and from the second 60 alone.
-/

namespace Almanac

open Numeral

/-! ## 1. Fields -/

namespace Temporal

variable {width least most n : Nat}

theorem take_padded (rest : List Char) : (padded width n ++ rest).take width = padded width n :=
  List.take_left' (length_padded width n)

theorem drop_padded (rest : List Char) : (padded width n ++ rest).drop width = rest :=
  List.drop_left' (length_padded width n)

/-- The strict reader takes off a field. -/
theorem field?_padded (fits : n < Nat.pow 10 width) (low : least ≤ n) (high : n ≤ most)
    (rest : List Char) : field? width least most (padded width n ++ rest) = some (n, rest) := by
  have value : value (padded width n) = n := by rw [value_padded, Nat.mod_eq_of_lt fits]
  unfold field?
  simp only
  rw [take_padded, drop_padded, value,
    if_pos ⟨length_padded width n, all_isDigit_padded width n, low, high⟩]

theorem fieldAt_padded (fits : n < Nat.pow 10 width) (low : least ≤ n) (high : n ≤ most)
    (position : Nat) (rest : List Char) :
    fieldAt position width least most (padded width n ++ rest) = .ok (n, rest) := by
  unfold fieldAt
  rw [field?_padded fits low high]

theorem fieldAt_of_lt (fits : n < Nat.pow 10 width) (high : most < n) (position : Nat)
    (rest : List Char) :
    fieldAt position width least most (padded width n ++ rest) = .error position := by
  have value : value (padded width n) = n := by rw [value_padded, Nat.mod_eq_of_lt fits]
  unfold fieldAt field?
  simp only
  rw [take_padded, value, if_neg fun h => by omega]

/-- The relaxed reader takes off the digits of a field. -/
theorem digitsUpTo?_padded (some : 0 < width) (fits : n < Nat.pow 10 width) (rest : List Char) :
    digitsUpTo? width (padded width n ++ rest) = .some (n, rest) := by
  have all : (padded width n).takeWhile Char.isDigit = padded width n := by
    have digits := List.all_eq_true.mp (all_isDigit_padded width n)
    rw [← List.append_nil (padded width n), List.takeWhile_append_of_pos digits]
    rfl
  have length := length_padded width n
  have full : (padded width n).isEmpty = false := by
    cases h : padded width n with
    | nil =>
      rw [h] at length
      simp only [List.length_nil] at length
      omega
    | cons c cs => rfl
  have value : value (padded width n) = n := by rw [value_padded, Nat.mod_eq_of_lt fits]
  unfold digitsUpTo?
  simp only
  rw [take_padded, all, full, length, drop_padded, value]
  rfl

theorem padded_eq_cons (some : 0 < width) (n : Nat) :
    ∃ c cs, padded width n = c :: cs ∧ c.isDigit = true := by
  have digits := all_isDigit_padded width n
  have length := length_padded width n
  cases h : padded width n with
  | nil =>
    rw [h] at length
    simp only [List.length_nil] at length
    omega
  | cons c cs =>
    rw [h] at digits
    exact ⟨c, cs, rfl, List.all_eq_true.mp digits c List.mem_cons_self⟩

theorem trimStart_padded (some : 0 < width) (rest : List Char) :
    Text.trimStart (padded width n ++ rest) = padded width n ++ rest := by
  obtain ⟨c, cs, e, digit⟩ := padded_eq_cons some n
  refine Text.trimStart_of_head? fun d hd => ?_
  rw [e] at hd
  cases hd
  exact Text.isBlank_of_isPlain (Text.isPlain_of_isDigit digit)

theorem looseField?_padded (some : 0 < width) (fits : n < Nat.pow 10 width) (low : least ≤ n)
    (high : n ≤ most) (rest : List Char) :
    looseField? width least most (padded width n ++ rest) = .some (n, rest) := by
  unfold looseField?
  rw [trimStart_padded some, digitsUpTo?_padded some fits, Option.filter_some]
  exact if_pos (decide_eq_true ⟨low, high⟩)

theorem looseYear?_padded (fits : n < 10000) (rest : List Char) :
    looseYear? (padded 4 n ++ rest) = some (Int.ofNat n, rest) := by
  have read : digitsUpTo? 4 (padded 4 n ++ rest) = some (n, rest) :=
    digitsUpTo?_padded (by decide) fits rest
  obtain ⟨c, cs, e, digit⟩ : ∃ c cs, padded 4 n = c :: cs ∧ c.isDigit = true :=
    padded_eq_cons (by decide) n
  unfold looseYear?
  rw [trimStart_padded (by decide), e]
  split
  · rename_i e'
    cases e'
    cases digit
  · rename_i e'
    cases e'
    cases digit
  · rw [← e, read]
    rfl

end Temporal

/-! ## 2. Dates and clocks -/

namespace Date

/-- The years whose digits are all there is of them. -/
def YearFits (d : Date) : Prop := 0 ≤ d.year ∧ d.year ≤ 9999

instance (d : Date) : Decidable d.YearFits := inferInstanceAs (Decidable (_ ∧ _))

theorem chars_eq {d : Date} (h : d.YearFits) :
    d.chars = padded 4 d.year.toNat ++ padded 2 d.month ++ padded 2 d.dayOfMonth := by
  have fits : 0 ≤ d.year ∧ d.year ≤ 9999 := h
  unfold chars yearText
  rw [if_pos fits]

theorem daysInMonth_le (y : Int) {m : Nat} (low : 1 ≤ m) (high : m ≤ 12) :
    daysInMonth y m ≤ 31 := by
  unfold daysInMonth
  rw [if_neg (by omega)]
  generalize isLeapYear y = leap
  have key : ∀ leap : Bool, ∀ i : Fin 12, (monthLengths leap)[i.val]?.getD 0 ≤ 31 := by decide
  exact key leap ⟨m - 1, by omega⟩

theorem ofFields?_self {d : Date} (h : d.YearFits) :
    Date.ofFields? (d.year.toNat : Int) d.month d.dayOfMonth = some d :=
  Date.ofFields?_eq_some_iff.mpr ⟨by have := h.1; omega, rfl, rfl⟩

end Date

namespace Temporal

/-! ## 3. The strict reader -/

theorem all_isPlain_chars {d : Date} (h : d.YearFits) : d.chars.all Text.isPlain = true := by
  rw [Date.chars_eq h, List.all_append, List.all_append]
  simp only [Text.all_isPlain_of_digits (all_isDigit_padded _ _), Bool.and_true]

theorem isWord_civil {c : Civil} (h : c.date.YearFits) : Text.IsWord c.chars := by
  refine ⟨by simp [Civil.chars], ?_⟩
  unfold Civil.chars Civil.clockChars
  rw [List.all_append, all_isPlain_chars h, List.all_cons, List.all_append, List.all_append]
  simp only [Text.all_isPlain_of_digits (all_isDigit_padded _ _), Bool.and_true]
  rfl

/-- What stands in no zone is written as a word. -/
theorem isWord_chars {t : Temporal} (zone : t.zone? = none) (h : t.toDate.YearFits) :
    Text.IsWord t.chars := by
  cases t with
  | date d =>
    have fits : d.YearFits := by
      rwa [toDate, localTime, Civil.date_midnight] at h
    refine ⟨?_, all_isPlain_chars fits⟩
    have length := length_padded 2 d.dayOfMonth
    intro none
    rw [show (Temporal.date d).chars = d.chars from rfl, Date.chars_eq fits,
      List.append_eq_nil_iff] at none
    rw [none.2] at length
    cases length
  | floating c => exact isWord_civil h
  | utc c => exact (isWord_civil h).append rfl
  | zoned z => cases zone

theorem dayOfMonth_le (d : Date) : d.dayOfMonth ≤ 31 := by
  have := d.fields_spec
  have := Date.daysInMonth_le d.year (m := d.month) (by omega) (by omega)
  omega

theorem readStrict_date {d : Date} (h : d.YearFits) (rest : List Char) :
    readStrict (d.chars ++ rest) = ofTimePart d rest := by
  have fields := d.fields_spec
  have last := dayOfMonth_le d
  have year := h
  unfold Date.YearFits at year
  unfold readStrict
  rw [Date.chars_eq h, List.append_assoc, List.append_assoc,
    fieldAt_padded (by show _ < 10000; omega) (by omega) (by omega)]
  show (fieldAt 4 2 1 12 _).bind _ = _
  rw [fieldAt_padded (by show _ < 100; omega) (by omega) (by omega)]
  show (fieldAt 6 2 1 31 _).bind _ = _
  rw [fieldAt_padded (by show _ < 100; omega) (by omega) (by omega)]
  simp only [Except.bind]
  rw [Date.ofFields?_self h]

/-- The clock in front of a text, up to the digits of the second. -/
theorem ofTimePart_clock (d : Date) (c : Civil) (second : Nat) (rest : List Char) :
    ofTimePart d ('T' :: (padded 2 c.hour ++ padded 2 c.minute ++ padded 2 second ++ rest)) =
      (fieldAt 13 2 0 59 (padded 2 second ++ rest)).bind fun (second, cs) =>
        ofSuffix (Civil.atClock d c.hour c.minute second false) cs := by
  obtain ⟨hour, minute, -⟩ := c.clock_bounds
  rw [List.append_assoc, List.append_assoc]
  show (fieldAt 9 2 0 23 _).bind _ = _
  rw [fieldAt_padded (by show _ < 100; omega) (by omega) hour]
  show (fieldAt 11 2 0 59 _).bind _ = _
  rw [fieldAt_padded (by show _ < 100; omega) (by omega) minute]
  rfl

theorem readStrict_civil {c : Civil} (h : c.date.YearFits) (plain : c.leap = false)
    (rest : List Char) : readStrict (c.chars ++ rest) = ofSuffix c rest := by
  obtain ⟨-, -, second⟩ := c.clock_bounds
  unfold Civil.chars Civil.clockChars
  rw [List.append_assoc, List.cons_append, readStrict_date h, plain]
  simp only [Bool.false_eq_true, if_false]
  rw [ofTimePart_clock, fieldAt_padded (by show _ < 100; omega) (by omega) second]
  show ofSuffix (Civil.atClock c.date c.hour c.minute c.second false) rest = _
  rw [← plain, Civil.atClock_self]

/-- **The strict reader reads back what stands in no zone and at no leap second.** -/
theorem readStrict_chars {t : Temporal} (zone : t.zone? = none) (h : t.toDate.YearFits)
    (plain : t.localTime.leap = false) : readStrict t.chars = .ok t := by
  cases t with
  | date d =>
    have fits : d.YearFits := by
      rwa [toDate, localTime, Civil.date_midnight] at h
    have read := readStrict_date fits []
    rw [List.append_nil] at read
    exact read
  | floating c =>
    have read := readStrict_civil h plain []
    rw [List.append_nil] at read
    exact read
  | utc c => exact readStrict_civil h plain ['Z']
  | zoned z => cases zone

/-- At a leap second the strict reader stops. -/
theorem readStrict_leap {c : Civil} (h : c.date.YearFits) (leap : c.leap = true)
    (sixty : c.second = 59) (rest : List Char) : readStrict (c.chars ++ rest) = .error 13 := by
  unfold Civil.chars Civil.clockChars
  rw [List.append_assoc, List.cons_append, readStrict_date h, leap]
  simp only [if_true]
  rw [ofTimePart_clock, sixty, fieldAt_of_lt (by decide) (by decide)]
  rfl

/-! ## 4. The relaxed reader -/

theorem looseDate?_chars {d : Date} (h : d.YearFits) (rest : List Char) :
    looseDate? (d.chars ++ rest) = some (d, rest) := by
  have fields := d.fields_spec
  have last := dayOfMonth_le d
  have year := h
  unfold Date.YearFits at year
  unfold looseDate?
  rw [Date.chars_eq h, List.append_assoc, List.append_assoc, looseYear?_padded (by omega)]
  show (looseField? 2 1 12 _).bind _ = _
  rw [looseField?_padded (by decide) (by show _ < 100; omega) (by omega) (by omega)]
  show (looseField? 2 1 31 _).bind _ = _
  rw [looseField?_padded (by decide) (by show _ < 100; omega) (by omega) (by omega)]
  show ((Date.ofFields? d.year.toNat d.month d.dayOfMonth).bind fun found => some (found, rest)) = _
  rw [Date.ofFields?_self h]
  rfl

/-- **The relaxed reader reads back a leap second.** -/
theorem looseCivil?_leap {c : Civil} (h : c.date.YearFits) (leap : c.leap = true)
    (sixty : c.second = 59) (rest : List Char) :
    looseCivil? true (c.chars ++ rest) = some (c, rest) := by
  obtain ⟨hour, minute, -⟩ := c.clock_bounds
  unfold Civil.chars Civil.clockChars looseCivil?
  rw [List.append_assoc, List.cons_append, looseDate?_chars h, leap, sixty]
  show (looseField? 2 0 23 (padded 2 c.hour ++ padded 2 c.minute ++ padded 2 60 ++ rest)).bind _ = _
  rw [List.append_assoc, List.append_assoc,
    looseField?_padded (by decide) (by show _ < 100; omega) (by omega) hour]
  show (looseField? 2 0 59 _).bind _ = _
  rw [looseField?_padded (by decide) (by show _ < 100; omega) (by omega) minute]
  simp only [Option.bind_eq_bind, Option.bind_some, if_true]
  rw [looseField?_padded (by decide) (by decide) (by decide) (by decide)]
  show some (Civil.atClock c.date c.hour c.minute 59 true, rest) = _
  rw [← leap, ← sixty, Civil.atClock_self]

theorem readRelaxed_leap {c : Civil} (h : c.date.YearFits) (leap : c.leap = true)
    (sixty : c.second = 59) :
    readRelaxed c.chars = some (floating c) ∧ readRelaxed (c.chars ++ ['Z']) = some (utc c) := by
  have alone := looseCivil?_leap h leap sixty []
  rw [List.append_nil] at alone
  unfold readRelaxed
  rw [alone, looseCivil?_leap h leap sixty]
  exact ⟨rfl, rfl⟩

/-! ## 5. What a reader answers -/

/-- A value that a reader answers when it reads the text of the value: it has no zone, and only
    where the relaxed reader may help it is a leap second, the one after a second 59. -/
structure Legible (relaxed : Bool) (t : Temporal) : Prop where
  zone : t.zone? = none
  leap : t.localTime.leap = true → relaxed = true ∧ t.localTime.second = 59

theorem parseWith_of_relaxed {t : Temporal} {position : Nat}
    (strict : readStrict t.chars = .error position) (loose : readRelaxed t.chars = some t) :
    parseWith true t.text = .ok t := by
  unfold parseWith text
  rw [String.toList_ofList, strict]
  simp only [if_true]
  rw [loose]

/-- **The text of a legible value reads back.** -/
theorem parseWith_text {relaxed : Bool} {t : Temporal} (h : t.Legible relaxed)
    (year : t.toDate.YearFits) : parseWith relaxed t.text = .ok t := by
  cases leap : t.localTime.leap with
  | false =>
    unfold parseWith text
    rw [String.toList_ofList, readStrict_chars h.zone year leap]
  | true =>
    obtain ⟨rfl, sixty⟩ := h.leap leap
    cases t with
    | date d => cases leap
    | floating c =>
      have strict := readStrict_leap (c := c) year leap sixty []
      rw [List.append_nil] at strict
      exact parseWith_of_relaxed strict (readRelaxed_leap (c := c) year leap sixty).1
    | utc c =>
      exact parseWith_of_relaxed (readStrict_leap (c := c) year leap sixty ['Z'])
        (readRelaxed_leap (c := c) year leap sixty).2
    | zoned z => cases h.zone

theorem Legible.of_plain {relaxed : Bool} {t : Temporal} (zone : t.zone? = none)
    (plain : t.localTime.leap = false) : t.Legible relaxed where
  zone := zone
  leap h := by
    rw [plain] at h
    cases h

theorem ofSuffix_plain {c : Civil} (plain : c.leap = false) {suffix : List Char} {t : Temporal}
    (h : ofSuffix c suffix = .ok t) : t.zone? = none ∧ t.localTime.leap = false := by
  unfold ofSuffix at h
  split at h
  · cases h
    exact ⟨rfl, plain⟩
  · cases h
    exact ⟨rfl, plain⟩
  · cases h
  · split at h
    · rename_i instant found
      cases h
      obtain ⟨offset, -, shifted⟩ := Option.bind_eq_some_iff.mp found
      refine ⟨rfl, ?_⟩
      unfold Civil.addSeconds? at shifted
      split at shifted
      · cases shifted
        exact plain
      · unfold Civil.ofStamp? at shifted
        split at shifted
        · cases shifted
          rfl
        · cases shifted
    · cases h

theorem ofTimePart_plain {d : Date} {cs : List Char} {t : Temporal}
    (h : ofTimePart d cs = .ok t) : t.zone? = none ∧ t.localTime.leap = false := by
  unfold ofTimePart at h
  split at h
  · cases h
    exact ⟨rfl, rfl⟩
  · obtain ⟨hour, -, h⟩ := Results.bind_eq_ok h
    obtain ⟨minute, -, h⟩ := Results.bind_eq_ok h
    obtain ⟨second, -, h⟩ := Results.bind_eq_ok h
    exact ofSuffix_plain rfl h
  · cases h

/-- What the strict reader answers has no zone and is no leap second. -/
theorem readStrict_plain {cs : List Char} {t : Temporal} (h : readStrict cs = .ok t) :
    t.zone? = none ∧ t.localTime.leap = false := by
  unfold readStrict at h
  obtain ⟨year, -, h⟩ := Results.bind_eq_ok h
  obtain ⟨month, -, h⟩ := Results.bind_eq_ok h
  obtain ⟨day, -, h⟩ := Results.bind_eq_ok h
  simp only at h
  split at h
  · exact ofTimePart_plain h
  · cases h

/-- The relaxed reader makes a leap second of the second 60 alone. -/
theorem leap_of_looseCivil? {toTheSecond : Bool} {cs rest : List Char} {c : Civil}
    (h : looseCivil? toTheSecond cs = some (c, rest)) : c.leap = true → c.second = 59 := by
  have made : ∃ day hour minute second,
      c = Civil.atClock day hour minute (min second 59) (second = 60) := by
    unfold looseCivil? at h
    cases toTheSecond <;>
      simp only [Option.bind_eq_bind, Option.bind_eq_some_iff, if_true, Bool.false_eq_true,
        if_false, Prod.exists, Option.pure_def, Option.some.injEq, Prod.mk.injEq] at h
    · obtain ⟨day, -, -, -, -, hour, -, -, minute, -, -, second, -, -, rfl, -⟩ := h
      exact ⟨day, hour, minute, second, rfl⟩
    · obtain ⟨day, -, -, -, -, hour, -, -, minute, -, -, second, -, -, rfl, -⟩ := h
      exact ⟨day, hour, minute, second, rfl⟩
  obtain ⟨day, hour, minute, second, rfl⟩ := made
  intro leap
  have sixty : second = 60 := of_decide_eq_true leap
  rw [sixty]
  exact Civil.second_atClock day hour minute

theorem readRelaxed_legible {cs : List Char} {t : Temporal} (h : readRelaxed cs = some t) :
    t.Legible true := by
  unfold readRelaxed at h
  split at h
  · rename_i civil rest found
    have sixty : civil.leap = true → civil.second = 59 := by
      cases seconds : looseCivil? true cs with
      | some both =>
        rw [seconds] at found
        cases found
        exact leap_of_looseCivil? seconds
      | none =>
        rw [seconds] at found
        exact leap_of_looseCivil? found
    split at h
    · cases h
      exact ⟨rfl, fun leap => ⟨rfl, sixty leap⟩⟩
    · cases h
      exact ⟨rfl, fun leap => ⟨rfl, sixty leap⟩⟩
  · obtain ⟨⟨d, rest⟩, -, rfl⟩ := Option.map_eq_some_iff.mp h
    exact .of_plain rfl rfl

/-- **What the readers answer is legible to them.** -/
theorem legible_of_parseWith {relaxed : Bool} {value : String} {t : Temporal}
    (h : parseWith relaxed value = .ok t) : t.Legible relaxed := by
  unfold parseWith at h
  split at h
  · rename_i read
    cases h
    obtain ⟨zone, plain⟩ := readStrict_plain read
    exact .of_plain zone plain
  · cases relaxed with
    | false => cases h
    | true =>
      rw [if_pos rfl] at h
      split at h
      · rename_i read
        cases h
        exact readRelaxed_legible read
      · cases h

end Temporal

end Almanac
