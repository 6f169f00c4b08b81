import Almanac.Proofs.Temporal.RoundTrip
import Mathlib.Data.String.Basic

/-!
# The texts that the strict reader accepts

The strict reader goes through a text field by field. This file says what it accepts without a word
about how it reads, by the texts themselves:

* **a grammar** (`Temporal.Writes`, `Temporal.WritesAhead`): eight digits that name a date, alone or
  with a `T` and six digits that name a time of day, and after those perhaps a `Z` or an offset. Fields
  have their full width in ASCII digits, and nothing else may stand anywhere;
* without an offset a text of the grammar is the text of its value (`Temporal.writes_iff`), so there is
  one such text for each value;
* **the parts that a text can go wrong with** (`Temporal.parts`), each at its position: the reader
  tells the position of the first that is not good (`Temporal.StopsAt`).

Reading is brought to these by one equation for a field where it stands (`Temporal.fieldAt_drop`) and
by what holds of a text up to each place the reader comes to (`Temporal.Reached`). Main result:
`Temporal.read_by_the_grammar`.
-/

namespace Almanac

open Numeral

/-! ## 1. Digits -/

namespace Numeral

/-- Exactly so many ASCII digits. -/
def Digits (width : Nat) (cs : List Char) : Prop := cs.length = width ∧ cs.all Char.isDigit = true

instance (width : Nat) (cs : List Char) : Decidable (Digits width cs) :=
  inferInstanceAs (Decidable (_ ∧ _))

theorem toNat_of_isDigit {c : Char} (h : c.isDigit = true) : 48 ≤ c.toNat ∧ c.toNat ≤ 57 := by
  unfold Char.isDigit at h
  simp only [Bool.and_eq_true, decide_eq_true_eq, ge_iff_le, UInt32.le_iff_toNat_le] at h
  exact h

/-- The last of several digits, and the digits before it. -/
theorem Digits.exists_concat {width : Nat} {cs : List Char} (h : Digits (width + 1) cs) :
    ∃ front c, cs = front ++ [c] ∧ Digits width front ∧ c.isDigit = true := by
  obtain ⟨length, digits⟩ := h
  rcases List.eq_nil_or_concat' cs with none | ⟨front, c, rfl⟩
  · rw [none] at length
    cases length
  · rw [List.length_append] at length
    rw [List.all_append, Bool.and_eq_true] at digits
    exact ⟨front, c, rfl, ⟨Nat.succ.inj length, digits.1⟩, List.all_eq_true.mp digits.2 c (by simp)⟩

theorem digitValue_of_isDigit {c : Char} (h : c.isDigit = true) :
    digitValue c < 10 ∧ digitChar (digitValue c) = c := by
  have bounds := toNat_of_isDigit h
  have value : digitValue c = c.toNat - 48 := rfl
  refine ⟨by omega, Char.ext (UInt32.toNat.inj ?_)⟩
  show (digitChar (digitValue c)).toNat = c.toNat
  rw [toNat_digitChar (by omega)]
  omega

/-- **Digits are told by their number and their value.** -/
theorem Digits.eq_padded {width : Nat} {cs : List Char} (h : Digits width cs) :
    cs = padded width (value cs) := by
  induction width generalizing cs with
  | zero => exact List.length_eq_zero_iff.mp h.1
  | succ width ih =>
    obtain ⟨front, c, rfl, digits, last⟩ := h.exists_concat
    obtain ⟨below, own⟩ := digitValue_of_isDigit last
    have tens : (10 * value front + digitValue c) / 10 = value front := by omega
    have ones : (10 * value front + digitValue c) % 10 = digitValue c := by omega
    rw [value_append_singleton, padded, tens, ones, ← ih digits, own]

theorem Digits.value_lt {width : Nat} {cs : List Char} (h : Digits width cs) :
    value cs < Nat.pow 10 width := by
  have own := value_padded width (value cs)
  rw [← h.eq_padded] at own
  rw [own]
  exact Nat.mod_lt _ (Nat.pow_pos (by decide))

theorem digits_padded (width n : Nat) : Digits width (padded width n) :=
  ⟨length_padded width n, all_isDigit_padded width n⟩

/-- Padded digits are the digits of a value that fits. -/
theorem value_padded_of_lt {width n : Nat} (h : n < Nat.pow 10 width) :
    value (padded width n) = n := by
  rw [value_padded, Nat.mod_eq_of_lt h]

end Numeral

namespace Temporal

variable {cs : List Char} {d : Date} {c : Civil} {t : Temporal} {offset : Int}

/-! ## 2. The grammar -/

/-- Eight digits that name a date by its year, month and day of the month. -/
def WritesDate (cs : List Char) (d : Date) : Prop :=
  ∃ year month day, cs = year ++ month ++ day ∧ Digits 4 year ∧ Digits 2 month ∧ Digits 2 day ∧
    d.year = value year ∧ d.month = value month ∧ d.dayOfMonth = value day

/-- Six digits that name a time of day by its hour, minute and second. -/
def WritesClock (cs : List Char) (c : Civil) : Prop :=
  ∃ hour minute second, cs = hour ++ minute ++ second ∧
    Digits 2 hour ∧ Digits 2 minute ∧ Digits 2 second ∧
    c.hour = value hour ∧ c.minute = value minute ∧ c.second = value second

/-- A date and a time of day with a `T` between them; no text names a leap second. -/
def WritesCivil (cs : List Char) (c : Civil) : Prop :=
  c.leap = false ∧ ∃ day clock, cs = day ++ 'T' :: clock ∧ WritesDate day c.date ∧
    WritesClock clock c

/-- The texts without an offset, and the values that they write. -/
inductive Writes : List Char → Temporal → Prop
  | date {cs : List Char} {d : Date} (h : WritesDate cs d) : Writes cs (.date d)
  | floating {cs : List Char} {c : Civil} (h : WritesCivil cs c) : Writes cs (.floating c)
  | utc {cs : List Char} {c : Civil} (h : WritesCivil cs c) : Writes (cs ++ ['Z']) (.utc c)

/-- What may end an offset: nothing, or two digits of seconds, up to 60. -/
def WritesSeconds (cs : List Char) : Prop := cs = [] ∨ Digits 2 cs ∧ value cs ≤ 60

/-- A sign, two digits of hours, two of minutes below 60, and perhaps seconds: so many seconds ahead of
    UTC, or behind it. -/
def WritesOffset (cs : List Char) (offset : Int) : Prop :=
  ∃ sign hours minutes seconds, cs = sign :: (hours ++ minutes ++ seconds) ∧
    (sign = '+' ∨ sign = '-') ∧ Digits 2 hours ∧ Digits 2 minutes ∧ value minutes < 60 ∧
    WritesSeconds seconds ∧
    offset = (if sign = '-' then -1 else 1) *
      (value hours * 3600 + value minutes * 60 + value seconds : Nat)

/-- A civil time with an offset behind it. -/
def WritesAhead (cs : List Char) (c : Civil) (offset : Int) : Prop :=
  ∃ civil ahead, cs = civil ++ ahead ∧ WritesCivil civil c ∧ WritesOffset ahead offset

theorem writesDate_iff : WritesDate cs d ↔ d.YearFits ∧ cs = d.chars := by
  obtain ⟨low, high, first, -, -⟩ := d.fields_spec
  have last := dayOfMonth_le d
  constructor
  · intro ⟨year, month, day, text, hy, hm, hd, ey, em, ed⟩
    have below : value year < 10000 := hy.value_lt
    have fits : d.YearFits := ⟨by omega, by omega⟩
    refine ⟨fits, ?_⟩
    rw [text, Date.chars_eq fits, em, ed, ey, Int.toNat_natCast, ← hy.eq_padded, ← hm.eq_padded,
      ← hd.eq_padded]
  · intro ⟨fits, text⟩
    have year : 0 ≤ d.year ∧ d.year ≤ 9999 := fits
    refine ⟨padded 4 d.year.toNat, padded 2 d.month, padded 2 d.dayOfMonth,
      text.trans (Date.chars_eq fits), digits_padded .., digits_padded .., digits_padded .., ?_, ?_, ?_⟩
    · rw [value_padded_of_lt (by show _ < 10000; omega)]
      omega
    · rw [value_padded_of_lt (by show _ < 100; omega)]
    · rw [value_padded_of_lt (by show _ < 100; omega)]

theorem writesClock_iff (plain : c.leap = false) : WritesClock cs c ↔ cs = c.clockChars := by
  obtain ⟨hour, minute, second⟩ := c.clock_bounds
  unfold Civil.clockChars
  rw [plain]
  simp only [Bool.false_eq_true, if_false]
  constructor
  · intro ⟨hs, ms, ss, text, hh, hm, hs', eh, em, es⟩
    rw [text, eh, em, es, ← hh.eq_padded, ← hm.eq_padded, ← hs'.eq_padded]
  · intro text
    refine ⟨padded 2 c.hour, padded 2 c.minute, padded 2 c.second, text,
      digits_padded .., digits_padded .., digits_padded .., ?_, ?_, ?_⟩
    · rw [value_padded_of_lt (by show _ < 100; omega)]
    · rw [value_padded_of_lt (by show _ < 100; omega)]
    · rw [value_padded_of_lt (by show _ < 100; omega)]

theorem writesCivil_iff :
    WritesCivil cs c ↔ c.date.YearFits ∧ c.leap = false ∧ cs = c.chars := by
  unfold WritesCivil Civil.chars
  constructor
  · intro ⟨plain, day, clock, text, hd, hc⟩
    obtain ⟨fits, rfl⟩ := writesDate_iff.mp hd
    exact ⟨fits, plain, by rw [text, (writesClock_iff plain).mp hc]⟩
  · intro ⟨fits, plain, text⟩
    exact ⟨plain, c.date.chars, c.clockChars, text, writesDate_iff.mpr ⟨fits, rfl⟩,
      (writesClock_iff plain).mpr rfl⟩

/-- **Without an offset, a text of the grammar is the text of its value.** -/
theorem writes_iff : Writes cs t ↔
    t.zone? = none ∧ t.toDate.YearFits ∧ t.localTime.leap = false ∧ cs = t.chars := by
  constructor
  · intro h
    cases h with
    | @date _ d h =>
      obtain ⟨fits, text⟩ := writesDate_iff.mp h
      refine ⟨rfl, ?_, rfl, text⟩
      rwa [toDate, localTime, Civil.date_midnight]
    | floating h =>
      obtain ⟨fits, plain, text⟩ := writesCivil_iff.mp h
      exact ⟨rfl, fits, plain, text⟩
    | utc h =>
      obtain ⟨fits, plain, rfl⟩ := writesCivil_iff.mp h
      exact ⟨rfl, fits, plain, rfl⟩
  · rintro ⟨zone, fits, plain, rfl⟩
    cases t with
    | date d =>
      rw [toDate, localTime, Civil.date_midnight] at fits
      exact .date (writesDate_iff.mpr ⟨fits, rfl⟩)
    | floating c => exact .floating (writesCivil_iff.mpr ⟨fits, plain, rfl⟩)
    | utc c => exact .utc (writesCivil_iff.mpr ⟨fits, plain, rfl⟩)
    | zoned z => cases zone

/-! ## 3. Fields and offsets -/

/-- Exactly so many digits, of a value between two bounds. -/
def IsField (width least most : Nat) (cs : List Char) : Prop :=
  Digits width cs ∧ least ≤ value cs ∧ value cs ≤ most

instance (width least most : Nat) (cs : List Char) : Decidable (IsField width least most cs) :=
  inferInstanceAs (Decidable (_ ∧ _))

theorem field?_eq (width least most : Nat) (cs : List Char) : field? width least most cs =
    if IsField width least most (cs.take width) then
      some (value (cs.take width), cs.drop width)
    else none := by
  unfold field?
  dsimp only
  exact if_congr (by unfold IsField Digits; rw [and_assoc]) rfl rfl

theorem field?_append {width least most : Nat} {ds : List Char} (h : IsField width least most ds)
    (rest : List Char) : field? width least most (ds ++ rest) = some (value ds, rest) := by
  rw [field?_eq, List.take_left' h.1.1, List.drop_left' h.1.1, if_pos h]

theorem eq_append_of_field? {width least most n : Nat} {rest : List Char}
    (h : field? width least most cs = some (n, rest)) :
    ∃ ds, cs = ds ++ rest ∧ IsField width least most ds ∧ n = value ds := by
  rw [field?_eq] at h
  split at h
  · rename_i isField
    cases h
    exact ⟨cs.take width, (List.take_append_drop width cs).symm, isField, rfl⟩
  · cases h

theorem writesOffset_of_offset? (h : offset? cs = some offset) : WritesOffset cs offset := by
  cases cs with
  | nil => cases h
  | cons sign cs =>
    obtain ⟨_, isSign, h⟩ := Option.bind_eq_some_iff.mp h
    obtain ⟨⟨_, cs₁⟩, hours, h⟩ := Option.bind_eq_some_iff.mp h
    obtain ⟨⟨_, cs₂⟩, minutes, h⟩ := Option.bind_eq_some_iff.mp h
    obtain ⟨hs, text, hh, rfl⟩ := eq_append_of_field? hours
    obtain ⟨ms, text₁, hm, rfl⟩ := eq_append_of_field? minutes
    have signed : sign = '+' ∨ sign = '-' := by
      unfold guard at isSign
      split at isSign
      · assumption
      · cases isSign
    have found : WritesSeconds cs₂ ∧ (if sign = '-' then
        -((value hs * 3600 + value ms * 60 + value cs₂ : Nat) : Int)
        else (value hs * 3600 + value ms * 60 + value cs₂ : Nat)) = offset := by
      dsimp only at h
      split at h
      · rename_i none
        have none : cs₂ = [] := List.isEmpty_iff.mp none
        exact ⟨.inl none, by rw [none]; exact Option.some.inj h⟩
      · obtain ⟨⟨_, cs₃⟩, seconds, h⟩ := Option.bind_eq_some_iff.mp h
        obtain ⟨_, atEnd, h⟩ := Option.bind_eq_some_iff.mp h
        obtain ⟨ss, text₂, isSeconds, rfl⟩ := eq_append_of_field? seconds
        have none : cs₃ = [] := by
          unfold guard at atEnd
          split at atEnd
          · exact List.isEmpty_iff.mp ‹_›
          · cases atEnd
        rw [text₂, none, List.append_nil]
        exact ⟨.inr ⟨isSeconds.1, isSeconds.2.2⟩, Option.some.inj h⟩
    refine ⟨sign, hs, ms, cs₂, by rw [text, text₁, List.append_assoc], signed, hh.1, hm.1,
      Nat.lt_succ_of_le hm.2.2, found.1, ?_⟩
    rw [← found.2]
    split
    · omega
    · omega

/-- **An offset is read just when the grammar has it.** -/
theorem offset?_eq_some_iff : offset? cs = some offset ↔ WritesOffset cs offset := by
  refine ⟨writesOffset_of_offset?, ?_⟩
  intro ⟨sign, hours, minutes, seconds, text, hsign, hh, hm, small, hs, own⟩
  have isHours : IsField 2 0 99 hours := ⟨hh, Nat.zero_le _, Nat.le_of_lt_succ hh.value_lt⟩
  have isMinutes : IsField 2 0 59 minutes := ⟨hm, Nat.zero_le _, Nat.le_of_lt_succ small⟩
  have total : offset = if sign = '-' then
      -((value hours * 3600 + value minutes * 60 + value seconds : Nat) : Int)
      else (value hours * 3600 + value minutes * 60 + value seconds : Nat) := by
    rw [own]
    split
    · omega
    · omega
  rw [text, List.append_assoc, total]
  unfold offset?
  simp only [hsign, guard, if_true, field?_append isHours, field?_append isMinutes,
    Option.pure_def, Option.bind_eq_bind, Option.bind_some]
  rcases hs with rfl | ⟨digits, most⟩
  · rfl
  · have isSeconds : IsField 2 0 60 seconds := ⟨digits, Nat.zero_le _, most⟩
    have read := field?_append isSeconds []
    rw [List.append_nil] at read
    have some' : seconds.isEmpty = false := by
      rw [List.isEmpty_eq_false_iff, ← List.length_pos_iff, digits.1]
      decide
    rw [some', read]
    rfl

/-! ## 4. The parts of a text -/

/-- So many characters of a text from a position on. -/
def slice (cs : List Char) (position width : Nat) : List Char := (cs.drop position).take width

/-- Something that stands at a position of a text, and what it must be for the text to go on. -/
structure Part where
  start : Nat
  good : List Char → Prop

/-- A field as a part of a text. -/
def Part.field (start width least most : Nat) : Part :=
  ⟨start, fun cs => IsField width least most (slice cs start width)⟩

/-- **What a text may go wrong with**, in the order of the text: the fields of a date, which together
    name one, the `T`, the fields of a time of day, and a `Z` with nothing after it. -/
def parts : List Part :=
  [.field 0 4 0 9999, .field 4 2 1 12, ⟨6, fun cs => ∃ d, WritesDate (cs.take 8) d⟩,
    ⟨8, fun cs => cs[8]? = some 'T'⟩, .field 9 2 0 23, .field 11 2 0 59, .field 13 2 0 59,
    ⟨15, fun cs => cs[15]? = some 'Z'⟩, ⟨16, fun cs => cs.length ≤ 16⟩]

/-- Among the parts of a text, so many are good. -/
def GoodTo (cs : List Char) (n : Nat) : Prop := ∀ part ∈ parts.take n, part.good cs

/-- A position lies in a text behind ASCII characters only, so it counts bytes as well. -/
def Counts (cs : List Char) (position : Nat) : Prop :=
  position ≤ cs.length ∧ ∀ c ∈ cs.take position, c.utf8Size = 1

/-- A text goes wrong at a position: the first part that is not good stands there. -/
def StopsAt (cs : List Char) (position : Nat) : Prop :=
  ∃ n part, parts[n]? = some part ∧ part.start = position ∧ GoodTo cs n ∧ ¬ part.good cs

theorem GoodTo.succ {n : Nat} {part : Part} (h : GoodTo cs n) (next : parts[n]? = some part)
    (good : part.good cs) : GoodTo cs (n + 1) := by
  intro other mem
  rw [List.take_add_one, List.mem_append, next] at mem
  rcases mem with mem | mem
  · exact h other mem
  · rw [List.mem_singleton.mp mem]
    exact good

theorem utf8Size_of_isDigit {c : Char} (h : c.isDigit = true) : c.utf8Size = 1 := by
  have bounds := toNat_of_isDigit h
  exact Char.utf8Size_eq_one_iff.mpr (UInt32.le_iff_toNat_le.mpr (Nat.le_trans bounds.2 (by decide)))

theorem counts_zero : Counts cs 0 := ⟨Nat.zero_le _, fun _ mem => absurd mem List.not_mem_nil⟩

theorem Counts.field {position width least most : Nat} (h : Counts cs position)
    (field : IsField width least most (slice cs position width)) : Counts cs (position + width) := by
  obtain ⟨⟨length, digits⟩, -⟩ := field
  unfold slice at length digits
  refine ⟨?_, ?_⟩
  · rw [List.length_take, List.length_drop] at length
    have := h.1
    omega
  · intro c mem
    rw [List.take_add, List.mem_append] at mem
    rcases mem with mem | mem
    · exact h.2 c mem
    · exact utf8Size_of_isDigit (List.all_eq_true.mp digits c mem)

theorem Counts.char {position : Nat} {c : Char} (h : Counts cs position)
    (here : cs[position]? = some c) (plain : c.utf8Size = 1) : Counts cs (position + 1) := by
  refine ⟨(List.getElem?_eq_some_iff.mp here).1, ?_⟩
  intro other mem
  rw [List.take_add_one, List.mem_append, here] at mem
  rcases mem with mem | mem
  · exact h.2 other mem
  · rw [List.mem_singleton.mp mem]
    exact plain

/-- In a string such a position is one of its bytes, or its end. -/
theorem Counts.utf8ByteSize {v : String} {position : Nat} (h : Counts v.toList position) :
    (String.ofList (v.toList.take position)).utf8ByteSize = position ∧
      position ≤ v.utf8ByteSize := by
  have size : ∀ ds : List Char, (∀ c ∈ ds, c.utf8Size = 1) →
      (String.ofList ds).utf8ByteSize = ds.length := by
    intro ds plain
    induction ds with
    | nil => rfl
    | cons d ds ih =>
      rw [String.utf8ByteSize_ofList, String.utf8Len_cons, ← String.utf8ByteSize_ofList,
        ih fun c mem => plain c (List.mem_cons_of_mem d mem), plain d List.mem_cons_self,
        List.length_cons]
  have front : (String.ofList (v.toList.take position)).utf8ByteSize = position := by
    rw [size _ h.2, List.length_take, Nat.min_eq_left h.1]
  refine ⟨front, ?_⟩
  have whole : v = String.ofList (v.toList.take position) ++ String.ofList (v.toList.drop position) := by
    rw [← String.ofList_append, List.take_append_drop, String.ofList_toList]
  rw [whole, String.utf8ByteSize_append, front]
  exact Nat.le_add_right ..

/-! ## 5. Instants -/

/-- What a civil time with an offset stands for: the instant that is the offset before it. -/
def IsInstantAt (t : Temporal) (c : Civil) (offset : Int) : Prop :=
  ∃ i, t = .utc i ∧ i.stamp = c.stamp - offset ∧ i.leap = false

theorem WritesOffset.bounds (h : WritesOffset cs offset) : -400000 ≤ offset ∧ offset ≤ 400000 := by
  obtain ⟨sign, hours, minutes, seconds, -, -, hh, -, small, hs, own⟩ := h
  have hours : value hours < 100 := hh.value_lt
  have seconds : value seconds ≤ 60 := by
    rcases hs with rfl | ⟨-, most⟩
    · exact Nat.zero_le _
    · exact most
  split at own
  · omega
  · omega

/-- Years of four digits lie far inside the calendar. -/
theorem stamp_of_yearFits (fits : c.date.YearFits) :
    firstStamp + 400000 ≤ c.stamp ∧ c.stamp ≤ lastStamp - 400000 := by
  obtain ⟨low, high⟩ := c.date.year_bounds
  have first := yearStart_le_of_le fits.1
  have last := yearStart_le_of_le (y := c.date.year + 1) (z := 10000) (by have := fits.2; omega)
  rw [Civil.day_date] at low high
  have zero : yearStart 0 = 0 := by decide
  have end' : yearStart 10000 = 3652425 := by decide
  simp only [firstStamp, lastStamp]
  omega

/-- **An offset of a civil time always leads to an instant.** -/
theorem exists_instant (h : WritesOffset cs offset) (fits : c.date.YearFits)
    (plain : c.leap = false) : ∃ i, c.addSeconds? (-offset) = some i ∧
      i.stamp = c.stamp - offset ∧ i.leap = false := by
  have := h.bounds
  have := stamp_of_yearFits fits
  have within : firstStamp ≤ c.stamp - offset ∧ c.stamp - offset ≤ lastStamp := by omega
  refine ⟨⟨c.stamp - offset, false, within.1, within.2⟩, ?_, rfl, rfl⟩
  exact (Civil.addSeconds?_eq_some_iff_of_plain plain).mpr ⟨Int.sub_eq_add_neg, rfl⟩

/-! ## 6. What the reader answers -/

/-- An answer of the reader that the grammar bears out. -/
def Answers (cs : List Char) : Except Nat Temporal → Prop
  | .ok t => Writes cs t ∨ ∃ c offset, WritesAhead cs c offset ∧ IsInstantAt t c offset
  | .error position => StopsAt cs position ∧ Counts cs position

/-- How far the reader has come: so many parts are good, and the next one is at a position. -/
structure Reached (cs : List Char) (n position : Nat) : Prop where
  good : GoodTo cs n
  counts : Counts cs position

theorem Reached.stop {n position : Nat} {good : List Char → Prop} (h : Reached cs n position)
    (here : parts[n]? = some ⟨position, good⟩) (bad : ¬ good cs) : Answers cs (.error position) :=
  ⟨⟨n, ⟨position, good⟩, here, rfl, h.good, bad⟩, h.counts⟩

theorem Reached.char {n : Nat} {x : Char} {position : Nat} (h : Reached cs n position)
    (here : parts[n]? = some ⟨position, fun cs => cs[position]? = some x⟩)
    (good : cs[position]? = some x) (plain : x.utf8Size = 1) : Reached cs (n + 1) (position + 1) :=
  ⟨h.good.succ here good, h.counts.char good plain⟩

/-- **A field of the text is read where it stands**, or is the place where the text goes wrong. -/
theorem fieldAt_drop (position width least most : Nat) (cs : List Char) :
    fieldAt position width least most (cs.drop position) =
      if IsField width least most (slice cs position width) then
        .ok (value (slice cs position width), cs.drop (position + width))
      else .error position := by
  unfold fieldAt
  rw [field?_eq, List.drop_drop]
  unfold slice
  split
  · rename_i found
    split at found
    · rename_i isField
      cases found
      rw [if_pos isField]
    · cases found
  · rename_i found
    split at found
    · cases found
    · rename_i notField
      rw [if_neg notField]

/-- One field on: the reader stops at it, or goes on behind it. -/
theorem Reached.field {n position width least most : Nat}
    {next : Nat × List Char → Except Nat Temporal} (h : Reached cs n position)
    (here : parts[n]? = some (.field position width least most))
    (on : Reached cs (n + 1) (position + width) → IsField width least most (slice cs position width) →
      Answers cs (next (value (slice cs position width), cs.drop (position + width)))) :
    Answers cs ((fieldAt position width least most (cs.drop position)).bind next) := by
  rw [fieldAt_drop]
  split
  · rename_i isField
    exact on ⟨h.good.succ here isField, h.counts.field isField⟩ isField
  · rename_i notField
    exact h.stop here notField

theorem drop_eq_cons_iff {position : Nat} {x : Char} {rest : List Char} :
    cs.drop position = x :: rest ↔ cs[position]? = some x ∧ cs.drop (position + 1) = rest := by
  rw [← List.head?_drop, ← List.tail_drop]
  cases cs.drop position with
  | nil => simp
  | cons y ys => simp

/-- Behind a civil time: the end, a `Z`, an offset, or the place where the text goes wrong. -/
theorem answers_ofSuffix (reached : Reached cs 7 15) (civil : WritesCivil (cs.take 15) c) :
    Answers cs (ofSuffix c (cs.drop 15)) := by
  have whole := List.take_append_drop 15 cs
  unfold ofSuffix
  split
  · rename_i none
    rw [none, List.append_nil] at whole
    exact .inl (whole ▸ .floating civil)
  · rename_i zulu
    rw [zulu] at whole
    exact .inl (whole ▸ .utc civil)
  · rename_i rest more zulu
    obtain ⟨here, behind⟩ := drop_eq_cons_iff.mp zulu
    refine (reached.char rfl here rfl).stop rfl fun short => more ?_
    rw [← behind, List.drop_eq_nil_of_le short]
  · rename_i notZulu
    split
    · rename_i i found
      obtain ⟨offset, ahead, moved⟩ := Option.bind_eq_some_iff.mp found
      obtain ⟨stamp, leap⟩ := (Civil.addSeconds?_eq_some_iff_of_plain civil.1).mp moved
      exact .inr ⟨c, offset, ⟨_, _, whole.symm, civil, offset?_eq_some_iff.mp ahead⟩, i, rfl,
        stamp.trans Int.sub_eq_add_neg.symm, leap⟩
    · exact reached.stop rfl fun here => notZulu _ (drop_eq_cons_iff.mpr ⟨here, rfl⟩)

/-- Behind a date: the end, a time of day, or the place where the text goes wrong. -/
theorem answers_ofTimePart (reached : Reached cs 3 8) (day : WritesDate (cs.take 8) d) :
    Answers cs (ofTimePart d (cs.drop 8)) := by
  have whole := List.take_append_drop 8 cs
  unfold ofTimePart
  split
  · rename_i none
    rw [none, List.append_nil] at whole
    exact .inl (whole ▸ .date day)
  · rename_i rest sign
    obtain ⟨here, behind⟩ := drop_eq_cons_iff.mp sign
    rw [← behind]
    refine (reached.char rfl here rfl).field rfl fun reached hour => ?_
    refine reached.field rfl fun reached minute => ?_
    refine reached.field rfl fun reached second => answers_ofSuffix reached ⟨rfl, ?_⟩
    obtain ⟨eh, em, es⟩ := Civil.clock_atClock d false hour.2.2 minute.2.2 second.2.2
    have clock : (cs.drop 9).take 6 = slice cs 9 2 ++ slice cs 11 2 ++ slice cs 13 2 := by
      unfold slice
      rw [show (6 : Nat) = 2 + 2 + 2 from rfl, List.take_add, List.take_add, List.drop_drop,
        List.drop_drop]
    refine ⟨cs.take 8, (cs.drop 9).take 6, ?_, ?_, slice cs 9 2, slice cs 11 2, slice cs 13 2, clock,
      hour.1, minute.1, second.1, eh, em, es⟩
    · rw [show (15 : Nat) = 8 + 7 from rfl, List.take_add, sign, ← behind]
      rfl
    · rw [Civil.atClock, Civil.date_ofDate]
      exact day
  · rename_i notSign
    by_cases none : cs.drop 8 = []
    · contradiction
    · exact reached.stop rfl fun here => notSign _ (drop_eq_cons_iff.mpr ⟨here, rfl⟩)

theorem writesDate_take_iff (year : Digits 4 (slice cs 0 4)) (month : Digits 2 (slice cs 4 2)) :
    WritesDate (cs.take 8) d ↔ Digits 2 (slice cs 6 2) ∧
      Date.ofFields? (value (slice cs 0 4)) (value (slice cs 4 2)) (value (slice cs 6 2)) = some d := by
  have fields : cs.take 8 = slice cs 0 4 ++ slice cs 4 2 ++ slice cs 6 2 := by
    unfold slice
    rw [show (8 : Nat) = 4 + 2 + 2 from rfl, List.take_add, List.take_add]
    rfl
  unfold WritesDate
  rw [fields, Date.ofFields?_eq_some_iff]
  constructor
  · intro ⟨ys, ms, ds, text, hy, hm, hd, ey, em, ed⟩
    obtain ⟨front, rfl⟩ := List.append_inj' text (by
      have := congrArg List.length text
      simp only [List.length_append, year.1, month.1, hy.1, hm.1] at this
      omega)
    obtain ⟨rfl, rfl⟩ := List.append_inj front (year.1.trans hy.1.symm)
    exact ⟨hd, ey, em, ed⟩
  · intro ⟨day, ey, em, ed⟩
    exact ⟨_, _, _, rfl, year, month, day, ey, em, ed⟩

/-- **Every answer of the strict reader is borne out by the grammar.** -/
theorem answers_readStrict (cs : List Char) : Answers cs (readStrict cs) := by
  have start : Reached cs 0 0 := ⟨fun _ mem => absurd mem List.not_mem_nil, counts_zero⟩
  refine start.field rfl fun reached year => ?_
  refine reached.field rfl fun reached month => ?_
  have wrong : (¬ ∃ d, WritesDate (cs.take 8) d) → Answers cs (.error 6) := reached.stop rfl
  show Answers cs ((fieldAt 6 2 1 31 (cs.drop 6)).bind _)
  rw [fieldAt_drop]
  split
  · rename_i day
    dsimp only [Except.bind]
    split
    · rename_i d found
      have written := (writesDate_take_iff year.1 month.1).mpr ⟨day.1, found⟩
      exact answers_ofTimePart ⟨reached.good.succ rfl ⟨d, written⟩, reached.counts.field day⟩ written
    · rename_i none
      refine wrong ?_
      rintro ⟨d, written⟩
      rw [((writesDate_take_iff year.1 month.1).mp written).2] at none
      cases none
  · rename_i noDay
    refine wrong ?_
    rintro ⟨d, written⟩
    refine noDay ?_
    obtain ⟨day, found⟩ := (writesDate_take_iff year.1 month.1).mp written
    have fields := Date.ofFields?_eq_some_iff.mp found
    have bounds := d.fields_spec
    have most := dayOfMonth_le d
    exact ⟨day, by omega, by omega⟩

/-! ## 7. The grammar -/

theorem readStrict_of_writes (h : Writes cs t) : readStrict cs = .ok t := by
  obtain ⟨zone, fits, plain, rfl⟩ := writes_iff.mp h
  exact readStrict_chars zone fits plain

theorem readStrict_of_writesAhead (h : WritesAhead cs c offset) :
    ∃ t, readStrict cs = .ok t ∧ IsInstantAt t c offset := by
  obtain ⟨civil, ahead, rfl, written, offset'⟩ := h
  obtain ⟨fits, plain, rfl⟩ := writesCivil_iff.mp written
  obtain ⟨i, moved, stamp, leap⟩ := exists_instant offset' fits plain
  refine ⟨.utc i, ?_, i, rfl, stamp, leap⟩
  rw [readStrict_civil fits plain]
  have read := offset?_eq_some_iff.mpr offset'
  obtain ⟨sign, hours, minutes, seconds, rfl, signed, -⟩ := offset'
  unfold ofSuffix
  split
  · contradiction
  · rename_i zulu
    cases (List.cons.inj zulu).1
    simp at signed
  · rename_i zulu
    cases (List.cons.inj zulu).1
    simp at signed
  · rw [read, Option.bind_some, moved]

/-- The answer for a string is the answer for its characters. -/
theorem parse_eq (v : String) :
    parse v = (readStrict v.toList).mapError (Fault.malformedTemporal v) := by
  unfold parse parseWith
  cases readStrict v.toList with
  | ok t => rfl
  | error position => rfl

theorem parse_eq_ok_iff {v : String} : parse v = .ok t ↔ readStrict v.toList = .ok t := by
  rw [parse_eq]
  cases readStrict v.toList with
  | ok u =>
    exact ⟨fun h => congrArg Except.ok (Except.ok.inj h),
      fun h => congrArg Except.ok (Except.ok.inj h)⟩
  | error position => exact ⟨nofun, nofun⟩

theorem parse_eq_error_iff {v : String} {fault : Fault} : parse v = .error fault ↔
    ∃ position, readStrict v.toList = .error position ∧ fault = .malformedTemporal v position := by
  rw [parse_eq]
  cases readStrict v.toList with
  | ok t => exact ⟨nofun, fun ⟨_, h, _⟩ => nomatch h⟩
  | error position =>
    constructor
    · intro h
      exact ⟨position, rfl, (Except.error.inj h).symm⟩
    · intro ⟨_, h, own⟩
      rw [own, ← Except.error.inj h]
      rfl

/-- **The strict reader accepts its grammar and nothing else, and undoes the printer.** It accepts a
    text just when the grammar has it. Without an offset the answer is the value that the text writes,
    and the text is that of the value; with an offset it is the instant that is the offset before the
    civil time. Every date, floating time and instant of a whole second in the years of four digits
    reads back (a leap second is no whole second, but a mark on the one before it). A text that is
    refused goes wrong at the position that is told, and this is a position among its bytes. -/
theorem read_by_the_grammar (v : String) :
    ((∃ t, parse v = .ok t) ↔
      (∃ t, Writes v.toList t) ∨ ∃ c offset, WritesAhead v.toList c offset) ∧
    (∀ t, Writes v.toList t → parse v = .ok t ∧ t.text = v) ∧
    (∀ c offset, WritesAhead v.toList c offset → ∃ t, parse v = .ok t ∧ IsInstantAt t c offset) ∧
    (∀ t : Temporal, t.zone? = none → t.toDate.YearFits → t.localTime.leap = false →
      parse t.text = .ok t) ∧
    (∀ fault, parse v = .error fault → ∃ position, fault = .malformedTemporal v position ∧
      StopsAt v.toList position ∧ position ≤ v.utf8ByteSize ∧
      (String.ofList (v.toList.take position)).utf8ByteSize = position) := by
  have answers := answers_readStrict v.toList
  have plain : ∀ t, Writes v.toList t → parse v = .ok t :=
    fun t h => parse_eq_ok_iff.mpr (readStrict_of_writes h)
  have ahead : ∀ c offset, WritesAhead v.toList c offset →
      ∃ t, parse v = .ok t ∧ IsInstantAt t c offset := by
    intro c offset h
    obtain ⟨t, read, instant⟩ := readStrict_of_writesAhead h
    exact ⟨t, parse_eq_ok_iff.mpr read, instant⟩
  refine ⟨⟨?_, ?_⟩, fun t h => ⟨plain t h, ?_⟩, ahead, ?_, ?_⟩
  · intro ⟨t, read⟩
    rw [parse_eq_ok_iff.mp read] at answers
    exact answers.imp (fun h => ⟨t, h⟩) fun ⟨c, offset, h, _⟩ => ⟨c, offset, h⟩
  · intro h
    rcases h with ⟨t, h⟩ | ⟨c, offset, h⟩
    · exact ⟨t, plain t h⟩
    · obtain ⟨t, read, -⟩ := ahead c offset h
      exact ⟨t, read⟩
  · obtain ⟨-, -, -, text⟩ := writes_iff.mp h
    rw [Temporal.text, ← text, String.ofList_toList]
  · intro t zone fits leap
    exact parseWith_text (.of_plain zone leap) fits
  · intro fault refused
    obtain ⟨position, read, rfl⟩ := parse_eq_error_iff.mp refused
    rw [read] at answers
    exact ⟨position, rfl, answers.1, answers.2.utf8ByteSize.2, answers.2.utf8ByteSize.1⟩

/-- An hour and a half behind UTC, nine in the morning of the first of January 2024 is half past ten;
    with a blank in its place, the second digit of the day is where the text goes wrong. -/
theorem read_behind_utc :
    (∃ t, parse "20240101T090000-0130" = .ok t ∧
      IsInstantAt t (Civil.ofDate ⟨739251, by decide, by decide⟩ 32400 false) (-5400)) ∧
    ∃ position, parse "2024010 T090000-0130" =
        .error (.malformedTemporal "2024010 T090000-0130" position) ∧
      StopsAt "2024010 T090000-0130".toList position := by
  have written : WritesAhead "20240101T090000-0130".toList
      (Civil.ofDate ⟨739251, by decide, by decide⟩ 32400 false) (-5400) :=
    ⟨"20240101T090000".toList, "-0130".toList, by decide,
      ⟨rfl, "20240101".toList, "090000".toList, by decide,
        ⟨"2024".toList, "01".toList, "01".toList, by decide⟩,
        ⟨"09".toList, "00".toList, "00".toList, by decide⟩⟩,
      '-', "01".toList, "30".toList, [], by decide, .inr rfl, by decide, by decide, by decide, .inl rfl,
      by decide⟩
  refine ⟨(read_by_the_grammar _).2.2.1 _ _ written, ?_⟩
  have refused : parse "2024010 T090000-0130" =
      .error (.malformedTemporal "2024010 T090000-0130" 6) :=
    parse_eq_error_iff.mpr ⟨6, by rfl, rfl⟩
  obtain ⟨position, fault, stops, -⟩ := (read_by_the_grammar _).2.2.2.2 _ refused
  exact ⟨position, fault ▸ refused, stops⟩

end Temporal

end Almanac
