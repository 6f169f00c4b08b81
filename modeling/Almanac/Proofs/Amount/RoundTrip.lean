import Almanac.Amount.Parser
import Almanac.Amount.Printer
import Almanac.Proofs.Amount.Signs
import Almanac.Proofs.Text.Words
import Mathlib.Data.Option.Basic

/-!
# Amount text reads back

An amount is written as numbers with letters behind them. This file shows

* the reader takes a number with its letter off the front of a text, and passes over letters that are
  not there (`Amount.tagged?_decimal`, `Amount.components?_written`);
* **days are read as days** (`Amount.ofBody?_dayChars`), be they written as days or as weeks;
* **elapsed time is read as elapsed time, unless it is written in days alone**
  (`Amount.ofBody?_elapsed`): then it is a nominal amount of so many days;
* a negative amount has the text of its magnitude behind a minus, and reads so
  (`Amount.read?_nominal`, `Amount.read?_exact`).

Main result: `Amount.text_keeps_length`.
-/

namespace Almanac

open Numeral

namespace Amount

variable {letter c : Char} {n : Nat} {rest : List Char}

/-! ## 1. Numbers with letters -/

theorem takeWhile_digits {digits : List Char} (hd : digits.all Char.isDigit = true)
    (hc : c.isDigit = false) (rest : List Char) :
    (digits ++ c :: rest).takeWhile Char.isDigit = digits := by
  rw [List.takeWhile_append_of_pos (List.all_eq_true.mp hd),
    List.takeWhile_cons_of_neg (by simp [hc]), List.append_nil]

theorem dropWhile_digits {digits : List Char} (hd : digits.all Char.isDigit = true)
    (hc : c.isDigit = false) (rest : List Char) :
    (digits ++ c :: rest).dropWhile Char.isDigit = c :: rest := by
  rw [List.dropWhile_append_of_pos (List.all_eq_true.mp hd),
    List.dropWhile_cons_of_neg (by simp [hc])]

/-- The reader takes a number with its letter off the front. -/
theorem tagged?_decimal (hl : letter.isDigit = false) (fits : n ≤ componentMax) (rest : List Char) :
    tagged? letter (decimal n ++ letter :: rest) = some (n, rest) := by
  unfold tagged?
  simp only [takeWhile_digits (all_isDigit_decimal n) hl, dropWhile_digits (all_isDigit_decimal n) hl,
    if_pos]
  rw [digits?_decimal, Option.filter_some, if_pos (decide_eq_true fits), Option.map_some]

/-- A number with another letter stays. -/
theorem tagged?_decimal_of_ne (other : c ≠ letter) (hc : c.isDigit = false) (n : Nat)
    (rest : List Char) : tagged? letter (decimal n ++ c :: rest) = none := by
  unfold tagged?
  simp only [dropWhile_digits (all_isDigit_decimal n) hc, if_neg other]

/-- So does a letter without a number. -/
theorem tagged?_cons_of_ne (other : c ≠ letter) (hc : c.isDigit = false) (rest : List Char) :
    tagged? letter (c :: rest) = none := by
  unfold tagged?
  rw [List.dropWhile_cons_of_neg (by simp [hc])]
  simp only [if_neg other]

theorem tagged?_nil (letter : Char) : tagged? letter [] = none := rfl

/-- Numbers with letters, those that are zero left out. -/
def written (ps : List (Nat × Char)) : List Char := ps.flatMap fun p => Elapsed.part p.1 p.2

theorem written_cons_zero (letter : Char) (ps : List (Nat × Char)) :
    written ((0, letter) :: ps) = written ps := rfl

theorem written_cons (some : n ≠ 0) (letter : Char) (ps : List (Nat × Char)) :
    written ((n, letter) :: ps) = decimal n ++ letter :: written ps := by
  unfold written
  rw [List.flatMap_cons, Elapsed.part, if_neg some, List.append_assoc]
  rfl

theorem tagged?_written_of_not_mem {ps : List (Nat × Char)} (h : ∀ p ∈ ps, p.2.isDigit = false)
    (other : letter ∉ ps.map Prod.snd) : tagged? letter (written ps) = none := by
  induction ps with
  | nil => rfl
  | cons p ps ih =>
    obtain ⟨n, c⟩ := p
    have none := ih (fun q hq => h q (List.mem_cons_of_mem _ hq)) (List.not_mem_of_not_mem_cons other)
    by_cases zero : n = 0
    · rw [zero, written_cons_zero]
      exact none
    · rw [written_cons zero]
      exact tagged?_decimal_of_ne (List.ne_of_not_mem_cons other).symm (h _ List.mem_cons_self) n _

/-- **Numbers with letters read back**, zero for each that has been left out. -/
theorem components?_written (ps : List (Nat × Char)) (h : ∀ p ∈ ps, p.2.isDigit = false)
    (once : (ps.map Prod.snd).Nodup) (fits : ∀ p ∈ ps, p.1 ≤ componentMax) :
    components? (ps.map Prod.snd) (written ps) = some (ps.map Prod.fst) := by
  induction ps with
  | nil => rfl
  | cons p ps ih =>
    obtain ⟨n, letter⟩ := p
    obtain ⟨other, once'⟩ := List.nodup_cons.mp once
    have digits' := fun q hq => h q (List.mem_cons_of_mem _ hq)
    have read := ih digits' once' fun q hq => fits q (List.mem_cons_of_mem _ hq)
    rw [List.map_cons, List.map_cons, components?]
    by_cases zero : n = 0
    · rw [zero, written_cons_zero, tagged?_written_of_not_mem digits' other]
      simp only
      rw [read, Option.map_some]
    · rw [written_cons zero, tagged?_decimal (h _ List.mem_cons_self) (fits _ List.mem_cons_self)]
      simp only
      rw [read, Option.map_some]

/-! ## 2. Days -/

/-- A number with the sign that stands in front of the text. -/
def withSign (negative : Bool) (n : Nat) : Int := if negative then -n else n

theorem withSign_zero (negative : Bool) : withSign negative 0 = 0 := by
  cases negative <;> rfl

/-- A number that a field for parts can hold, with its sign. -/
def FitsPart (negative : Bool) (n : Nat) : Prop :=
  signedMin ≤ withSign negative n ∧ withSign negative n ≤ signedMax

theorem nominalPart?_eq {negative : Bool} (fits : FitsPart negative n) :
    nominalPart? negative n = some (Int32.ofInt (withSign negative n)) := if_pos fits

theorem FitsPart.le {negative : Bool} (fits : FitsPart negative n) : n ≤ componentMax := by
  unfold FitsPart withSign signedMin signedMax at fits
  unfold componentMax
  split at fits <;> omega

theorem ofNominalNumbers?_days {negative : Bool} {weeks days : Nat}
    (fits : FitsPart negative (weeks * 7 + days)) :
    ofNominalNumbers? negative 0 0 weeks days =
      some (nominal (Nominal.ofDays (Int32.ofInt (withSign negative (weeks * 7 + days))))) := by
  have none : nominalPart? negative 0 = some 0 := by
    cases negative <;> rfl
  unfold ofNominalNumbers?
  rw [none, nominalPart?_eq fits]
  rfl

/-- Days are written as weeks where they are some. -/
theorem dayChars_eq (days : Nat) : Nominal.dayChars days =
    if days ≠ 0 ∧ days % 7 = 0 then decimal (days / 7) ++ ['W'] else decimal days ++ ['D'] := by
  have weeks : (days : Int).tmod 7 = 0 ↔ days % 7 = 0 := by
    rw [Int.tmod_eq_emod_of_nonneg (Int.natCast_nonneg days)]
    omega
  have some : (days : Int) ≠ 0 ↔ days ≠ 0 := by omega
  unfold Nominal.dayChars
  simp only [weeks, some]
  rfl

/-- **Days are read as days**, be they written as days or as weeks. -/
theorem ofBody?_dayChars {negative : Bool} {days : Nat} (fits : FitsPart negative days) :
    ofBody? negative (Nominal.dayChars days) =
      some (nominal (Nominal.ofDays (Int32.ofInt (withSign negative days)))) := by
  have le := fits.le
  rw [dayChars_eq]
  split
  · rename_i weeks
    have total : days / 7 * 7 + 0 = days := by omega
    have read : components? ['Y', 'M', 'W', 'D'] (decimal (days / 7) ++ ['W']) =
        some [0, 0, days / 7, 0] := by
      simp only [components?, tagged?_decimal_of_ne (show 'W' ≠ 'Y' by decide) rfl,
        tagged?_decimal_of_ne (show 'W' ≠ 'M' by decide) rfl,
        tagged?_decimal (show 'W'.isDigit = false from rfl) (show days / 7 ≤ componentMax by omega),
        tagged?_nil]
      rfl
    unfold ofBody?
    rw [read, if_neg (by simp)]
    simp only
    rw [ofNominalNumbers?_days (by rwa [total]), total]
  · have read : components? ['Y', 'M', 'W', 'D'] (decimal days ++ ['D']) = some [0, 0, 0, days] := by
      simp only [components?, tagged?_decimal_of_ne (show 'D' ≠ 'Y' by decide) rfl,
        tagged?_decimal_of_ne (show 'D' ≠ 'M' by decide) rfl,
        tagged?_decimal_of_ne (show 'D' ≠ 'W' by decide) rfl,
        tagged?_decimal (show 'D'.isDigit = false from rfl) le]
      rfl
    have total : 0 * 7 + days = days := by omega
    unfold ofBody?
    rw [read, if_neg (by simp)]
    simp only
    rw [ofNominalNumbers?_days (by rwa [total]), total]

/-! ## 3. Elapsed time -/

/-- Whole days are written as days are. -/
theorem lengthChars_days {seconds : Nat} (some : seconds ≠ 0) (whole : seconds % 86400 = 0) :
    Elapsed.lengthChars seconds = Nominal.dayChars (seconds / 86400 : Nat) := by
  have days : seconds / 86400 ≠ 0 := by omega
  rw [dayChars_eq]
  unfold Elapsed.lengthChars
  simp only [some, whole, days, if_false, true_and, ne_eq, not_false_eq_true, if_true]
  split
  · rfl
  · rw [Elapsed.part, if_neg days, List.append_nil]

/-- Anything else has a time part. -/
theorem lengthChars_time {seconds : Nat} (rest : seconds % 86400 ≠ 0) :
    Elapsed.lengthChars seconds = written [(seconds / 86400, 'D')] ++
      'T' :: written [(seconds % 86400 / 3600, 'H'), (seconds % 86400 % 3600 / 60, 'M'),
        (seconds % 86400 % 60, 'S')] := by
  have some : seconds ≠ 0 := by omega
  unfold Elapsed.lengthChars written
  simp only [some, rest, if_false, false_and, List.flatMap_cons, List.flatMap_nil, List.append_nil,
    List.cons_append, List.append_assoc]

theorem not_mem_written_days (days : Nat) : 'T' ∉ written [(days, 'D')] := by
  have none : 'T' ∉ decimal days := fun mem =>
    absurd (List.all_eq_true.mp (all_isDigit_decimal days) _ mem) (by decide)
  by_cases zero : days = 0
  · rw [zero, written_cons_zero]
    exact List.not_mem_nil
  · rw [written_cons zero, List.mem_append, not_or]
    exact ⟨none, by decide⟩

/-- A `T` is no letter of a nominal amount. -/
theorem components?_of_time {days : Nat} (fits : days ≤ componentMax) (time : List Char) :
    components? ['Y', 'M', 'W', 'D'] (written [(days, 'D')] ++ 'T' :: time) = none := by
  by_cases zero : days = 0
  · rw [zero, written_cons_zero]
    show components? _ ('T' :: time) = none
    simp only [components?, tagged?_cons_of_ne (show 'T' ≠ 'Y' by decide) rfl,
      tagged?_cons_of_ne (show 'T' ≠ 'M' by decide) rfl,
      tagged?_cons_of_ne (show 'T' ≠ 'W' by decide) rfl,
      tagged?_cons_of_ne (show 'T' ≠ 'D' by decide) rfl]
    rfl
  · rw [written_cons zero, List.append_assoc]
    show components? _ (decimal days ++ 'D' :: 'T' :: time) = none
    simp only [components?, tagged?_decimal_of_ne (show 'D' ≠ 'Y' by decide) rfl,
      tagged?_decimal_of_ne (show 'D' ≠ 'M' by decide) rfl,
      tagged?_decimal_of_ne (show 'D' ≠ 'W' by decide) rfl,
      tagged?_decimal (show 'D'.isDigit = false from rfl) fits]
    rfl

/-- Days and a time are read as so many seconds. -/
theorem ofBody?_time {negative : Bool} {days hours minutes seconds : Nat}
    (some : written [(hours, 'H'), (minutes, 'M'), (seconds, 'S')] ≠ [])
    (fits : days ≤ componentMax ∧ hours ≤ componentMax ∧ minutes ≤ componentMax ∧
      seconds ≤ componentMax) :
    ofBody? negative (written [(days, 'D')] ++
        'T' :: written [(hours, 'H'), (minutes, 'M'), (seconds, 'S')]) =
      ofExactNumbers? negative days hours minutes seconds := by
  obtain ⟨hd, hh, hm, hs⟩ := fits
  have day : components? ['D'] (written [(days, 'D')]) = .some [days] :=
    components?_written [(days, 'D')] (by simp) (show ['D'].Nodup by decide)
      (by simpa using hd)
  have time : components? ['H', 'M', 'S']
      (written [(hours, 'H'), (minutes, 'M'), (seconds, 'S')]) = .some [hours, minutes, seconds] :=
    components?_written [(hours, 'H'), (minutes, 'M'), (seconds, 'S')]
      (by simp) (show ['H', 'M', 'S'].Nodup by decide) (by simpa using ⟨hh, hm, hs⟩)
  unfold ofBody?
  rw [components?_of_time hd, if_neg (by simp), Text.cut?_append (not_mem_written_days days)]
  simp only [Option.bind_eq_bind, Option.bind_some]
  rw [day, time]
  have guarded : (!(written [(hours, 'H'), (minutes, 'M'), (seconds, 'S')]).isEmpty) = true := by
    rw [Bool.not_eq_true', List.isEmpty_eq_false_iff]
    exact some
  have passed : guard ((!(written [(hours, 'H'), (minutes, 'M'), (seconds, 'S')]).isEmpty) = true) =
      Option.some () := if_pos guarded
  rw [passed]
  rfl

theorem written_ne_nil {ps : List (Nat × Char)} {p : Nat × Char} (mem : p ∈ ps) (some : p.1 ≠ 0) :
    written ps ≠ [] := by
  intro none
  have part := List.flatMap_eq_nil_iff.mp none p mem
  rw [Elapsed.part, if_neg some] at part
  simp at part

/-- The amount of so many seconds, with a sign. -/
theorem ofExactNumbers?_eq {negative : Bool} {e : Elapsed} {days hours minutes seconds : Nat}
    (he : e.seconds =
      withSign negative (days * 86400 + hours * 3600 + minutes * 60 + seconds)) :
    ofExactNumbers? negative days hours minutes seconds = some (exact e) := by
  show (Elapsed.ofSeconds? (withSign negative _)).map exact = _
  rw [Elapsed.ofSeconds?_eq_some_iff.mpr he, Option.map_some]

/-- **Elapsed time is read as elapsed time**, if it is not a number of days. -/
theorem ofBody?_elapsed {negative : Bool} {e : Elapsed} {seconds : Nat}
    (he : e.seconds = withSign negative seconds) (timed : seconds = 0 ∨ seconds % 86400 ≠ 0) :
    ofBody? negative (Elapsed.lengthChars seconds) = some (exact e) := by
  by_cases zero : seconds = 0
  · rw [zero, withSign_zero] at he
    rw [zero]
    have nothing : e = Elapsed.zero := by
      cases e
      cases he
      rfl
    rw [nothing]
    cases negative with
    | true => rfl
    | false => rfl
  · have rest := timed.resolve_left zero
    have within := e.within
    have most : seconds ≤ 9223372036854775 := by
      unfold withSign at he
      split at he <;> omega
    have some : written [(seconds % 86400 / 3600, 'H'), (seconds % 86400 % 3600 / 60, 'M'),
        (seconds % 86400 % 60, 'S')] ≠ [] := by
      by_cases hours : seconds % 86400 / 3600 = 0
      · by_cases minutes : seconds % 86400 % 3600 / 60 = 0
        · exact written_ne_nil (p := (seconds % 86400 % 60, 'S')) (by simp)
            (show seconds % 86400 % 60 ≠ 0 by omega)
        · exact written_ne_nil (p := (seconds % 86400 % 3600 / 60, 'M')) (by simp) minutes
      · exact written_ne_nil (p := (seconds % 86400 / 3600, 'H')) (by simp) hours
    have total : seconds / 86400 * 86400 + seconds % 86400 / 3600 * 3600 +
        seconds % 86400 % 3600 / 60 * 60 + seconds % 86400 % 60 = seconds := by omega
    rw [lengthChars_time rest, ofBody?_time some
      (by unfold componentMax; refine ⟨?_, ?_, ?_, ?_⟩ <;> omega),
      ofExactNumbers?_eq (by rw [total]; exact he)]

/-! ## 4. Whole texts -/

theorem all_isPlain_written {ps : List (Nat × Char)} (h : ∀ p ∈ ps, Text.isPlain p.2 = true) :
    (written ps).all Text.isPlain = true := by
  induction ps with
  | nil => rfl
  | cons p ps ih =>
    obtain ⟨n, letter⟩ := p
    have rest := ih fun q hq => h q (List.mem_cons_of_mem _ hq)
    by_cases zero : n = 0
    · rw [zero, written_cons_zero]
      exact rest
    · have first : Text.isPlain letter = true := h _ List.mem_cons_self
      rw [written_cons zero, List.all_append, (isWord_decimal n).2, List.all_cons, first, rest]
      rfl

theorem all_isPlain_dayChars (days : Int) : (Nominal.dayChars days).all Text.isPlain = true := by
  unfold Nominal.dayChars
  split
  · rw [List.all_append, (isWord_signed _).2]
    rfl
  · rw [List.all_append, (isWord_signed _).2]
    rfl

theorem all_isPlain_lengthChars (seconds : Nat) :
    (Elapsed.lengthChars seconds).all Text.isPlain = true := by
  by_cases zero : seconds = 0
  · rw [zero]
    rfl
  · by_cases whole : seconds % 86400 = 0
    · rw [lengthChars_days zero whole]
      exact all_isPlain_dayChars _
    · rw [lengthChars_time whole, List.all_append, List.all_cons,
        all_isPlain_written (by simp [Text.isPlain]), all_isPlain_written (by simp [Text.isPlain])]
      rfl

theorem isWord_afterSign {length : List Char} (plain : length.all Text.isPlain = true)
    (negative : Bool) :
    Text.IsWord (if negative then '-' :: 'P' :: length else 'P' :: length) := by
  refine ⟨?_, ?_⟩
  · cases negative with
    | true => simp
    | false => simp
  · cases negative with
    | true => exact plain
    | false => exact plain

/-- An amount is written as a word. -/
theorem isWord_charsFrom (a : Amount) (seed : Civil) : Text.IsWord (a.charsFrom seed) := by
  unfold charsFrom
  cases a.magnitude with
  | nominal n => exact isWord_afterSign (all_isPlain_dayChars _) _
  | exact e => exact isWord_afterSign (all_isPlain_lengthChars _) _

/-- What follows the sign and the `P` of an amount's text. -/
theorem read?_charsFrom (a : Amount) (seed : Civil) : read? (a.charsFrom seed) =
    ofBody? a.isNegative (match a.magnitude with
      | nominal n => Nominal.dayChars (n.daysFrom seed)
      | exact e => Elapsed.lengthChars e.seconds.toNat) := by
  unfold charsFrom
  cases a.isNegative with
  | true => rfl
  | false => rfl

theorem parse_ofList {cs : List Char} {a : Amount} (h : read? cs = some a) :
    Amount.parse (String.ofList cs) = .ok a := by
  unfold Amount.parse
  rw [String.toList_ofList, h]

/-! ## 5. Either sign -/

variable {m : Nominal} {e : Elapsed} {days : Nat} {seed : Civil}

/-- An exact amount is the length that is written, with its sign. -/
theorem seconds_eq (e : Elapsed) :
    e.seconds = withSign (exact e).isNegative e.forward.seconds.toNat := by
  unfold withSign isNegative
  rw [e.seconds_forward]
  simp only [decide_eq_true_eq]
  split <;> omega

/-- **A nominal amount is read as so many days as it is long**, with its sign. -/
theorem read?_nominal (long : m.forward.daysFrom seed = days) (fits : FitsPart m.isNegative days) :
    read? ((nominal m).charsFrom seed) =
      some (nominal (Nominal.ofDays (Int32.ofInt (withSign m.isNegative days)))) := by
  rw [read?_charsFrom, magnitude_nominal]
  simp only [long]
  exact ofBody?_dayChars fits

/-- **An exact amount is read as it is**, if it is not a number of days. -/
theorem read?_exact (timed : e.seconds = 0 ∨ e.seconds % 86400 ≠ 0) (seed : Civil) :
    read? ((exact e).charsFrom seed) = some (exact e) := by
  rw [read?_charsFrom, magnitude_exact]
  refine ofBody?_elapsed (seconds_eq e) ?_
  rw [e.seconds_forward]
  omega

/-- **A number of days that elapse is read as so many days**, with the sign. -/
theorem read?_exact_days (long : e.seconds.natAbs = days * 86400) (counted : days ≠ 0)
    (fits : FitsPart (exact e).isNegative days) (seed : Civil) : read? ((exact e).charsFrom seed) =
      some (nominal (Nominal.ofDays (Int32.ofInt (withSign (exact e).isNegative days)))) := by
  have same : e.forward.seconds.toNat = days * 86400 := by
    rw [e.seconds_forward]
    omega
  have whole : days * 86400 / 86400 = days := Nat.mul_div_cancel days (by decide)
  rw [read?_charsFrom, magnitude_exact]
  simp only [same]
  rw [lengthChars_days (by omega) (by omega), whole]
  exact ofBody?_dayChars fits

/-- A number is its magnitude with its sign, -/
theorem withSign_natAbs {negative : Bool} {i : Int} (sign : negative = true ↔ i < 0) :
    withSign negative i.natAbs = i := by
  unfold withSign
  cases negative with
  | true =>
    have below := sign.mp rfl
    rw [if_pos rfl]
    omega
  | false =>
    have above : ¬ i < 0 := fun below => absurd (sign.mpr below) Bool.false_ne_true
    rw [if_neg Bool.false_ne_true]
    omega

/-- and a field for parts holds that magnitude. -/
theorem fitsPart_natAbs {negative : Bool} {i : Int} (sign : negative = true ↔ i < 0)
    (low : signedMin ≤ i) (high : i ≤ signedMax) : FitsPart negative i.natAbs := by
  unfold FitsPart
  rw [withSign_natAbs sign]
  exact ⟨low, high⟩

/-- **Days are read as they are**, wherever they are written from. -/
theorem read?_days (years : m.years = 0) (months : m.months = 0) (turns : m.days ≠ Int32.minValue)
    (seed : Civil) : read? ((nominal m).charsFrom seed) = some (nominal m) := by
  obtain ⟨years', months', long⟩ := Nominal.forward_of_days years months turns
  have sign : m.isNegative = true ↔ m.days.toInt < 0 := by
    rw [Nominal.isNegative_iff, years, months, Int32.toInt_zero]
    omega
  have fits := fitsPart_natAbs sign m.days.minValue_le_toInt m.days.toInt_le
  have read : m.forward.daysFrom seed = m.days.toInt.natAbs := by
    unfold Nominal.daysFrom
    rw [years', months', if_neg (by simp), long]
  rw [read?_nominal read fits, withSign_natAbs sign, Int32.ofInt_toInt,
    Nominal.ofDays_days years months]

/-- **What the text of an amount reads as.** A number of days reads as it is, and so does elapsed time
    that is nothing or no number of days; any other number of days that elapse reads as so many days,
    with their sign. -/
theorem text_keeps_length :
    (∀ n : Nominal, n.years = 0 → n.months = 0 → n.days ≠ Int32.minValue →
      parse (nominal n).text = .ok (nominal n)) ∧
    (∀ e : Elapsed, e.seconds = 0 ∨ ¬ 86400 ∣ e.seconds → parse (exact e).text = .ok (exact e)) ∧
    ∀ (e : Elapsed) (days : Int), e.seconds = days * 86400 → days ≠ 0 → days.natAbs < 2147483648 →
      ∃ p : Int32, p.toInt = days ∧ parse (exact e).text = .ok (nominal (Nominal.ofDays p)) := by
  refine ⟨?_, ?_, ?_⟩
  · intro n years months turns
    exact parse_ofList (read?_days years months turns plainSeed)
  · intro e timed
    exact parse_ofList (read?_exact (by omega) plainSeed)
  · intro e days long counted fits
    have sign : (exact e).isNegative = true ↔ days < 0 := by
      unfold isNegative
      rw [decide_eq_true_iff]
      omega
    have low : signedMin ≤ days := by
      unfold signedMin
      omega
    have high : days ≤ signedMax := by
      unfold signedMax
      omega
    have read := read?_exact_days (show e.seconds.natAbs = days.natAbs * 86400 by omega) (by omega)
      (fitsPart_natAbs sign low high) plainSeed
    rw [withSign_natAbs sign] at read
    exact ⟨Int32.ofInt days, toInt_ofInt low high, parse_ofList read⟩

/-- Two weeks back, and a day, an hour, a minute and a second; and 2147483647 days that elapse, back. -/
theorem text_keeps_lengths_back :
    parse (nominal ⟨0, 0, -14⟩).text = .ok (nominal ⟨0, 0, -14⟩) ∧
      parse (exact ⟨-90061, by decide⟩).text = .ok (exact ⟨-90061, by decide⟩) ∧
      ∃ p : Int32, p.toInt = -2147483647 ∧
        parse (exact ⟨-185542587100800, by decide⟩).text = .ok (nominal (Nominal.ofDays p)) := by
  obtain ⟨days, timed, elapsed⟩ := text_keeps_length
  exact ⟨days ⟨0, 0, -14⟩ rfl rfl (by decide), timed ⟨-90061, by decide⟩ (.inr (by decide)),
    elapsed ⟨-185542587100800, by decide⟩ (-2147483647) (by decide) (by decide) (by decide)⟩

end Amount

end Almanac
