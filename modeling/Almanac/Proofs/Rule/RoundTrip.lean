import Almanac.Proofs.Rule.Reading
import Almanac.Rule.Printer

/-!
# Rule text reads back

A rule is written as a row of tokens. This file shows, from the inside out,

* a written token is cut out of its row and apart at its first sign (`IsToken`, `ofToken_token`), and
  **each part of a rule is read back by its own token**;
* a row of tokens takes one draft to another (`Reads`). Rows follow each other (`Reads.append`), and
  the row of a part that is there once, of a list and of the extra parts sets just these
  (`reads_optional`, `reads_listed`, `reads_extras`);
* **the tokens of a rule take the blank draft to the draft of the rule** (`Rule.reads_written`), so a
  rule that has been read is what its text reads as (`Rule.text_reads_back`).
-/

namespace Almanac

open Text

/-! ## 1. Tokens -/

/-- A text that its row gives back: it holds no semicolon, is trimmed and not empty. -/
def IsToken (cs : List Char) : Prop := ';' ∉ cs ∧ trim cs = cs ∧ cs ≠ []

/-- The token of a part. -/
def token (part : String × List Char) : List Char := part.1.toList ++ '=' :: part.2

/-- A character of a written value: a list has commas between its items. -/
def isValueChar (c : Char) : Bool := isPlain c || c == ','

theorem fitsToken_of_all {cs : List Char} (h : cs.all isValueChar = true) : FitsToken cs := by
  have plain : ∀ c ∈ cs, isBlank c = false ∧ c ≠ ';' := fun c hc => by
    have value := List.all_eq_true.mp h c hc
    rcases Bool.or_eq_true_iff.mp value with plain | comma
    · refine ⟨isBlank_of_isPlain plain, ?_⟩
      rintro rfl
      cases plain
    · cases beq_iff_eq.mp comma
      decide
  exact ⟨fun mem => (plain ';' mem).2 rfl, fun c hc => (plain c (List.mem_of_mem_getLast? hc)).1⟩

theorem all_isValueChar_of_isWord {cs : List Char} (h : IsWord cs) : cs.all isValueChar = true :=
  List.all_eq_true.mpr fun c hc => by
    unfold isValueChar
    rw [List.all_eq_true.mp h.2 c hc]
    rfl

theorem all_isValueChar_join {pieces : List (List Char)} (h : ∀ p ∈ pieces, IsWord p) :
    (join ',' pieces).all isValueChar = true := by
  induction pieces with
  | nil => rfl
  | cons p rest ih =>
    have first := all_isValueChar_of_isWord (h p List.mem_cons_self)
    have others := ih fun q hq => h q (List.mem_cons_of_mem p hq)
    cases rest with
    | nil => exact first
    | cons q others' =>
      show (p ++ ',' :: join ',' (q :: others')).all isValueChar = true
      rw [List.all_append, first, List.all_cons, others]
      rfl

/-- **A name and a value that fit make a token.** -/
theorem isToken_token {name : String} {value : List Char} (isName : IsName name)
    (whole : ';' ∉ name.toList) (fits : FitsToken value) : IsToken (token (name, value)) := by
  refine ⟨?_, trim_of_ends (fun c hc => ?_) (fun c hc => ?_), by simp [token]⟩
  · intro mem
    rcases List.mem_append.mp mem with mem | mem
    · exact whole mem
    · rcases List.mem_cons.mp mem with e | mem
      · cases e
      · exact fits.whole mem
  · cases first : name.toList with
    | nil =>
      rw [token, first] at hc
      cases hc
      rfl
    | cons d rest =>
      rw [token, first] at hc
      cases hc
      refine @head?_trim name.toList _ ?_
      rw [isName.1, first]
      rfl
  · rw [token, List.getLast?_append, List.getLast?_cons] at hc
    cases last : value.getLast? with
    | none =>
      rw [last] at hc
      cases hc
      rfl
    | some d =>
      rw [last] at hc
      cases hc
      exact fits.last d last

/-- A token is read as its name and its value. -/
theorem ofToken_token {s : Settings} {name : String} {value : List Char} (isName : IsName name) :
    Assignment.ofToken s (token (name, value)) =
      Assignment.ofPart s name (String.ofList value) := by
  unfold Assignment.ofToken token
  rw [cut?_append isName.2.2]
  simp only
  rw [isName.1, isName.2.1, String.ofList_toList]

/-! ## 2. Values -/

namespace Assignment

theorem number_decimal (part : RulePart) {n : Nat} (h : n ≤ Numeral.unsignedMax) :
    number part (String.ofList (Numeral.decimal n)) = .ok n := by
  unfold number
  rw [String.toList_ofList, (Numeral.isWord_decimal n).trim, Numeral.natural?_decimal h]

variable {α : Type} {chars : α → List Char} {values : List α}

theorem items_commas (h : ∀ v ∈ values, IsWord (chars v)) :
    items ',' (RuleParts.commas chars values) = values.map chars := by
  refine items_join fun p hp => ?_
  obtain ⟨v, hv, rfl⟩ := List.mem_map.mp hp
  exact ⟨(h v hv).not_mem rfl, (h v hv).trim, (h v hv).1⟩

/-- **A list reads back when its items do.** -/
theorem mapM_commas {read : List Char → Except Fault α} (h : ∀ v ∈ values, IsWord (chars v))
    (back : ∀ v ∈ values, read (chars v) = .ok v) :
    (items ',' (String.ofList (RuleParts.commas chars values)).toList).mapM read = .ok values := by
  rw [String.toList_ofList, items_commas h, Results.mapM_eq_ok_iff, List.forall₂_map_left_iff]
  exact List.forall₂_same.mpr back

theorem naturals_commas (part : RulePart) {values : List Nat}
    (h : ∀ n ∈ values, n ≤ Numeral.unsignedMax) :
    naturals part (String.ofList (RuleParts.commas RuleParts.number values)) = .ok values := by
  refine mapM_commas (fun n _ => Numeral.isWord_decimal n) fun n hn => ?_
  rw [RuleParts.number, Numeral.natural?_decimal (h n hn)]

theorem integers_commas (part : RulePart) {values : List Int}
    (h : ∀ n ∈ values, Numeral.signedMin ≤ n ∧ n ≤ Numeral.signedMax) :
    integers part (String.ofList (RuleParts.commas Numeral.signed values)) = .ok values := by
  refine mapM_commas (fun n _ => Numeral.isWord_signed n) fun n hn => ?_
  rw [Numeral.integer?_signed (h n hn).1 (h n hn).2]

theorem dayEntries_commas {values : List DayEntry}
    (h : ∀ e ∈ values, Numeral.signedMin ≤ e.ordinal ∧ e.ordinal ≤ Numeral.signedMax) :
    dayEntries (String.ofList (RuleParts.commas DayEntry.chars values)) = .ok values := by
  refine mapM_commas (fun e _ => e.isWord_chars) fun e he => ?_
  simp only [DayEntry.parse_chars (h e he).1 (h e he).2]
  rfl

/-- The last character of a number is no letter. -/
theorem monthNumbers_commas {values : List Nat} (h : ∀ n ∈ values, n ≤ Numeral.unsignedMax) :
    monthNumbers (String.ofList (RuleParts.commas RuleParts.number values)) = .ok values := by
  refine mapM_commas (fun n _ => Numeral.isWord_decimal n) fun n hn => ?_
  have digits := List.all_eq_true.mp (Numeral.all_isDigit_decimal n)
  rw [RuleParts.number]
  split
  · rename_i rest e
    have mem : 'L' ∈ Numeral.decimal n := List.mem_reverse.mp (by rw [e]; exact List.mem_cons_self)
    cases digits 'L' mem
  · rename_i rest e
    have mem : 'l' ∈ Numeral.decimal n := List.mem_reverse.mp (by rw [e]; exact List.mem_cons_self)
    cases digits 'l' mem
  · exact number_decimal .byMonth (h n hn)

/-! ## 3. Parts, each under its name -/

section Parts

variable (s : Settings)

/-- A word reads back from its characters. -/
theorem map_parse_ofList {β : Type} {parse : String → Except Fault β} {word : String} {v : β}
    (h : parse word = .ok v) (make : β → Assignment) :
    (parse (String.ofList word.toList)).map make = .ok (make v) := by
  rw [String.ofList_toList]
  exact Results.map_of_eq_ok h make

theorem ofPart_scale (v : Scale) :
    ofPart s "RSCALE" (String.ofList v.text.toList) = .ok (.scale v) := by
  show (Scale.parse (String.ofList v.text.toList)).map Assignment.scale = _
  exact map_parse_ofList v.parse_text _

theorem ofPart_frequency (v : Frequency) :
    ofPart s "FREQ" (String.ofList v.text.toList) = .ok (.frequency v) := by
  show (Frequency.parse (String.ofList v.text.toList)).map Assignment.frequency = _
  exact map_parse_ofList v.parse_text _

theorem ofPart_weekStart (v : Weekday) :
    ofPart s "WKST" (String.ofList v.code.toList) = .ok (.weekStart v) := by
  show (Weekday.parse (String.ofList v.code.toList)).map Assignment.weekStart = _
  exact map_parse_ofList v.parse_code _

theorem ofPart_skip (v : Skip) :
    ofPart s "SKIP" (String.ofList v.text.toList) = .ok (.skip v) := by
  show (Skip.parse (String.ofList v.text.toList)).map Assignment.skip = _
  exact map_parse_ofList v.parse_text _

theorem ofPart_last {t : Temporal} (legible : t.Legible s.relaxed) (year : t.toDate.YearFits) :
    ofPart s "UNTIL" (String.ofList t.chars) = .ok (.last t) := by
  show (Temporal.parseWith s.relaxed (String.ofList (trim (String.ofList t.chars).toList))).map
    Assignment.last = _
  rw [String.toList_ofList, (Temporal.isWord_chars legible.zone year).trim]
  exact Results.map_of_eq_ok (Temporal.parseWith_text legible year) _

theorem ofPart_count {n : Nat} (h : n ≤ Numeral.unsignedMax) :
    ofPart s "COUNT" (String.ofList (RuleParts.number n)) = .ok (.count n) := by
  show (number .count (String.ofList (RuleParts.number n))).map Assignment.count = _
  exact Results.map_of_eq_ok (number_decimal .count h) _

theorem ofPart_interval {n : Nat} (h : n ≤ Numeral.unsignedMax) :
    ofPart s "INTERVAL" (String.ofList (RuleParts.number n)) = .ok (.interval n) := by
  show (number .interval (String.ofList (RuleParts.number n))).map Assignment.interval = _
  exact Results.map_of_eq_ok (number_decimal .interval h) _

theorem ofPart_months {ns : List Nat} (h : ∀ n ∈ ns, n ≤ Numeral.unsignedMax) :
    ofPart s "BYMONTH" (String.ofList (RuleParts.commas RuleParts.number ns)) =
      .ok (.months ns) := by
  show (monthNumbers (String.ofList (RuleParts.commas RuleParts.number ns))).map
    Assignment.months = _
  exact Results.map_of_eq_ok (monthNumbers_commas h) _

theorem ofPart_days {es : List DayEntry}
    (h : ∀ e ∈ es, Numeral.signedMin ≤ e.ordinal ∧ e.ordinal ≤ Numeral.signedMax) :
    ofPart s "BYDAY" (String.ofList (RuleParts.commas DayEntry.chars es)) = .ok (.days es) := by
  show (dayEntries (String.ofList (RuleParts.commas DayEntry.chars es))).map Assignment.days = _
  exact Results.map_of_eq_ok (dayEntries_commas h) _

theorem ofPart_clock {ns : List Nat} (h : ∀ n ∈ ns, n ≤ Numeral.unsignedMax) :
    let value := String.ofList (RuleParts.commas RuleParts.number ns)
    ofPart s "BYHOUR" value = .ok (.hours ns) ∧ ofPart s "BYMINUTE" value = .ok (.minutes ns) ∧
      ofPart s "BYSECOND" value = .ok (.seconds ns) := by
  intro value
  refine ⟨?_, ?_, ?_⟩
  · show (naturals .byHour value).map Assignment.hours = _
    exact Results.map_of_eq_ok (naturals_commas .byHour h) _
  · show (naturals .byMinute value).map Assignment.minutes = _
    exact Results.map_of_eq_ok (naturals_commas .byMinute h) _
  · show (naturals .bySecond value).map Assignment.seconds = _
    exact Results.map_of_eq_ok (naturals_commas .bySecond h) _

theorem ofPart_positions {ns : List Int}
    (h : ∀ n ∈ ns, Numeral.signedMin ≤ n ∧ n ≤ Numeral.signedMax) :
    let value := String.ofList (RuleParts.commas Numeral.signed ns)
    ofPart s "BYWEEKNO" value = .ok (.weekNumbers ns) ∧
      ofPart s "BYYEARDAY" value = .ok (.yearDays ns) ∧
      ofPart s "BYMONTHDAY" value = .ok (.monthDays ns) ∧
      ofPart s "BYSETPOS" value = .ok (.positions ns) := by
  intro value
  refine ⟨?_, ?_, ?_, ?_⟩
  · show (integers .byWeekNo value).map Assignment.weekNumbers = _
    exact Results.map_of_eq_ok (integers_commas .byWeekNo h) _
  · show (integers .byYearDay value).map Assignment.yearDays = _
    exact Results.map_of_eq_ok (integers_commas .byYearDay h) _
  · show (integers .byMonthDay value).map Assignment.monthDays = _
    exact Results.map_of_eq_ok (integers_commas .byMonthDay h) _
  · show (integers .bySetPos value).map Assignment.positions = _
    exact Results.map_of_eq_ok (integers_commas .bySetPos h) _

end Parts

end Assignment

/-! ## 4. Rows of tokens -/

/-- Reading a row of tokens takes one draft to another. -/
def Reads (s : Settings) (tokens : List (List Char)) (d e : Draft) : Prop :=
  (∀ t ∈ tokens, IsToken t) ∧
    ∃ as, tokens.mapM (Assignment.ofToken s) = .ok as ∧ d.assignAll as = e

namespace Reads

variable {s : Settings} {d e f : Draft} {row row' : List (List Char)}

theorem nil : Reads s [] d d := ⟨fun _ h => absurd h List.not_mem_nil, [], rfl, rfl⟩

/-- Rows follow each other. -/
theorem append (h : Reads s row d e) (h' : Reads s row' e f) : Reads s (row ++ row') d f := by
  obtain ⟨tokens, as, read, rfl⟩ := h
  obtain ⟨tokens', as', read', rfl⟩ := h'
  refine ⟨fun t ht => (List.mem_append.mp ht).elim (tokens t) (tokens' t), as ++ as', ?_, ?_⟩
  · exact Results.mapM_eq_ok_iff.mpr (List.rel_append (Results.mapM_eq_ok_iff.mp read)
      (Results.mapM_eq_ok_iff.mp read'))
  · exact List.foldl_append

/-- A row of one token makes its assignment. -/
theorem single {name : String} {value : List Char} {a : Assignment} (isName : IsName name)
    (whole : ';' ∉ name.toList) (fits : FitsToken value)
    (read : Assignment.ofPart s name (String.ofList value) = .ok a) (set : d.assign a = e) :
    Reads s [token (name, value)] d e := by
  refine ⟨fun t ht => ?_, [a], ?_, set⟩
  · rw [List.mem_singleton.mp ht]
    exact isToken_token isName whole fits
  · rw [Results.mapM_eq_ok_iff]
    exact .cons ((ofToken_token isName).trans read) .nil

end Reads

section Rows

variable {α : Type} {s : Settings} {name : String} {chars : α → List Char}

/-- The row of a part that is there once, or not at all, sets just that part. -/
theorem reads_optional (make : α → Assignment) (put : Option α → Draft) {value : Option α}
    (isName : IsName name) (whole : ';' ∉ name.toList) (word : ∀ v ∈ value, IsWord (chars v))
    (read : ∀ v ∈ value, Assignment.ofPart s name (String.ofList (chars v)) = .ok (make v))
    (set : ∀ v, (put none).assign (make v) = put (some v)) :
    Reads s ((RuleParts.optional name chars value).map token) (put none) (put value) := by
  cases value with
  | none => exact .nil
  | some v =>
    have fits := fitsToken_of_all (all_isValueChar_of_isWord (word v rfl))
    exact .single isName whole fits (read v rfl) (set v)

/-- The row of a list sets just that list. -/
theorem reads_listed (make : List α → Assignment) (put : List α → Draft) {values : List α}
    (isName : IsName name) (whole : ';' ∉ name.toList) (word : ∀ v, IsWord (chars v))
    (read : Assignment.ofPart s name (String.ofList (RuleParts.commas chars values)) =
      .ok (make values))
    (set : (put []).assign (make values) = put values) :
    Reads s ((RuleParts.listed name chars values).map token) (put []) (put values) := by
  unfold RuleParts.listed
  cases values with
  | nil => exact .nil
  | cons v rest =>
    have value : (RuleParts.commas chars (v :: rest)).all isValueChar = true :=
      all_isValueChar_join fun p hp => by
        obtain ⟨w, -, rfl⟩ := List.mem_map.mp hp
        exact word w
    exact .single isName whole (fitsToken_of_all value) read set

/-- The row of the extra parts puts one behind the other. -/
theorem reads_extras (d : Draft) (before : List (String × String))
    {extras : List (String × String)} (legible : ∀ part ∈ extras, LegibleExtra s part)
    (ascending : (before ++ extras).Pairwise fun a b => a.1 < b.1) :
    Reads s (extras.map fun part => token (part.1, part.2.toList))
      { d with parts.extras := before } { d with parts.extras := before ++ extras } := by
  induction extras generalizing before with
  | nil =>
    rw [List.append_nil]
    exact .nil
  | cons part rest ih =>
    have own := legible part List.mem_cons_self
    have behind : ∀ other ∈ before, other.1 < part.1 := fun other hother =>
      (List.pairwise_append.mp ascending).2.2 other hother part List.mem_cons_self
    have cut : before ++ part :: rest = (before ++ [part]) ++ rest := by simp
    rw [cut] at ascending ⊢
    have read : Assignment.ofPart s part.1 (String.ofList part.2.toList) =
        .ok (.extra part.1 part.2) := by
      rw [String.ofList_toList]
      exact own.read
    have set : Draft.assign { d with parts.extras := before } (.extra part.1 part.2) =
        { d with parts.extras := before ++ [part] } := by
      rw [Draft.assign, RuleParts.putExtra_of_forall_lt behind]
    exact Reads.append (.single own.isName own.name own.value read set)
      (ih (before ++ [part]) (fun p hp => legible p (List.mem_cons_of_mem part hp)) ascending)

end Rows

/-! ## 5. Rules -/

namespace Rule

theorem within_of_outside {part : RulePart} {range : ValueRange} {values : List Int}
    (h : RuleParts.outside part range values = none) : ∀ n ∈ values, range.contains n = true := by
  intro n hn
  rw [RuleParts.outside, Option.map_eq_none_iff, List.find?_eq_none] at h
  simpa using h n hn

variable {r : Rule}

theorem le_of_check (part : RulePart) (least most : Nat) {values : List Nat}
    (check : RuleParts.outsideNat part (.between least most) values ∈ r.parts.checks)
    (few : most ≤ Numeral.unsignedMax) : ∀ n ∈ values, n ≤ Numeral.unsignedMax := by
  intro n hn
  have within := within_of_outside (r.eq_none_of_mem_checks check) n (List.mem_map_of_mem hn)
  simp only [ValueRange.contains, Bool.and_eq_true, decide_eq_true_eq] at within
  omega

theorem signed_of_check (part : RulePart) (most : Nat) {values : List Int}
    (check : RuleParts.outside part (.eitherSide most) values ∈ r.parts.checks)
    (few : most ≤ 2147483647) : ∀ n ∈ values, Numeral.signedMin ≤ n ∧ n ≤ Numeral.signedMax := by
  intro n hn
  have within := within_of_outside (r.eq_none_of_mem_checks check) n hn
  simp only [ValueRange.contains, Bool.and_eq_true, decide_eq_true_eq] at within
  unfold Numeral.signedMin Numeral.signedMax
  omega

/-- The numbers of a rule are within the bounds of their readers. -/
structure Fits (p : RuleParts) : Prop where
  count : ∀ n ∈ p.count?, n ≤ Numeral.unsignedMax
  interval : ∀ n ∈ p.interval, n ≤ Numeral.unsignedMax
  months : ∀ n ∈ p.months, n ≤ Numeral.unsignedMax
  weekNumbers : ∀ n ∈ p.weekNumbers, Numeral.signedMin ≤ n ∧ n ≤ Numeral.signedMax
  yearDays : ∀ n ∈ p.yearDays, Numeral.signedMin ≤ n ∧ n ≤ Numeral.signedMax
  monthDays : ∀ n ∈ p.monthDays, Numeral.signedMin ≤ n ∧ n ≤ Numeral.signedMax
  days : ∀ e ∈ p.days, Numeral.signedMin ≤ e.ordinal ∧ e.ordinal ≤ Numeral.signedMax
  hours : ∀ n ∈ p.hours, n ≤ Numeral.unsignedMax
  minutes : ∀ n ∈ p.minutes, n ≤ Numeral.unsignedMax
  seconds : ∀ n ∈ p.seconds, n ≤ Numeral.unsignedMax
  positions : ∀ n ∈ p.positions, Numeral.signedMin ≤ n ∧ n ≤ Numeral.signedMax

/-- **A valid rule has no number that its reader refuses.** -/
theorem fits (r : Rule) : Fits r.parts where
  count n hn := r.le_of_check .count 1 Numeral.unsignedMax (by simp [RuleParts.checks])
    (Nat.le_refl _) n (Option.mem_toList.mpr hn)
  interval n hn := r.le_of_check .interval 1 Numeral.unsignedMax (by simp [RuleParts.checks])
    (Nat.le_refl _) n (Option.mem_toList.mpr hn)
  months := r.le_of_check .byMonth 1 12 (by simp [RuleParts.checks]) (by decide)
  weekNumbers := r.signed_of_check .byWeekNo 53 (by simp [RuleParts.checks]) (by decide)
  yearDays := r.signed_of_check .byYearDay 366 (by simp [RuleParts.checks]) (by decide)
  monthDays := r.signed_of_check .byMonthDay 31 (by simp [RuleParts.checks]) (by decide)
  days e he := by
    by_cases zero : e.ordinal = 0
    · rw [zero]
      decide
    · have mem : e.ordinal ∈ (r.parts.days.map DayEntry.ordinal).filter (· ≠ 0) :=
        List.mem_filter.mpr ⟨List.mem_map_of_mem he, decide_eq_true zero⟩
      exact r.signed_of_check .byDay 53 (by simp [RuleParts.checks]) (by decide) e.ordinal mem
  hours := r.le_of_check .byHour 0 23 (by simp [RuleParts.checks]) (by decide)
  minutes := r.le_of_check .byMinute 0 59 (by simp [RuleParts.checks]) (by decide)
  seconds := r.le_of_check .bySecond 0 60 (by simp [RuleParts.checks]) (by decide)
  positions := r.signed_of_check .bySetPos 366 (by simp [RuleParts.checks]) (by decide)

/-- The draft with the parts in front of the lists. -/
def framed (r : Rule) : Draft where
  frequency := some r.frequency
  parts := { RuleParts.none with
    scale := r.parts.scale
    weekStart := r.parts.weekStart
    ending := r.parts.ending
    interval := r.parts.interval }
  settings := r.settings

/-- The draft with the lists as well. -/
def listed (r : Rule) : Draft :=
  { r.framed with
    parts := { r.parts with
      skip := none
      extras := [] } }

/-- The row of the ending has one token at most, under the name of what ends the series. -/
theorem reads_ending (d : Draft) (legible : r.parts.Legible r.settings)
    (year : ∀ t ∈ r.parts.last?, t.toDate.YearFits) :
    Reads r.settings
      ((RuleParts.optional "UNTIL" Temporal.chars r.parts.last?).map token ++
        (RuleParts.optional "COUNT" RuleParts.number r.parts.count?).map token)
      { d with parts.ending := none } { d with parts.ending := r.parts.ending } := by
  cases ending : r.parts.ending with
  | none =>
    unfold RuleParts.last? RuleParts.count?
    rw [ending]
    exact .nil
  | some e =>
    cases e with
    | count n =>
      have count : r.parts.count? = some n := by rw [RuleParts.count?, ending]
      have last : r.parts.last? = none := by rw [RuleParts.last?, ending]
      rw [last, count]
      exact .single (by decide) (by decide)
        (fitsToken_of_all (all_isValueChar_of_isWord (Numeral.isWord_decimal n)))
        (Assignment.ofPart_count _ (r.fits.count n count)) rfl
    | last t =>
      have count : r.parts.count? = none := by rw [RuleParts.count?, ending]
      have last : r.parts.last? = some t := by rw [RuleParts.last?, ending]
      rw [last, count]
      have read := legible.last t last
      have kept : Draft.keptLast t = t := Draft.keptLast_of_unzoned read.zone
      exact .single (by decide) (by decide)
        (fitsToken_of_all (all_isValueChar_of_isWord (Temporal.isWord_chars read.zone (year t last))))
        (Assignment.ofPart_last _ read (year t last)) (by rw [Draft.assign, kept])

theorem reads_framed (legible : r.parts.Legible r.settings)
    (year : ∀ t ∈ r.parts.last?, t.toDate.YearFits) :
    Reads r.settings
      ((RuleParts.optional "RSCALE" (fun s : Scale => s.text.toList) r.parts.scale ++
        [("FREQ", r.frequency.text.toList)] ++
        RuleParts.optional "WKST" (fun day : Weekday => day.code.toList) r.parts.weekStart ++
        RuleParts.optional "UNTIL" Temporal.chars r.parts.last? ++
        RuleParts.optional "COUNT" RuleParts.number r.parts.count? ++
        RuleParts.optional "INTERVAL" RuleParts.number r.parts.interval).map token)
      (.blank r.settings) r.framed := by
  let d₀ : Draft := .blank r.settings
  let d₁ : Draft := { d₀ with parts.scale := r.parts.scale }
  let d₂ : Draft := { d₁ with frequency := some r.frequency }
  let d₃ : Draft := { d₂ with parts.weekStart := r.parts.weekStart }
  let d₄ : Draft := { d₃ with parts.ending := r.parts.ending }
  have scale : Reads r.settings _ d₀ d₁ :=
    reads_optional .scale (fun v => { d₀ with parts.scale := v }) (by decide) (by decide)
      (fun v _ => v.isWord_text) (fun v _ => Assignment.ofPart_scale _ v) fun _ => rfl
  have frequency : Reads r.settings [token ("FREQ", r.frequency.text.toList)] d₁ d₂ :=
    .single (by decide) (by decide)
      (fitsToken_of_all (all_isValueChar_of_isWord r.frequency.isWord_text))
      (Assignment.ofPart_frequency _ r.frequency) rfl
  have weekStart : Reads r.settings _ d₂ d₃ :=
    reads_optional .weekStart (fun v => { d₂ with parts.weekStart := v }) (by decide) (by decide)
      (fun v _ => v.isWord_code) (fun v _ => Assignment.ofPart_weekStart _ v) fun _ => rfl
  have ending : Reads r.settings _ d₃ d₄ := reads_ending d₃ legible year
  have interval : Reads r.settings _ d₄ r.framed :=
    reads_optional .interval (fun v => { d₄ with parts.interval := v }) (by decide) (by decide)
      (fun n _ => Numeral.isWord_decimal n)
      (fun n hn => Assignment.ofPart_interval _ (r.fits.interval n hn)) fun _ => rfl
  have all := (((scale.append frequency).append weekStart).append ending).append interval
  simp only [List.map_append, List.append_assoc] at all ⊢
  exact all

theorem reads_lists :
    Reads r.settings
      ((RuleParts.listed "BYMONTH" RuleParts.number r.parts.months ++
        RuleParts.listed "BYWEEKNO" Numeral.signed r.parts.weekNumbers ++
        RuleParts.listed "BYYEARDAY" Numeral.signed r.parts.yearDays ++
        RuleParts.listed "BYMONTHDAY" Numeral.signed r.parts.monthDays ++
        RuleParts.listed "BYDAY" DayEntry.chars r.parts.days ++
        RuleParts.listed "BYHOUR" RuleParts.number r.parts.hours ++
        RuleParts.listed "BYMINUTE" RuleParts.number r.parts.minutes ++
        RuleParts.listed "BYSECOND" RuleParts.number r.parts.seconds ++
        RuleParts.listed "BYSETPOS" Numeral.signed r.parts.positions).map token)
      r.framed r.listed := by
  have fits := r.fits
  let d₀ := r.framed
  let d₁ : Draft := { d₀ with parts.months := r.parts.months }
  let d₂ : Draft := { d₁ with parts.weekNumbers := r.parts.weekNumbers }
  let d₃ : Draft := { d₂ with parts.yearDays := r.parts.yearDays }
  let d₄ : Draft := { d₃ with parts.monthDays := r.parts.monthDays }
  let d₅ : Draft := { d₄ with parts.days := r.parts.days }
  let d₆ : Draft := { d₅ with parts.hours := r.parts.hours }
  let d₇ : Draft := { d₆ with parts.minutes := r.parts.minutes }
  let d₈ : Draft := { d₇ with parts.seconds := r.parts.seconds }
  have months : Reads r.settings _ d₀ d₁ :=
    reads_listed .months (fun v => { d₀ with parts.months := v }) (by decide) (by decide)
      Numeral.isWord_decimal (Assignment.ofPart_months _ fits.months) rfl
  have weekNumbers : Reads r.settings _ d₁ d₂ :=
    reads_listed .weekNumbers (fun v => { d₁ with parts.weekNumbers := v }) (by decide) (by decide)
      Numeral.isWord_signed (Assignment.ofPart_positions _ fits.weekNumbers).1 rfl
  have yearDays : Reads r.settings _ d₂ d₃ :=
    reads_listed .yearDays (fun v => { d₂ with parts.yearDays := v }) (by decide) (by decide)
      Numeral.isWord_signed (Assignment.ofPart_positions _ fits.yearDays).2.1 rfl
  have monthDays : Reads r.settings _ d₃ d₄ :=
    reads_listed .monthDays (fun v => { d₃ with parts.monthDays := v }) (by decide) (by decide)
      Numeral.isWord_signed (Assignment.ofPart_positions _ fits.monthDays).2.2.1 rfl
  have days : Reads r.settings _ d₄ d₅ :=
    reads_listed .days (fun v => { d₄ with parts.days := v }) (by decide) (by decide)
      DayEntry.isWord_chars (Assignment.ofPart_days _ fits.days) rfl
  have hours : Reads r.settings _ d₅ d₆ :=
    reads_listed .hours (fun v => { d₅ with parts.hours := v }) (by decide) (by decide)
      Numeral.isWord_decimal (Assignment.ofPart_clock _ fits.hours).1 rfl
  have minutes : Reads r.settings _ d₆ d₇ :=
    reads_listed .minutes (fun v => { d₆ with parts.minutes := v }) (by decide) (by decide)
      Numeral.isWord_decimal (Assignment.ofPart_clock _ fits.minutes).2.1 rfl
  have seconds : Reads r.settings _ d₇ d₈ :=
    reads_listed .seconds (fun v => { d₇ with parts.seconds := v }) (by decide) (by decide)
      Numeral.isWord_decimal (Assignment.ofPart_clock _ fits.seconds).2.2 rfl
  have positions : Reads r.settings _ d₈ r.listed :=
    reads_listed .positions (fun v => { d₈ with parts.positions := v }) (by decide) (by decide)
      Numeral.isWord_signed (Assignment.ofPart_positions _ fits.positions).2.2.2 rfl
  have dates := (((months.append weekNumbers).append yearDays).append monthDays).append days
  have all := (((dates.append hours).append minutes).append seconds).append positions
  simp only [List.map_append, List.append_assoc] at all ⊢
  exact all

theorem reads_skip :
    Reads r.settings
      ((RuleParts.optional "SKIP" (fun s : Skip => s.text.toList) r.parts.skip).map token)
      r.listed { r.listed with parts.skip := r.parts.skip } :=
  reads_optional .skip (fun v => { r.listed with parts.skip := v }) (by decide) (by decide)
    (fun v _ => v.isWord_text) (fun v _ => Assignment.ofPart_skip _ v) fun _ => rfl

/-- **The tokens of a rule take the blank draft to the draft of the rule.** -/
theorem reads_written (legible : r.parts.Legible r.settings)
    (year : ∀ t ∈ r.parts.last?, t.toDate.YearFits) :
    Reads r.settings (r.written.map token) (.blank r.settings) (.ofRule r) := by
  have extras := reads_extras { r.listed with parts.skip := r.parts.skip } [] legible.extras
    legible.ascending
  have all := (((reads_framed legible year).append reads_lists).append reads_skip).append extras
  unfold written
  simp only [List.map_append, List.append_assoc, List.map_map] at all ⊢
  exact all

/-! ## 6. The text as a whole -/

/-- The first token is that of the scale or that of the frequency. -/
theorem written_eq_cons (r : Rule) : ∃ name value rest,
    (name = "RSCALE" ∨ name = "FREQ") ∧ r.written = (name, value) :: rest := by
  have front : RuleParts.optional "RSCALE" (fun s : Scale => s.text.toList) r.parts.scale ++
      [("FREQ", r.frequency.text.toList)] <+: r.written := by
    unfold written
    simp only [List.append_assoc]
    exact (List.prefix_append_right_inj _).mpr (List.prefix_append _ _)
  obtain ⟨rest, e⟩ := front
  cases scale : r.parts.scale with
  | none =>
    rw [scale] at e
    exact ⟨"FREQ", r.frequency.text.toList, rest, .inr rfl, e.symm⟩
  | some v =>
    rw [scale] at e
    exact ⟨"RSCALE", v.text.toList, _, .inl rfl, e.symm⟩

/-- Neither of these names can be taken for the word for a rule. -/
theorem dropHead?_name {name : String} (h : name = "RSCALE" ∨ name = "FREQ") (tail : List Char) :
    dropHead? "RRULE:".toList (name.toList ++ tail) = none ∧
      dropHead? "EXRULE:".toList (name.toList ++ tail) = none := by
  rcases h with rfl | rfl
  · exact ⟨rfl, rfl⟩
  · exact ⟨rfl, rfl⟩

/-- The row of a rule's tokens stands alone in its text: it has no blanks around it and no word in
    front. -/
theorem body_text (tokens : ∀ t ∈ r.written.map token, IsToken t) : body r.text = r.chars := by
  have row : r.chars = join ';' (r.written.map token) := rfl
  have trimmed : trim r.chars = r.chars := by
    rw [row]
    exact trim_join fun t ht => (tokens t ht).2
  obtain ⟨name, value, rest, names, first⟩ := r.written_eq_cons
  have start : token (name, value) <+: r.chars := by
    rw [row, first]
    exact prefix_join _ (rest.map token)
  obtain ⟨tail, e⟩ := start
  have bare : dropHead? "RRULE:".toList r.chars = none ∧
      dropHead? "EXRULE:".toList r.chars = none := by
    rw [← e, token, List.append_assoc]
    exact dropHead?_name names _
  unfold body text
  rw [String.toList_ofList, trimmed]
  simp only
  rw [bare.1, bare.2]
  simp

/-- **A rule that has been read is what its text reads as**, part for part, under the settings that it
    was read with. A last value must be in the years that have four digits. -/
theorem text_reads_back {s : Settings} {value : String} {r : Rule}
    (read : Rule.parseWith s value = .ok r)
    (year : ∀ t, r.parts.last? = some t → 0 ≤ t.toDate.year ∧ t.toDate.year ≤ 9999) :
    Rule.parseWith s r.text = .ok r := by
  obtain ⟨legible, rfl⟩ := legible_of_parseWith read
  obtain ⟨tokens, as, back, drafted⟩ := reads_written legible year
  have row : items ';' (body r.text) = r.written.map token := by
    rw [body_text tokens]
    exact items_join tokens
  unfold parseWith
  rw [row, back]
  show ((Draft.blank r.settings).assignAll as).build = _
  rw [drafted, Draft.build_ofRule]

/-- Every other Monday and last Friday up to the last leap second of 2016, with a part that has no
    meaning. -/
def untilLeapSecond : Rule where
  frequency := .monthly
  parts := { RuleParts.none with
    interval := some 2
    ending := some (.last (.utc ⟨63650447999, true, by decide, by decide⟩))
    days := [.every .monday, ⟨-1, .friday⟩]
    extras := [("X-NOTE", " a=b")] }
  settings := ⟨0, true, true, .skip⟩
  valid := by decide

theorem text_untilLeapSecond :
    let s : Settings := ⟨0, true, true, .skip⟩
    let value :=
      " rrule:x-note= a=b ;;byday=mo, -1fr,;INTERVAL=+02;until=20161231T235960Z; freq=monthly"
    Rule.parseWith s value = .ok untilLeapSecond ∧
      (∀ t, untilLeapSecond.parts.last? = some t → 0 ≤ t.toDate.year ∧ t.toDate.year ≤ 9999) ∧
      Rule.parseWith s untilLeapSecond.text = .ok untilLeapSecond := by
  intro s value
  have row : items ';' (body value) = ["x-note= a=b".toList, "byday=mo, -1fr,".toList,
      "INTERVAL=+02".toList, "until=20161231T235960Z".toList, "freq=monthly".toList] := by decide
  have read : Rule.parseWith s value = .ok untilLeapSecond := by
    unfold parseWith
    rw [row]
    rfl
  have year : ∀ t, untilLeapSecond.parts.last? = some t →
      0 ≤ t.toDate.year ∧ t.toDate.year ≤ 9999 := fun t ht => by
    cases ht
    decide
  exact ⟨read, year, text_reads_back read year⟩

end Rule

end Almanac
