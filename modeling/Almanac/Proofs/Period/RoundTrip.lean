import Almanac.PeriodList.Basic
import Almanac.Proofs.Amount.Displacement
import Almanac.Proofs.Period.Order
import Almanac.Proofs.PeriodList.Members
import Almanac.Proofs.Temporal.Reach
import Almanac.Proofs.Temporal.RoundTrip

/-!
# Period text keeps the bounds

A period is written by its start and its stop, or by its start and its length. The length is not
written as it was given: years and months become days, counted from the start, and days may become
weeks. This file shows

* **what is read leads to the same stop** (`Temporal.exists_parse_textFrom`), for a start in no zone
  and at no leap second: days counted from the start are the days that the step takes
  (`Nominal.daysFrom_of_addTo?`), and a number of days that elapse is as good as so many days
  (`Temporal.plus?_ofDays`);
* so **the text of a period, and of a list of periods, keeps the bounds**
  (`PeriodList.text_keeps_bounds`). A leap second is written as the second 60, which the reader
  refuses (`Period.leap_bound_refused`).
-/

namespace Almanac

/-! ## 1. Periods -/

namespace Period

variable {p : Period}

/-- A period built from two bounds or from a start and a length, whose bounds stand in no zone, in the
    years 0 to 9999, and at no leap second. -/
structure Writable (p : Period) : Prop where
  built : (∃ start stop, between start stop = .ok p) ∨ ∃ start length, lasting start length = .ok p
  zone : p.start.zone? = none ∧ p.stop.zone? = none
  year : p.start.toDate.YearFits ∧ p.stop.toDate.YearFits
  plain : p.start.localTime.leap = false ∧ p.stop.localTime.leap = false

/-- The characters of a period's text behind the slash. -/
def endChars (p : Period) : List Char :=
  match p.length with
  | some length => length.charsFrom p.start.localTime
  | none => p.stop.chars

theorem toList_text (p : Period) : p.text.toList = p.start.chars ++ '/' :: p.endChars := by
  unfold text endChars Temporal.text Amount.textFrom
  cases p.length with
  | some length => simp [String.toList_append]
  | none => simp [String.toList_append]

/-- Two words with a slash between them. -/
theorem Writable.words (h : p.Writable) :
    Text.IsWord p.start.chars ∧ Text.IsWord p.endChars := by
  refine ⟨Temporal.isWord_chars h.zone.1 h.year.1, ?_⟩
  unfold endChars
  cases p.length with
  | some length => exact length.isWord_charsFrom _
  | none => exact Temporal.isWord_chars h.zone.2 h.year.2

theorem Writable.cut (h : p.Writable) :
    Text.cut? '/' p.text.toList = some (p.start.chars, p.endChars) := by
  rw [toList_text]
  exact Text.cut?_append (h.words.1.not_mem (by decide))

/-- What stands in no zone and at no leap second reads back. -/
theorem parse_chars {t : Temporal} (zone : t.zone? = none) (h : t.toDate.YearFits)
    (plain : t.localTime.leap = false) : Temporal.parse (String.ofList t.chars) = .ok t := by
  unfold Temporal.parse Temporal.parseWith
  rw [String.toList_ofList, Temporal.readStrict_chars zone h plain]

theorem looksLikeLength_charsFrom {a : Amount} (forward : a.isNegative = false) (seed : Civil) :
    looksLikeLength (a.charsFrom seed) = true := by
  unfold Amount.charsFrom
  rw [forward]
  rfl

/-- What stands in no zone begins with a digit, -/
theorem chars_eq_cons {t : Temporal} (zone : t.zone? = none) (h : t.toDate.YearFits) :
    ∃ c cs, t.chars = c :: cs ∧ c.isDigit = true := by
  have dated (d : Date) (fits : d.YearFits) (rest : List Char) :
      ∃ c cs, d.chars ++ rest = c :: cs ∧ c.isDigit = true := by
    obtain ⟨c, cs, e, digit⟩ := Temporal.padded_eq_cons (show 0 < 4 by decide) d.year.toNat
    rw [Date.chars_eq fits, e]
    exact ⟨c, _, rfl, digit⟩
  cases t with
  | date d =>
    rw [Temporal.toDate, Temporal.localTime, Civil.date_midnight] at h
    have first := dated d h []
    rw [List.append_nil] at first
    exact first
  | floating c => exact dated c.date h _
  | utc c =>
    show ∃ _ _, (c.date.chars ++ 'T' :: c.clockChars) ++ ['Z'] = _ ∧ _
    rw [List.append_assoc]
    exact dated c.date h _
  | zoned z => cases zone

/-- so it is not taken for a length. -/
theorem looksLikeLength_chars {t : Temporal} (zone : t.zone? = none) (h : t.toDate.YearFits) :
    looksLikeLength t.chars = false := by
  obtain ⟨c, cs, e, digit⟩ := chars_eq_cons zone h
  have sign : ¬ (c = '+' ∨ c = '-') := by
    rintro (rfl | rfl)
    · cases digit
    · cases digit
  unfold looksLikeLength
  rw [e, List.dropWhile_cons_of_neg (by simpa using sign)]
  refine decide_eq_false fun head => ?_
  cases head
  cases digit

/-- **A period's text keeps its bounds.** -/
theorem exists_parse_text (h : p.Writable) :
    ∃ q, parse p.text = .ok q ∧ q.start = p.start ∧ q.stop = p.stop := by
  have read : parse p.text = (if looksLikeLength p.endChars = true then
      (Amount.parse (String.ofList p.endChars)).bind (lasting p.start)
    else (Temporal.parse (String.ofList p.endChars)).bind (between p.start)) := by
    unfold parse
    rw [h.cut]
    simp only
    rw [parse_chars h.zone.1 h.year.1 h.plain.1]
    rfl
  rw [read]
  rcases h.built with ⟨start, stop, made⟩ | ⟨start, length, made⟩
  · obtain ⟨-, rfl⟩ := between_eq_ok_iff.mp made
    have time : looksLikeLength stop.chars = false := looksLikeLength_chars h.zone.2 h.year.2
    have stopRead : Temporal.parse (String.ofList stop.chars) = .ok stop :=
      parse_chars h.zone.2 h.year.2 h.plain.2
    refine ⟨span start stop, ?_, rfl, rfl⟩
    show (if looksLikeLength stop.chars = true then _ else
      (Temporal.parse (String.ofList stop.chars)).bind (between start)) = _
    rw [time, if_neg Bool.false_ne_true, stopRead]
    exact made
  · obtain ⟨forward, stop, hstop, rfl⟩ := lasting_eq_ok_iff.mp made
    obtain ⟨b, readLength, forward', reaches⟩ :=
      Temporal.exists_parse_textFrom h.zone.1 h.plain.1 forward (Temporal.plus_eq_ok_iff.mp hstop)
    refine ⟨⟨start, stop, some b⟩, ?_, rfl, rfl⟩
    show (if looksLikeLength (length.charsFrom start.localTime) = true then
      (Amount.parse (length.textFrom start)).bind (lasting start) else _) = _
    rw [looksLikeLength_charsFrom forward, if_pos rfl, readLength]
    exact lasting_eq_ok_iff.mpr ⟨forward', stop, Temporal.plus_eq_ok_iff.mpr reaches, rfl⟩

theorem bounds_of_parse_text {q : Period} (h : p.Writable) (read : parse p.text = .ok q) :
    q.start = p.start ∧ q.stop = p.stop := by
  obtain ⟨r, read', bounds⟩ := exists_parse_text h
  cases read.symm.trans read'
  exact bounds

end Period

/-! ## 2. Lists of periods -/

namespace PeriodList

/-- The characters of a period that can be written are one item of a list. -/
theorem item_of_writable {p : Period} (h : p.Writable) :
    ',' ∉ p.text.toList ∧ Text.trim p.text.toList = p.text.toList ∧ p.text.toList ≠ [] := by
  obtain ⟨start, stop⟩ := h.words
  rw [Period.toList_text]
  refine ⟨?_, Text.trim_of_forall fun c hc => ?_, by simp⟩
  · rw [List.mem_append, List.mem_cons, not_or, not_or]
    exact ⟨start.not_mem (by decide), by decide, stop.not_mem (by decide)⟩
  · rcases List.mem_append.mp hc with hc | hc
    · exact Text.isBlank_of_isPlain (List.all_eq_true.mp start.2 c hc)
    · rcases List.mem_cons.mp hc with rfl | hc
      · decide
      · exact Text.isBlank_of_isPlain (List.all_eq_true.mp stop.2 c hc)

/-- Every item is read. -/
theorem exists_mapM_parse {ps : List Period} (h : ∀ p ∈ ps, p.Writable) :
    ∃ qs, (ps.map fun p => p.text.toList).mapM (fun item => Period.parse (String.ofList item)) =
      .ok qs := by
  simp only [Results.mapM_eq_ok_iff, List.forall₂_map_left_iff, String.ofList_toList]
  induction ps with
  | nil => exact ⟨[], .nil⟩
  | cons p rest ih =>
    obtain ⟨q, read, -⟩ := Period.exists_parse_text (h p List.mem_cons_self)
    obtain ⟨qs, others⟩ := ih fun r hr => h r (List.mem_cons_of_mem p hr)
    exact ⟨q :: qs, .cons read others⟩

/-- **What a list of texts is read as** has the bounds that were written. -/
theorem exists_bounds_iff {ps qs : List Period} (h : ∀ p ∈ ps, p.Writable)
    (read : (ps.map fun p => p.text.toList).mapM
      (fun item => Period.parse (String.ofList item)) = .ok qs) (s e : Temporal) :
    (∃ q ∈ (ofList qs).members, q.start = s ∧ q.stop = e) ↔
      ∃ p ∈ ps, p.start = s ∧ p.stop = e := by
  have written : ∀ q ∈ qs, ∃ p ∈ ps, q.start = p.start ∧ q.stop = p.stop := fun q hq => by
    obtain ⟨item, mem, parsed⟩ := Results.exists_of_mem_mapM read hq
    obtain ⟨p, hp, rfl⟩ := List.mem_map.mp mem
    rw [String.ofList_toList] at parsed
    exact ⟨p, hp, Period.bounds_of_parse_text (h p hp) parsed⟩
  have unzoned : ∀ q ∈ qs, q.start.zone? = none ∧ q.stop.zone? = none := fun q hq => by
    obtain ⟨p, hp, start, stop⟩ := written q hq
    rw [start, stop]
    exact (h p hp).zone
  constructor
  · intro ⟨q, hq, start, stop⟩
    obtain ⟨p, hp, start', stop'⟩ := written q (mem_of_mem_ofList hq)
    exact ⟨p, hp, start'.symm.trans start, stop'.symm.trans stop⟩
  · intro ⟨p, hp, start, stop⟩
    obtain ⟨q, hq, parsed⟩ := Results.exists_mem_of_mapM read (List.mem_map_of_mem hp)
    rw [String.ofList_toList] at parsed
    obtain ⟨start', stop'⟩ := Period.bounds_of_parse_text (h p hp) parsed
    -- a period that is the same may stand for it, but without zones that has the same bounds
    obtain ⟨r, hr, same⟩ := exists_same_mem_ofList hq
    obtain ⟨start'', stop''⟩ :=
      Period.bounds_eq_of_compare (unzoned q hq) (unzoned r (mem_of_mem_ofList hr)) same
    exact ⟨r, hr, start''.symm.trans (start'.trans start), stop''.symm.trans (stop'.trans stop)⟩

/-- **The text of a period keeps its bounds, and so does the text of a list of periods.** A period
    whose bounds stand in no zone, in the years 0 to 9999, and at no leap second is read as one with
    the same bounds; a list of such periods is read as a list in which the same bounds occur. -/
theorem text_keeps_bounds :
    (∀ p : Period, p.Writable →
      ∃ q, Period.parse p.text = .ok q ∧ q.start = p.start ∧ q.stop = p.stop) ∧
    ∀ l : PeriodList, (∀ p ∈ l.members, p.Writable) →
      ∃ m, PeriodList.parse l.text = .ok m ∧ ∀ s e : Temporal,
        (∃ q ∈ m.members, q.start = s ∧ q.stop = e) ↔
          ∃ p ∈ l.members, p.start = s ∧ p.stop = e := by
  refine ⟨fun p h => Period.exists_parse_text h, fun l h => ?_⟩
  obtain ⟨qs, read⟩ := exists_mapM_parse h
  have items : Text.items ',' l.text.toList = l.members.map fun p => p.text.toList := by
    unfold text
    rw [String.toList_ofList]
    refine Text.items_join fun item mem => ?_
    obtain ⟨p, hp, rfl⟩ := List.mem_map.mp mem
    exact item_of_writable (h p hp)
  refine ⟨ofList qs, ?_, exists_bounds_iff h read⟩
  unfold parse
  rw [items, read]
  rfl

/-- Fifteen hours of 2 January 2024, by their bounds. -/
def fifteenHours : Period :=
  .span (.utc ⟨63871405200, false, by decide, by decide⟩)
    (.utc ⟨63871459200, false, by decide, by decide⟩)

/-- A month and a day, from its last day on. -/
def monthAndDay : Period :=
  ⟨.date ⟨739281, by decide, by decide⟩, .date ⟨739311, by decide, by decide⟩,
    some (.nominal ⟨0, 1, 1⟩)⟩

def trips : PeriodList := ⟨[fifteenHours, monthAndDay], by decide⟩

example : trips.text = "20240102T090000Z/20240103T000000Z,20240131/P30D" := by decide +kernel

theorem text_of_trips : (∀ p ∈ trips.members, p.Writable) ∧
    (∀ p ∈ trips.members,
      ∃ q, Period.parse p.text = .ok q ∧ q.start = p.start ∧ q.stop = p.stop) ∧
    ∃ m, PeriodList.parse trips.text = .ok m ∧ ∀ s e : Temporal,
      (∃ q ∈ m.members, q.start = s ∧ q.stop = e) ↔
        ∃ p ∈ trips.members, p.start = s ∧ p.stop = e := by
  have writable : ∀ p ∈ trips.members, p.Writable := by
    intro p hp
    rcases List.mem_cons.mp hp with rfl | hp
    · have built : Period.between fifteenHours.start fifteenHours.stop = .ok fifteenHours := rfl
      exact ⟨.inl ⟨_, _, built⟩, ⟨rfl, rfl⟩, by decide, ⟨rfl, rfl⟩⟩
    · cases List.mem_singleton.mp hp
      have built : Period.lasting monthAndDay.start (.nominal ⟨0, 1, 1⟩) = .ok monthAndDay := rfl
      exact ⟨.inr ⟨_, _, built⟩, ⟨rfl, rfl⟩, by decide, ⟨rfl, rfl⟩⟩
  obtain ⟨one, all⟩ := text_keeps_bounds
  exact ⟨writable, fun p hp => one p (writable p hp), all trips writable⟩

end PeriodList

/-- An hour from the leap second at the end of 2016 on. -/
def Period.afterLeapSecond : Period :=
  ⟨.floating (.nearest 63650447999 true), .floating (.nearest 63650451599 false),
    some (.exact .hour)⟩

/-- **A leap second is written, but not read.** -/
theorem Period.leap_bound_refused :
    Period.lasting afterLeapSecond.start (.exact .hour) = .ok afterLeapSecond ∧
      (afterLeapSecond.start.zone? = none ∧ afterLeapSecond.stop.zone? = none) ∧
      (afterLeapSecond.start.toDate.YearFits ∧ afterLeapSecond.stop.toDate.YearFits) ∧
      afterLeapSecond.text = "20161231T235960/PT1H" ∧
      Period.parse afterLeapSecond.text = .error (.malformedTemporal "20161231T235960" 13) := by
  have text : afterLeapSecond.text = "20161231T235960/PT1H" := by decide +kernel
  refine ⟨rfl, ⟨rfl, rfl⟩, by decide, text, ?_⟩
  rw [text]
  rfl

end Almanac
