import Almanac.Calendar.Civil
import Almanac.Proofs.Calendar.Fields

/-!
# Civil times, their dates and clocks

A civil time is a stamp; date and clock are read off it. This file shows

* that time order is the order of the stamps but for leap seconds (`stamp_le_of_lt`);
* what a change of one field of the clock leaves alone: a new hour keeps the date, a new minute the
  hour, a new second the minute (`stamp_of_withMinute?`);
* **a civil time is told by its date, the fields of its clock and its leap mark** (`ext_fields`), and a
  change of one field leaves all others alone (`withSecondOfDay?_fields`);
* that steps of seconds add to the stamp and steps of months to the month index, and when they have
  a result;
* that elapsed time is what the stamps are apart, give or take a leap second.
-/

namespace Almanac.Civil

/-! ## 1. Order -/

theorem lt_iff_rank {a b : Civil} : a < b ↔ a.rank < b.rank := Iff.rfl

theorem le_iff_rank {a b : Civil} : a ≤ b ↔ a.rank ≤ b.rank := Iff.rfl

/-- What comes earlier has no later stamp. -/
theorem stamp_le_of_lt {a b : Civil} (h : a < b) : a.stamp ≤ b.stamp := by
  rw [lt_iff_rank] at h
  unfold rank at h
  split at h <;> split at h <;> omega

theorem lt_of_stamp_lt {a b : Civil} (h : a.stamp < b.stamp) : a < b := by
  rw [lt_iff_rank]
  unfold rank
  split <;> split <;> omega

/-! ## 2. Date and clock -/

@[simp] theorem day_date (c : Civil) : c.date.day = c.stamp / 86400 := rfl

/-- The second of the day, as what the days leave of the stamp. -/
theorem secondOfDay_eq (c : Civil) : (c.secondOfDay.val : Int) = c.stamp % 86400 := by
  show ((c.stamp % 86400).toNat : Int) = c.stamp % 86400
  omega

@[simp] theorem date_onDate (c : Civil) (d : Date) : (c.onDate d).date = d := date_ofDate d _ _

@[simp] theorem date_midnight (d : Date) : (midnight d).date = d := date_ofDate d _ _

theorem stamp_onDate (c : Civil) (d : Date) :
    (c.onDate d).stamp = d.day * 86400 + c.stamp % 86400 := by
  show d.day * 86400 + (c.secondOfDay.val : Int) = _
  rw [secondOfDay_eq]

theorem onDate_midnight (d e : Date) : (midnight d).onDate e = midnight e := by
  unfold onDate midnight
  rw [secondOfDay_ofDate]
  rfl

/-- Another second of the day leaves the date alone. -/
theorem stamp_of_withSecondOfDay? {c d : Civil} {second : Nat}
    (h : c.withSecondOfDay? second = some d) :
    second < 86400 ∧ d.date = c.date ∧ d.stamp = c.stamp / 86400 * 86400 + second := by
  unfold withSecondOfDay? at h
  split at h
  · rename_i lt
    cases h
    exact ⟨lt, date_ofDate _ _ _, rfl⟩
  · cases h

theorem date_of_withHour? {c d : Civil} {hour : Nat} (h : c.withHour? hour = some d) :
    d.date = c.date := by
  unfold withHour? at h
  split at h
  · exact (stamp_of_withSecondOfDay? h).2.1
  · cases h

/-- Another minute leaves the hour alone. -/
theorem stamp_of_withMinute? {c d : Civil} {minute : Nat} (h : c.withMinute? minute = some d) :
    d.stamp / 3600 = c.stamp / 3600 := by
  unfold withMinute? at h
  split at h
  · have := (stamp_of_withSecondOfDay? h).2.2
    have := c.secondOfDay_eq
    unfold hour second at *
    omega
  · cases h

/-- Another second leaves the minute alone. -/
theorem stamp_of_withSecond? {c d : Civil} {second : Nat} (h : c.withSecond? second = some d) :
    d.stamp / 60 = c.stamp / 60 := by
  unfold withSecond? at h
  split at h
  · have := (stamp_of_withSecondOfDay? h).2.2
    have := c.secondOfDay_eq
    omega
  · cases h

/-! ## 3. Fields of the clock -/

theorem clock_bounds (c : Civil) : c.hour ≤ 23 ∧ c.minute ≤ 59 ∧ c.second ≤ 59 := by
  have := c.secondOfDay.isLt
  unfold hour minute second
  omega

theorem atClock_fields (c : Civil) (leap : Bool) :
    atClock c.date c.hour c.minute c.second leap = ofDate c.date c.secondOfDay leap := by
  have clock : Fin.ofNat 86400 (c.hour * 3600 + c.minute * 60 + c.second) = c.secondOfDay := by
    apply Fin.ext
    have := c.secondOfDay.isLt
    show (c.hour * 3600 + c.minute * 60 + c.second) % 86400 = c.secondOfDay.val
    unfold hour minute second
    omega
  unfold atClock
  rw [clock]

/-- A civil time is put together from its fields. -/
theorem atClock_self (c : Civil) : atClock c.date c.hour c.minute c.second c.leap = c := by
  rw [atClock_fields, ofDate_date]

theorem second_atClock (d : Date) (hour minute : Nat) {leap : Bool} :
    (atClock d hour minute 59 leap).second = 59 := by
  unfold atClock second
  rw [secondOfDay_ofDate]
  show (hour * 3600 + minute * 60 + 59) % 86400 % 60 = 59
  omega

/-- The fields that a civil time is put together from. -/
theorem clock_atClock (d : Date) {hour minute second : Nat} (leap : Bool) (hh : hour ≤ 23)
    (hm : minute ≤ 59) (hs : second ≤ 59) : (atClock d hour minute second leap).hour = hour ∧
      (atClock d hour minute second leap).minute = minute ∧
      (atClock d hour minute second leap).second = second := by
  have clock : (atClock d hour minute second leap).secondOfDay.val =
      hour * 3600 + minute * 60 + second := by
    unfold atClock
    rw [secondOfDay_ofDate]
    exact Nat.mod_eq_of_lt (by omega)
  unfold Civil.hour Civil.minute Civil.second
  rw [clock]
  omega

/-- A civil time is told by its date, its fields and its leap mark. -/
theorem ext_fields {a b : Civil} (date : a.date = b.date) (hour : a.hour = b.hour)
    (minute : a.minute = b.minute) (second : a.second = b.second) (leap : a.leap = b.leap) :
    a = b := by
  rw [← atClock_self a, ← atClock_self b, date, hour, minute, second, leap]

theorem withSecondOfDay?_eq_some_iff {c d : Civil} {second : Nat} :
    c.withSecondOfDay? second = some d ↔
      d.date = c.date ∧ d.secondOfDay.val = second ∧ d.leap = c.leap := by
  unfold withSecondOfDay?
  constructor
  · intro h
    split at h
    · cases h
      exact ⟨date_ofDate _ _ _, congrArg Fin.val (secondOfDay_ofDate _ _ _), rfl⟩
    · cases h
  · intro ⟨date, second, leap⟩
    rw [dif_pos (second ▸ d.secondOfDay.isLt)]
    simp only [← second, ← date, ← leap, Fin.eta, ofDate_date]

/-- **A new time of day is read off its fields**, as long as a clock shows them. -/
theorem withSecondOfDay?_fields {c d : Civil} {hour minute second : Nat} (hm : minute < 60)
    (hs : second < 60) : c.withSecondOfDay? (hour * 3600 + minute * 60 + second) = some d ↔
      d.hour = hour ∧ d.minute = minute ∧ d.second = second ∧ d.date = c.date ∧ d.leap = c.leap := by
  rw [withSecondOfDay?_eq_some_iff]
  unfold Civil.hour Civil.minute Civil.second
  refine ⟨fun ⟨date, own, leap⟩ => ⟨?_, ?_, ?_, date, leap⟩,
    fun ⟨_, _, _, date, leap⟩ => ⟨date, ?_, leap⟩⟩
  all_goals omega

theorem withHour?_eq_some_iff {c d : Civil} {hour : Nat} : c.withHour? hour = some d ↔
    d.hour = hour ∧ d.minute = c.minute ∧ d.second = c.second ∧ d.date = c.date ∧
      d.leap = c.leap := by
  obtain ⟨-, minute, second⟩ := c.clock_bounds
  have shown := d.clock_bounds.1
  unfold withHour?
  split
  · have fields : c.secondOfDay.val % 3600 = c.minute * 60 + c.second := by
      unfold Civil.minute Civil.second
      omega
    rw [fields, ← Nat.add_assoc, withSecondOfDay?_fields (by omega) (by omega)]
  · exact ⟨nofun, fun h => by omega⟩

theorem withMinute?_eq_some_iff {c d : Civil} {minute : Nat} : c.withMinute? minute = some d ↔
    d.minute = minute ∧ d.hour = c.hour ∧ d.second = c.second ∧ d.date = c.date ∧
      d.leap = c.leap := by
  have second := c.clock_bounds.2.2
  have shown := d.clock_bounds.2.1
  unfold withMinute?
  split
  · exact (withSecondOfDay?_fields (by omega) (by omega)).trans and_left_comm
  · exact ⟨nofun, fun h => by omega⟩

theorem withSecond?_eq_some_iff {c d : Civil} {second : Nat} : c.withSecond? second = some d ↔
    d.second = second ∧ d.hour = c.hour ∧ d.minute = c.minute ∧ d.date = c.date ∧
      d.leap = c.leap := by
  have minute := c.clock_bounds.2.1
  have shown := d.clock_bounds.2.2
  unfold withSecond?
  split
  · have fields : c.secondOfDay.val / 60 * 60 = c.hour * 3600 + c.minute * 60 := by
      unfold Civil.hour Civil.minute
      omega
    rw [fields, withSecondOfDay?_fields (by omega) (by omega)]
    exact ⟨fun ⟨h, m, s, rest⟩ => ⟨s, h, m, rest⟩, fun ⟨s, h, m, rest⟩ => ⟨h, m, s, rest⟩⟩
  · exact ⟨nofun, fun h => by omega⟩

/-! ## 4. Steps -/

theorem ofStamp?_eq_some_iff {stamp : Int} {leap : Bool} {c : Civil} :
    ofStamp? stamp leap = some c ↔ c.stamp = stamp ∧ c.leap = leap := by
  unfold ofStamp?
  constructor
  · intro h
    split at h
    · cases h
      exact ⟨rfl, rfl⟩
    · cases h
  · rintro ⟨rfl, rfl⟩
    exact dif_pos ⟨c.first_le, c.le_last⟩

/-- Going forward, a leap second counts as the second it follows. -/
theorem stampAfter_eq (c : Civil) (seconds : Nat) : c.stampAfter seconds = c.stamp + seconds := by
  unfold stampAfter
  rw [if_neg (by omega), Int.add_zero]

/-- Where no leap second is left, time passes second by second in both directions. -/
theorem stampAfter_of_plain {c : Civil} (plain : c.leap = false) (seconds : Int) :
    c.stampAfter seconds = c.stamp + seconds := by
  unfold stampAfter
  rw [plain, if_neg (by simp), Int.add_zero]

/-- A step is told by its stamp, and it stays in a leap second only if no time passes. -/
theorem addSeconds?_eq_some_iff {c d : Civil} {seconds : Int} : c.addSeconds? seconds = some d ↔
    d.stamp = c.stampAfter seconds ∧ d.leap = (c.leap && decide (seconds = 0)) := by
  unfold addSeconds?
  by_cases none : seconds = 0
  · have same : c.stampAfter 0 = c.stamp := (c.stampAfter_eq 0).trans (Int.add_zero _)
    rw [none, if_pos rfl, same, decide_eq_true rfl, Bool.and_true, Option.some_inj]
    constructor
    · intro h
      rw [h]
      exact ⟨rfl, rfl⟩
    · intro ⟨stamp, leap⟩
      exact Civil.ext stamp.symm leap.symm
  · rw [if_neg none, ofStamp?_eq_some_iff, decide_eq_false none, Bool.and_false]

/-- Where no leap second is left, a step is told by its seconds. -/
theorem addSeconds?_eq_some_iff_of_plain {c d : Civil} (plain : c.leap = false) {seconds : Int} :
    c.addSeconds? seconds = some d ↔ d.stamp = c.stamp + seconds ∧ d.leap = false := by
  rw [addSeconds?_eq_some_iff, stampAfter_of_plain plain, plain, Bool.false_and]

theorem stamp_of_addSeconds? {c d : Civil} {seconds : Nat} (h : c.addSeconds? seconds = some d) :
    d.stamp = c.stamp + seconds :=
  (addSeconds?_eq_some_iff.mp h).1.trans (c.stampAfter_eq seconds)

theorem addSeconds?_isSome {c : Civil} {seconds : Nat} (h : c.stamp + seconds ≤ lastStamp) :
    (c.addSeconds? seconds).isSome := by
  unfold addSeconds?
  split
  · rfl
  · have := c.first_le
    have within : firstStamp ≤ c.stampAfter seconds ∧ c.stampAfter seconds ≤ lastStamp := by
      rw [c.stampAfter_eq seconds]
      omega
    simp only [ofStamp?, dif_pos within, Option.isSome_some]

theorem stamp_nearest (stamp : Int) (leap : Bool) :
    (nearest stamp leap).stamp = max firstStamp (min lastStamp stamp) := by
  have wide : firstStamp ≤ lastStamp := by decide
  unfold nearest
  split
  · show firstStamp = _
    omega
  · split
    · show lastStamp = _
      omega
    · show stamp = _
      omega

/-- So many seconds are added, and the ends of the calendar stand for what lies past them. -/
theorem stamp_addSecondsWithin (c : Civil) (seconds : Int) :
    (c.addSecondsWithin seconds).stamp = max firstStamp (min lastStamp (c.stampAfter seconds)) := by
  unfold addSecondsWithin
  split
  · rename_i none
    have low := c.first_le
    have high := c.le_last
    have same : c.stampAfter 0 = c.stamp + (0 : Nat) := c.stampAfter_eq 0
    rw [none]
    omega
  · exact stamp_nearest _ _

theorem date_of_addMonths? {c d : Civil} {months : Int} (h : c.addMonths? months = some d) :
    c.date.addMonths? months = some d.date := by
  unfold addMonths? at h
  obtain ⟨e, he, rfl⟩ := Option.map_eq_some_iff.mp h
  rw [he, onDate, date_ofDate]

@[simp] theorem addMonths?_zero (c : Civil) : c.addMonths? 0 = some c := by
  rw [addMonths?, Date.addMonths?_zero, Option.map_some]
  exact congrArg some c.ofDate_date

/-! ## 5. Elapsed time -/

/-- Elapsed time is what the stamps are apart, but for a leap second at the end. -/
theorem secondsSince_le (a b : Civil) : a.secondsSince b ≤ a.stamp - b.stamp + 1 := by
  unfold secondsSince
  split <;> split <;> omega

/-- Elapsed time is what the stamps are apart, but for a leap second at the start. -/
theorem le_secondsSince (a b : Civil) : a.stamp - b.stamp ≤ a.secondsSince b + 1 := by
  unfold secondsSince
  split <;> split <;> omega

theorem secondsSince_nonneg {a b : Civil} (h : b < a) : 0 ≤ a.secondsSince b := by
  rw [lt_iff_rank] at h
  unfold rank at h
  unfold secondsSince
  by_cases same : a.stamp = b.stamp
  · have clocks : a.secondOfDay = b.secondOfDay := by
      apply Fin.ext
      have := a.secondOfDay_eq
      have := b.secondOfDay_eq
      rw [same] at *
      omega
    cases hb : b.leap with
    | true =>
      rw [hb, same, if_pos rfl] at h
      split at h <;> omega
    | false =>
      simp only [clocks, same, Bool.false_eq_true, false_and, if_false]
      split <;> omega
  · have : b.stamp < a.stamp := by
      split at h <;> split at h <;> omega
    split <;> split <;> omega

end Almanac.Civil
