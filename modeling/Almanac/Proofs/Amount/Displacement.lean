import Almanac.Proofs.Amount.RoundTrip
import Almanac.Proofs.Temporal.Comparator
import Almanac.Proofs.Temporal.Steps

/-!
# Where an amount leads that has been written

The length of an amount is not written as it was given: years and months become days, counted from a
seed, and days may become weeks. This file fixes

* **days counted from the seed are the days that the step takes** (`Nominal.daysFrom_of_addTo?`), but
  from a leap second, and a number of days that elapse is as good as so many days;
* so what is read leads from the seed to the same value (`Temporal.exists_parse_textFrom`), if the
  amount is not negative and the seed stands in no zone and at no leap second;
* **the days of a negative amount are counted the wrong way**: the length that is written is that of the
  amount turned forward. It leads to the same value just when the way back is as long as the way forth
  (`Temporal.text_keeps_displacement`), and another month may lie there
  (`Temporal.monthBack_written_too_short`).
-/

namespace Almanac

open Numeral

/-! ## 1. Days -/

namespace Nominal

variable {n : Nominal} {c e : Civil}

/-- **The days that are written are the days that the step takes.** -/
theorem daysFrom_of_addTo? (plain : c.leap = false) (h : n.addTo? c = some e) :
    e.leap = false ∧ e.stamp = c.stamp + n.daysFrom c * 86400 := by
  have days (months : ¬ (n.years ≠ 0 ∨ n.months ≠ 0)) :
      n.daysFrom c = n.days.toInt ∧ (Amount.nominal n).IsFixed := by
    unfold daysFrom
    rw [if_neg months]
    rw [not_or, not_not, not_not] at months
    exact ⟨rfl, months⟩
  by_cases months : n.years ≠ 0 ∨ n.months ≠ 0
  · obtain ⟨shifted, hm, hd⟩ := Option.bind_eq_some_iff.mp
      (show (c.addMonths? n.totalMonths).bind (fun s => s.addDays? n.days.toInt) = some e from h)
    obtain ⟨day, -, rfl⟩ := Option.map_eq_some_iff.mp hm
    obtain ⟨stamp, leap⟩ := (Civil.addSeconds?_eq_some_iff_of_plain (c := c.onDate day) plain).mp hd
    rw [Civil.stamp_onDate] at stamp
    refine ⟨leap, ?_⟩
    unfold daysFrom
    rw [if_pos months, h]
    simp only [Civil.secondsSince, leap, plain, Bool.false_eq_true, false_and, if_false]
    have apart : e.stamp - c.stamp + 0 - 0 =
        (day.day - c.stamp / 86400 + n.days.toInt) * 86400 := by omega
    rw [apart, Int.mul_tdiv_cancel _ (by decide)]
    omega
  · obtain ⟨long, fixed⟩ := days months
    rw [addTo?_of_isFixed fixed] at h
    rw [long]
    exact ((Civil.addSeconds?_eq_some_iff_of_plain plain).mp h).symm

/-- **Turned forward, an amount that leads anywhere has a length that a field can hold**, from a leap
    second too. -/
theorem exists_daysFrom_forward (turns : n.Turns) (h : n.forward.addTo? c = some e) :
    ∃ days : Nat, n.forward.daysFrom c = days ∧ (days : Int) ≤ signedMax := by
  obtain ⟨years, months, days⟩ := turns.forward_parts
  unfold daysFrom
  split
  · rename_i counted
    have later := (Temporal.stamp_le_of_addTo?
      (isNegative_eq_false_iff.mpr turns.forward_parts) h).2 fun zero => by
        rw [zero] at counted
        exact absurd counted (by decide)
    have low : e.stamp - c.stamp - 1 ≤ e.secondsSince c := by
      unfold Civil.secondsSince
      split <;> split <;> omega
    have high := e.secondsSince_le c
    have first := c.first_le
    have last := e.le_last
    simp only [firstStamp, lastStamp] at first last
    rw [h]
    simp only
    rw [Int.tdiv_eq_ediv_of_nonneg (by omega)]
    refine ⟨(e.secondsSince c / 86400).toNat, ?_, ?_⟩
    · omega
    · unfold signedMax
      omega
  · have most := n.forward.days.toInt_lt
    exact ⟨n.forward.days.toInt.toNat, by omega, by unfold signedMax; omega⟩

end Nominal

namespace Temporal

variable {t u w : Temporal} {d : Amount} {n : Nominal}

/-- The value of the same kind with the same civil time is the same value. -/
theorem withCivil_localTime (hz : t.zone? = none) (kind : u.kindRank = t.kindRank)
    (policy : GapPolicy) : t.withCivil policy u.localTime = some u := by
  cases t with
  | zoned z => cases hz
  | date a =>
    cases u with
    | date b => exact congrArg (fun d => some (date d)) (Civil.date_midnight b)
    | floating _ => cases kind
    | utc _ => cases kind
    | zoned _ => cases kind
  | floating a =>
    cases u with
    | date _ => cases kind
    | floating b => rfl
    | utc _ => cases kind
    | zoned _ => cases kind
  | utc a =>
    cases u with
    | date _ => cases kind
    | floating _ => cases kind
    | utc b => rfl
    | zoned _ => cases kind

/-- **A step of so many days** leads to the value of the same kind that is so many days later. -/
theorem plus?_ofDays (hz : t.zone? = none) (plain : t.localTime.leap = false)
    (kind : u.kindRank = t.kindRank) (plain' : u.localTime.leap = false) {days : Int}
    (later : u.localTime.stamp = t.localTime.stamp + days * 86400) :
    (signedMin ≤ days ∧ days ≤ signedMax) ∧
      t.plus? (.nominal (Nominal.ofDays (Int32.ofInt days))) = some u := by
  have fits : signedMin ≤ days ∧ days ≤ signedMax := by
    have := t.localTime.first_le
    have := t.localTime.le_last
    have := u.localTime.first_le
    have := u.localTime.le_last
    simp only [firstStamp, lastStamp, signedMin, signedMax] at *
    omega
  refine ⟨fits, ?_⟩
  show ((Nominal.ofDays (Int32.ofInt days)).addTo? t.localTime).bind _ = some u
  rw [Nominal.addTo?_of_isFixed ⟨rfl, rfl⟩]
  show (t.localTime.addSeconds? ((Int32.ofInt days).toInt * 86400)).bind _ = some u
  rw [toInt_ofInt fits.1 fits.2,
    (Civil.addSeconds?_eq_some_iff_of_plain plain).mpr ⟨later, plain'⟩]
  exact withCivil_localTime hz kind .shiftForward

/-- Where a nominal step leads. -/
theorem days_of_plus? (hz : t.zone? = none) (plain : t.localTime.leap = false)
    (h : t.plus? (.nominal n) = some u) : u.kindRank = t.kindRank ∧ u.localTime.leap = false ∧
      u.localTime.stamp = t.localTime.stamp + n.daysFrom t.localTime * 86400 := by
  obtain ⟨e, he, hu⟩ := Option.bind_eq_some_iff.mp
    (show (n.addTo? t.localTime).bind (t.withCivil .shiftForward) = some u from h)
  obtain ⟨leap, stamp⟩ := Nominal.daysFrom_of_addTo? plain he
  refine ⟨(sameKind_of_withCivil hu).1, ?_⟩
  cases t with
  | zoned z => cases hz
  | date a =>
    cases hu
    have midnight : (Civil.midnight a).stamp = a.day * 86400 := Int.add_zero _
    refine ⟨rfl, ?_⟩
    show e.stamp / 86400 * 86400 + 0 = (Civil.midnight a).stamp + _
    have stamp : e.stamp = (Civil.midnight a).stamp + _ := stamp
    omega
  | floating a =>
    cases hu
    exact ⟨leap, stamp⟩
  | utc a =>
    cases hu
    exact ⟨leap, stamp⟩

/-- **A number of days leads to a value just when that is so many days later.** -/
theorem plus?_ofDays_iff (hz : t.zone? = none) (plain : t.localTime.leap = false)
    (kind : u.kindRank = t.kindRank) (plain' : u.localTime.leap = false) {days : Int}
    (fits : signedMin ≤ days ∧ days ≤ signedMax) :
    t.plus? (.nominal (Nominal.ofDays (Int32.ofInt days))) = some u ↔
      u.localTime.stamp = t.localTime.stamp + days * 86400 := by
  refine ⟨fun h => ?_, fun later => (plus?_ofDays hz plain kind plain' later).2⟩
  have later := (days_of_plus? hz plain h).2.2
  have long : (Nominal.ofDays (Int32.ofInt days)).daysFrom t.localTime = days :=
    toInt_ofInt fits.1 fits.2
  rw [long] at later
  exact later

/-- Where a number of days that elapse leads. -/
theorem days_of_plus?_exact {e : Elapsed} {days : Int} (hz : t.zone? = none)
    (plain : t.localTime.leap = false) (long : e.seconds = days * 86400)
    (h : t.plus? (.exact e) = some u) : u.kindRank = t.kindRank ∧ u.localTime.leap = false ∧
      u.localTime.stamp = t.localTime.stamp + days * 86400 := by
  cases t with
  | zoned z => cases hz
  | date a =>
    obtain ⟨b, hb, rfl⟩ := Option.map_eq_some_iff.mp
      (show (a.addDays? e.wholeDays).map date = some u from h)
    have later := Date.ofDay?_eq_some_iff.mp hb
    refine ⟨rfl, rfl, ?_⟩
    show b.day * 86400 + 0 = a.day * 86400 + 0 + days * 86400
    unfold Elapsed.wholeDays at later
    rw [long, Int.mul_tdiv_cancel _ (by decide)] at later
    omega
  | floating a =>
    obtain ⟨b, hb, rfl⟩ := Option.map_eq_some_iff.mp
      (show (a.addSeconds? e.seconds).map floating = some u from h)
    rw [long] at hb
    exact ⟨rfl, ((Civil.addSeconds?_eq_some_iff_of_plain plain).mp hb).symm⟩
  | utc a =>
    obtain ⟨b, hb, rfl⟩ := Option.map_eq_some_iff.mp
      (show (a.addSeconds? e.seconds).map utc = some u from h)
    rw [long] at hb
    exact ⟨rfl, ((Civil.addSeconds?_eq_some_iff_of_plain plain).mp hb).symm⟩

/-! ## 2. Amounts that are not negative -/

/-- A number of days is not negative. -/
theorem isNegative_ofDays {days : Nat} (fits : (days : Int) ≤ signedMax) :
    (Nominal.ofDays (Int32.ofInt days)).isNegative = false := by
  have days' := toInt_ofInt (Int.le_trans (by decide) (Int.natCast_nonneg days)) fits
  refine Nominal.isNegative_eq_false_iff.mpr ⟨Int.le_refl 0, Int.le_refl 0, ?_⟩
  show 0 ≤ (Int32.ofInt days).toInt
  omega

/-- **What is read leads to the same stop.** The text of an amount that is not negative, written from
    a value in no zone and at no leap second, reads as an amount that is not negative and leads from
    there to the same value. -/
theorem exists_parse_textFrom (hz : t.zone? = none) (plain : t.localTime.leap = false)
    (forward : d.isNegative = false) (h : t.plus? d = some u) :
    ∃ b : Amount, Amount.parse (d.textFrom t) = .ok b ∧ b.isNegative = false ∧
      t.plus? b = some u := by
  -- so many days, where these are what is read
  have reaches {days : Nat} (kind : u.kindRank = t.kindRank) (plain' : u.localTime.leap = false)
      (later : u.localTime.stamp = t.localTime.stamp + days * 86400)
      (read : (days : Int) ≤ signedMax → Amount.read? (d.charsFrom t.localTime) =
        some (.nominal (Nominal.ofDays (Int32.ofInt days)))) :
      ∃ b : Amount, Amount.parse (d.textFrom t) = .ok b ∧ b.isNegative = false ∧
        t.plus? b = some u := by
    obtain ⟨⟨-, fits⟩, leads⟩ := plus?_ofDays hz plain kind plain' later
    exact ⟨_, Amount.parse_ofList (read fits), isNegative_ofDays fits, leads⟩
  have fits' {days : Nat} (fits : (days : Int) ≤ signedMax) : Amount.FitsPart false days :=
    ⟨Int.le_trans (by decide) (Int.natCast_nonneg days), fits⟩
  cases d with
  | nominal n =>
    obtain ⟨kind, plain', later⟩ := days_of_plus? hz plain h
    obtain ⟨e, he, hu⟩ := Option.bind_eq_some_iff.mp
      (show (n.addTo? t.localTime).bind (t.withCivil .shiftForward) = some u from h)
    have le := (stamp_le_of_addTo? forward he).1
    have stamp := (Nominal.daysFrom_of_addTo? plain he).2
    obtain ⟨days, long⟩ := Int.eq_ofNat_of_zero_le (show 0 ≤ n.daysFrom t.localTime by omega)
    have own : n.isNegative = false := forward
    have same : n.forward = n := if_neg (by rw [own]; decide)
    rw [long] at later
    refine reaches kind plain' later fun fits => ?_
    have read := Amount.read?_nominal
      (show n.forward.daysFrom t.localTime = (days : Nat) by rw [same, long]) (own ▸ fits' fits)
    rw [own] at read
    exact read
  | exact e =>
    have nonneg : 0 ≤ e.seconds := Int.not_lt.mp (of_decide_eq_false forward)
    by_cases timed : e.seconds = 0 ∨ e.seconds % 86400 ≠ 0
    · exact ⟨_, Amount.parse_ofList (Amount.read?_exact timed _), forward, h⟩
    · rw [not_or, not_not] at timed
      obtain ⟨some, whole⟩ := timed
      obtain ⟨days, long⟩ := Int.eq_ofNat_of_zero_le (show 0 ≤ e.seconds / 86400 by omega)
      obtain ⟨kind, plain', later⟩ := days_of_plus?_exact hz plain
        (show e.seconds = (days : Int) * 86400 by omega) h
      refine reaches kind plain' later fun fits => ?_
      have read := Amount.read?_exact_days (show e.seconds.natAbs = days * 86400 by omega) (by omega)
        (forward ▸ fits' fits) t.localTime
      rw [forward] at read
      exact read

/-! ## 3. Amounts of either sign -/

/-- A value as far ahead of the one as it is behind the other. -/
def Midway (t u w : Temporal) : Prop :=
  t.localTime.stamp - u.localTime.stamp = w.localTime.stamp - t.localTime.stamp

instance (t u w : Temporal) : Decidable (t.Midway u w) := inferInstanceAs (Decidable (_ = _))

/-- **Where the text of a nominal amount leads**, written from a seed in no zone from which the amount
    leads somewhere in both directions. It is read as a number of days. Without years and months these
    lead to the same value as the amount; with them, and from no leap second, they do just when the
    amount is not negative or the seed lies midway, the way back being as long as the way forth. -/
theorem text_keeps_displacement (turns : n.Turns) (hz : t.zone? = none)
    (leads : t.plus (.nominal n) = .ok u) (back : t.plus (.nominal n.negated) = .ok w) :
    ∃ m : Nominal, m.years = 0 ∧ m.months = 0 ∧
      Amount.parse ((Amount.nominal n).textFrom t) = .ok (.nominal m) ∧
      (n.years = 0 ∧ n.months = 0 → t.plus (.nominal m) = .ok u) ∧
      (t.localTime.leap = false →
        (t.plus (.nominal m) = .ok u ↔ n.isNegative = false ∨ t.Midway u w)) := by
  have leads' := plus_eq_ok_iff.mp leads
  -- the amount that is measured leads to the value behind the seed, not to the one before it
  obtain ⟨v, ahead, which⟩ : ∃ v, t.plus? (.nominal n.forward) = some v ∧
      v = if n.isNegative then w else u := by
    unfold Nominal.forward
    cases n.isNegative with
    | true => exact ⟨w, plus_eq_ok_iff.mp back, rfl⟩
    | false => exact ⟨u, leads', rfl⟩
  obtain ⟨e, he, -⟩ := Option.bind_eq_some_iff.mp
    (show (n.forward.addTo? t.localTime).bind (t.withCivil .shiftForward) = some v from ahead)
  obtain ⟨days, long, most⟩ := Nominal.exists_daysFrom_forward turns he
  have fits : Amount.FitsPart n.isNegative days := by
    unfold Amount.FitsPart Amount.withSign
    unfold signedMin
    unfold signedMax at most ⊢
    split <;> omega
  have read := Amount.read?_nominal long fits
  refine ⟨_, rfl, rfl, Amount.parse_ofList read, ?_, ?_⟩
  · intro ⟨years, months⟩
    rw [Amount.read?_days years months turns.2.2.2, Option.some.injEq] at read
    rw [← read]
    exact leads
  · intro plain
    obtain ⟨kind, plain', -⟩ := days_of_plus? hz plain leads'
    have later := (days_of_plus? hz plain ahead).2.2
    rw [long, which] at later
    rw [plus_eq_ok_iff, plus?_ofDays_iff hz plain kind plain' fits]
    unfold Midway Amount.withSign
    cases negative : n.isNegative with
    | true =>
      rw [negative, if_pos rfl] at later
      simp only [if_true, Bool.true_eq_false, false_or]
      omega
    | false =>
      rw [negative, if_neg Bool.false_ne_true] at later
      simp only [Bool.false_eq_true, if_false, true_or, iff_true]
      exact later

/-- From the last of July a month back, to the last of June, is as long as a month forth, to the last of
    August; so the 31 days that are written lead back there. A week back leads where it says from a leap
    second, too. -/
theorem monthBack_from_july :
    let july31 : Temporal := .date ⟨739463, by decide, by decide⟩
    let june30 : Temporal := .date ⟨739432, by decide, by decide⟩
    let august31 : Temporal := .date ⟨739494, by decide, by decide⟩
    let leapSecond : Temporal := .utc ⟨63650447999, true, by decide, by decide⟩
    let weekBefore : Temporal := .utc ⟨63649843200, false, by decide, by decide⟩
    let weekAfter : Temporal := .utc ⟨63651052799, false, by decide, by decide⟩
    (july31.plus (.nominal ⟨0, -1, 0⟩) = .ok june30 ∧
      july31.plus (.nominal ⟨0, 1, 0⟩) = .ok august31 ∧
      ∃ m : Nominal, Amount.parse ((Amount.nominal ⟨0, -1, 0⟩).textFrom july31) = .ok (.nominal m) ∧
        july31.plus (.nominal m) = .ok june30) ∧
    leapSecond.plus (.nominal ⟨0, 0, -7⟩) = .ok weekBefore ∧
      leapSecond.plus (.nominal ⟨0, 0, 7⟩) = .ok weekAfter ∧
      ∃ m : Nominal, Amount.parse ((Amount.nominal ⟨0, 0, -7⟩).textFrom leapSecond) = .ok (.nominal m) ∧
        leapSecond.plus (.nominal m) = .ok weekBefore := by
  intro july31 june30 august31 leapSecond weekBefore weekAfter
  have back : july31.plus (.nominal ⟨0, -1, 0⟩) = .ok june30 :=
    plus_eq_ok_iff.mpr (by decide)
  have forth : july31.plus (.nominal ⟨0, 1, 0⟩) = .ok august31 :=
    plus_eq_ok_iff.mpr (by decide)
  have back' : leapSecond.plus (.nominal ⟨0, 0, -7⟩) = .ok weekBefore :=
    plus_eq_ok_iff.mpr (by decide)
  have forth' : leapSecond.plus (.nominal ⟨0, 0, 7⟩) = .ok weekAfter :=
    plus_eq_ok_iff.mpr (by decide)
  obtain ⟨m, -, -, read, -, keeps⟩ := text_keeps_displacement (by decide) rfl back forth
  obtain ⟨m', -, -, read', keeps', -⟩ := text_keeps_displacement (by decide) rfl back' forth'
  exact ⟨⟨back, forth, m, read, (keeps rfl).mpr (.inr (by decide))⟩, back', forth', m', read',
    keeps' ⟨rfl, rfl⟩⟩

/-- **A month back may be written too short.** From 31 March 2024 it is 31 days long, to 29 February, but
    it is written with the 30 days of a month forth, to 30 April. These lead to 1 March. -/
theorem monthBack_written_too_short :
    let march31 : Temporal := .date ⟨739341, by decide, by decide⟩
    let february29 : Temporal := .date ⟨739310, by decide, by decide⟩
    let march1 : Temporal := .date ⟨739311, by decide, by decide⟩
    let april30 : Temporal := .date ⟨739371, by decide, by decide⟩
    let monthBack : Nominal := ⟨0, -1, 0⟩
    let thirtyDaysBack : Nominal := ⟨0, 0, -30⟩
    monthBack.Turns ∧ march31.plus (.nominal monthBack) = .ok february29 ∧
      march31.plus (.nominal monthBack.negated) = .ok april30 ∧
      Amount.parse ((Amount.nominal monthBack).textFrom march31) = .ok (.nominal thirtyDaysBack) ∧
      march31.plus (.nominal thirtyDaysBack) = .ok march1 ∧ march1 ≠ february29 := by
  intro march31 february29 march1 april30 monthBack thirtyDaysBack
  have long : monthBack.forward.daysFrom march31.localTime = (30 : Nat) := by decide
  have read := Amount.read?_nominal long ⟨by decide, by decide⟩
  exact ⟨by decide, plus_eq_ok_iff.mpr (by decide), plus_eq_ok_iff.mpr (by decide),
    Amount.parse_ofList read, plus_eq_ok_iff.mpr (by decide), by decide⟩

/-- A step of months stays in a leap second and a step of days leaves it, so months that are written as
    days lead elsewhere from there. -/
example :
    let leapSecond : Temporal := .utc ⟨63650447999, true, by decide, by decide⟩
    leapSecond.plus? (.nominal ⟨0, 1, 0⟩) = some (.utc ⟨63653126399, true, by decide, by decide⟩) ∧
      (⟨0, 1, 0⟩ : Nominal).daysFrom leapSecond.localTime = 31 ∧
      leapSecond.plus? (.nominal ⟨0, 0, 31⟩) = some (.utc ⟨63653126399, false, by decide, by decide⟩) := by
  decide

end Temporal

end Almanac
