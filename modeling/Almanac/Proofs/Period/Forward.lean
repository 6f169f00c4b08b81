import Almanac.Period.Parser
import Almanac.Proofs.Period.RoundTrip
import Almanac.Proofs.Text.Results
import Almanac.Proofs.Zone.Settling

/-!
# Periods that do not end before they start

That the stop of a period does not come before its start (`Period.Forward`) is tested when the period
is built from two values. This file fixes how far it holds of periods that come about otherwise:

* no length that is not negative leads back, in a zone neither: a number of days or months is a day
  and more, and clocks never go back by as much (`Temporal.stamp_le_of_plus?_zoned`). Only the length
  of no days at all looks up the local time of the start again;
* binding to a zone comes after the test. It keeps the order of bounds that are both bound, but for
  a start in a gap (`Period.forward_bindTo`): **that may move past the stop**
  (`Period.start_bound_past_stop`);
* covers and pieces are periods again when the bounds mean the same to all comparators involved
  (`Period.forward_cover`, `Period.forward_of_mem_pieces`).
-/

namespace Almanac

namespace Temporal

variable {t u : Temporal} {d : Amount} {zone : Zone} {value : String}

/-! ## 1. Values -/

/-- What floats is a civil time to be read in the zone. -/
theorem instantIn_bindTo (h : t.isFloating = true) :
    (t.bindTo zone).instantIn zone = zone.settle t.localTime := by
  cases t with
  | date _ => rfl
  | floating _ => rfl
  | utc _ => cases h
  | zoned _ => cases h

theorem zone?_of_isFloating (h : t.isFloating = true) : t.zone? = none := by
  cases t with
  | date _ => rfl
  | floating _ => rfl
  | utc _ => cases h
  | zoned _ => cases h

/-- A value that is read stands in no zone, and at no leap second. -/
theorem plain_of_parse (h : parse value = .ok t) :
    t.zone? = none ∧ t.localTime.leap = false := by
  have legible := legible_of_parseWith h
  refine ⟨legible.zone, Bool.eq_false_iff.mpr fun leap => ?_⟩
  cases (legible.leap leap).1

/-- What does not float means the same to all comparators, and what floats to those of one zone. -/
theorem key_toTheSecond_congr {a b : Temporal}
    (h : t.isFloating = false ∨ a.zoneOrUtc = b.zoneOrUtc) :
    (Comparator.toTheSecond a).key t = (Comparator.toTheSecond b).key t := by
  rcases h with fixed | same
  · exact congrArg Civil.stamp (instantIn_eq_of_not_floating fixed _ _)
  · unfold Comparator.toTheSecond
    rw [same]

/-! ## 2. Steps forward -/

/-- Without a zone no amount that is not negative leads back. -/
theorem second_le_of_plus? (hz : t.zone? = none) (forward : d.isNegative = false)
    (h : t.plus? d = some u) : t.second ≤ u.second := by
  cases d with
  | exact e =>
    have fixed : (Amount.exact e).IsFixed := trivial
    have reach := t.reach_bounds forward
    have moved := (second_of_plus? hz fixed (.inr (Amount.fixedSeconds_nonneg forward)) h).2
    omega
  | nominal n =>
    obtain ⟨c, hc, hu⟩ := Option.bind_eq_some_iff.mp h
    have le := (stamp_le_of_addTo? forward hc).1
    rw [second_eq hz]
    cases t with
    | date day =>
      cases hu
      have midnight : (Civil.midnight day).stamp = day.day * 86400 := Int.add_zero _
      rw [second_date, Civil.day_date]
      change (Civil.midnight day).stamp ≤ c.stamp at le
      show (Civil.midnight day).stamp ≤ _
      omega
    | floating x =>
      cases hu
      rw [second_eq rfl]
      exact le
    | utc x =>
      cases hu
      exact le
    | zoned z => cases hz

/-- **In a zone no amount that is not negative leads back**, if the instant is the first one that shows
    its local time, or the amount is not one of no days at all. -/
theorem stamp_le_of_plus?_zoned {z : Zoned}
    (steady : ∀ n, d = .nominal n → z.zone.Regular ∧
      (n = .zero → z.zone.earliest? z.localTime = some z.instant))
    (forward : d.isNegative = false) (h : (zoned z).plus? d = some u) :
    ∃ i, u = zoned ⟨i, z.zone⟩ ∧ z.instant.stamp ≤ i.stamp := by
  cases d with
  | exact e =>
    have seconds : 0 ≤ e.seconds := Amount.fixedSeconds_nonneg forward
    obtain ⟨i, hi, rfl⟩ := Option.map_eq_some_iff.mp
      (show (z.instant.addSeconds? e.seconds).map (fun i => zoned ⟨i, z.zone⟩) = some u from h)
    have moved := Civil.stamp_of_addSeconds?_nonneg hi seconds
    exact ⟨i, rfl, by omega⟩
  | nominal n =>
    obtain ⟨c, hc, hu⟩ := Option.bind_eq_some_iff.mp
      (show (n.addTo? z.localTime).bind (fun c => some (zoned ⟨z.zone.settle c, z.zone⟩)) = some u
        from h)
    cases hu
    obtain ⟨regular, first⟩ := steady n rfl
    refine ⟨_, rfl, ?_⟩
    by_cases none : n = .zero
    · rw [none, Nominal.addTo?_of_isFixed ⟨rfl, rfl⟩] at hc
      cases (Civil.addSeconds?_zero _).symm.trans hc
      have settled : z.zone.settle z.localTime = z.instant := by
        unfold Zone.settle
        rw [first none, Option.getD_some]
      exact Int.le_of_eq (congrArg Civil.stamp settled.symm)
    · exact regular.le_settle_of_day ((stamp_le_of_addTo? forward hc).2 none)

/-- Without a zone no step leads to a leap second from elsewhere. -/
theorem plain_of_plus? (hz : t.zone? = none) (plain : t.localTime.leap = false)
    (h : t.plus? d = some u) : u.localTime.leap = false := by
  cases d with
  | nominal n => exact (days_of_plus? hz plain h).2.1
  | exact e =>
    cases t with
    | zoned z => cases hz
    | date day =>
      obtain ⟨day', -, rfl⟩ := Option.map_eq_some_iff.mp
        (show (day.addDays? e.wholeDays).map date = some u from h)
      rfl
    | floating c =>
      obtain ⟨c', hc, rfl⟩ := Option.map_eq_some_iff.mp
        (show (c.addSeconds? e.seconds).map floating = some u from h)
      exact ((Civil.addSeconds?_eq_some_iff_of_plain plain).mp hc).2
    | utc i =>
      obtain ⟨i', hi, rfl⟩ := Option.map_eq_some_iff.mp
        (show (i.addSeconds? e.seconds).map utc = some u from h)
      exact ((Civil.addSeconds?_eq_some_iff_of_plain plain).mp hi).2

end Temporal

namespace Period

variable {p q r : Period} {start stop : Temporal} {length : Amount} {zone : Zone} {value : String}

/-! ## 3. Building and reading -/

/-- The stop of a period does not come before its start, by the period's own comparator. -/
def Forward (p : Period) : Prop := p.comparator.before p.stop p.start = false

instance (p : Period) : Decidable p.Forward := inferInstanceAs (Decidable (_ = _))

theorem forward_iff : p.Forward ↔ p.comparator.key p.start ≤ p.comparator.key p.stop :=
  decide_eq_false_iff_not.trans Int.not_lt

theorem forward_of_between (h : between start stop = .ok p) : p.Forward := by
  obtain ⟨order, rfl⟩ := between_eq_ok_iff.mp h
  exact order

theorem forward_of_lasting (h : lasting start length = .ok p)
    (hz : ∀ z n, start = .zoned z → length = .nominal n → z.zone.Regular ∧
      (n = .zero → z.zone.earliest? z.localTime = some z.instant)) : p.Forward := by
  obtain ⟨forward, stop, sum, rfl⟩ := lasting_eq_ok_iff.mp h
  have sum := Temporal.plus_eq_ok_iff.mp sum
  rw [forward_iff]
  show (Comparator.toTheSecond start).key start ≤ (Comparator.toTheSecond start).key stop
  cases zone : start.zone? with
  | none =>
    rw [Temporal.key_toTheSecond_of_unzoned zone, Temporal.key_toTheSecond_of_unzoned zone]
    exact Temporal.second_le_of_plus? zone forward sum
  | some _ =>
    cases start with
    | date _ => cases zone
    | floating _ => cases zone
    | utc _ => cases zone
    | zoned z =>
      obtain ⟨i, rfl, le⟩ := Temporal.stamp_le_of_plus?_zoned (fun n => hz z n rfl) forward sum
      exact le

/-- A period that is read is built from a start in no zone and at no leap second, and from such a stop
    or a length. -/
theorem built_of_parse (h : parse value = .ok p) :
    ∃ start, (start.zone? = none ∧ start.localTime.leap = false) ∧
      ((∃ stop, stop.localTime.leap = false ∧ between start stop = .ok p) ∨
        ∃ length, lasting start length = .ok p) := by
  unfold parse at h
  split at h
  · cases h
  · obtain ⟨start, read, h⟩ := Results.bind_eq_ok h
    refine ⟨start, Temporal.plain_of_parse read, ?_⟩
    split at h
    · obtain ⟨length, -, h⟩ := Results.bind_eq_ok h
      exact .inr ⟨length, h⟩
    · obtain ⟨stop, read', h⟩ := Results.bind_eq_ok h
      exact .inl ⟨stop, (Temporal.plain_of_parse read').2, h⟩

theorem forward_of_parse (h : parse value = .ok p) : p.Forward := by
  obtain ⟨start, ⟨unzoned, -⟩, built⟩ := built_of_parse h
  rcases built with ⟨stop, -, h⟩ | ⟨length, h⟩
  · exact forward_of_between h
  · refine forward_of_lasting h fun z _ same => ?_
    rw [same] at unzoned
    cases unzoned

/-- No period that is read has a bound at a leap second. -/
theorem plain_bounds_of_parse (h : parse value = .ok p) :
    p.start.localTime.leap = false ∧ p.stop.localTime.leap = false := by
  obtain ⟨start, ⟨unzoned, plain⟩, built⟩ := built_of_parse h
  rcases built with ⟨stop, plain', h⟩ | ⟨length, h⟩
  · obtain ⟨-, rfl⟩ := between_eq_ok_iff.mp h
    exact ⟨plain, plain'⟩
  · obtain ⟨-, stop, sum, rfl⟩ := lasting_eq_ok_iff.mp h
    exact ⟨plain, Temporal.plain_of_plus? unzoned plain (Temporal.plus_eq_ok_iff.mp sum)⟩

/-! ## 4. Binding -/

/-- Binding to a zone keeps the bounds of a period together: it concerns neither of them, or it
    concerns both, and not so that the start lies in a gap and clocks show the stop before what they
    show where the start is bound. A date counts with what floats: it is read in the zone of the
    start. -/
def BoundTogether (zone : Zone) (p : Period) : Prop :=
  p.bindTo zone = p ∨
    p.stop.isFloating = true ∧ ∃ c, p.start = .floating c ∧
      (zone.readings c ≠ [] ∨ zone.readings p.stop.localTime = [] ∨
        zone.wall (zone.settle c).stamp ≤ p.stop.localTime.stamp)

/-- **Bounds that are bound together keep their order.** -/
theorem forward_bindTo (regular : zone.Regular) (h : p.Forward)
    (plain : p.start.localTime.leap = false ∧ p.stop.localTime.leap = false)
    (together : p.BoundTogether zone) : (p.bindTo zone).Forward := by
  rcases together with same | ⟨floats, c, start, kept⟩
  · rwa [same]
  · have order : c.stamp ≤ p.stop.localTime.stamp := by
      have unzoned : p.start.zone? = none := by
        rw [start]
        rfl
      have key := forward_iff.mp h
      unfold comparator at key
      rw [Temporal.key_toTheSecond_of_unzoned unzoned, Temporal.key_toTheSecond_of_unzoned unzoned,
        Temporal.second_eq unzoned, Temporal.second_eq (Temporal.zone?_of_isFloating floats),
        start] at key
      exact key
    rw [forward_iff]
    show ((Comparator.toTheSecond (p.start.bindTo zone)).key (p.start.bindTo zone)) ≤
      ((Comparator.toTheSecond (p.start.bindTo zone)).key (p.stop.bindTo zone))
    rw [start]
    show (zone.settle c).stamp ≤ ((p.stop.bindTo zone).instantIn zone).stamp
    rw [Temporal.instantIn_bindTo floats]
    have plain' : c.leap = false := by
      have plain := plain.1
      rwa [start] at plain
    exact regular.settle_le_settle plain' plain.2 order kept

/-! ## 5. Covers and pieces -/

/-- Two values in their order make a period, if its comparator sees them as the one that found the
    order does. -/
theorem forward_span {base a b : Temporal}
    (alike : (a.isFloating = false ∧ b.isFloating = false) ∨ base.zoneOrUtc = a.zoneOrUtc)
    (le : (Comparator.toTheSecond base).key a ≤ (Comparator.toTheSecond base).key b) :
    (span a b).Forward := by
  have start : (Comparator.toTheSecond base).key a = (Comparator.toTheSecond a).key a :=
    Temporal.key_toTheSecond_congr (alike.imp_left And.left)
  have stop : (Comparator.toTheSecond base).key b = (Comparator.toTheSecond a).key b :=
    Temporal.key_toTheSecond_congr (alike.imp_left And.right)
  rw [start, stop] at le
  exact forward_iff.mpr le

/-- No bound of two periods floats. -/
def NoneFloats (p q : Period) : Prop :=
  ∀ t ∈ [p.start, p.stop, q.start, q.stop], t.isFloating = false

instance (p q : Period) : Decidable (p.NoneFloats q) := inferInstanceAs (Decidable (∀ t ∈ _, _))

/-- **The cover of two periods is a period.** -/
theorem forward_cover (h : p.Forward)
    (alike : p.NoneFloats q ∨ p.start.zoneOrUtc = q.start.zoneOrUtc) : (p.cover q).Forward := by
  have order := forward_iff.mp h
  unfold comparator at order
  unfold cover comparator Comparator.earlier Comparator.later Comparator.after Comparator.before
  simp only [decide_eq_true_eq]
  split
  · -- the start is that of `q`, and so is the comparator
    have seen : ∀ t ∈ [p.start, p.stop, q.start, q.stop],
        p.comparator.key q.start ≤ p.comparator.key t → (span q.start t).Forward := fun t ht =>
      forward_span (alike.imp_left fun none => ⟨none _ (by simp), none t ht⟩)
    split
    · exact seen q.stop (by simp) (by unfold comparator; omega)
    · exact seen p.stop (by simp) (by unfold comparator; omega)
  · split
    · exact forward_span (.inr rfl) (by omega)
    · exact forward_span (.inr rfl) (by omega)

/-- **What one period leaves of another is periods.** -/
theorem forward_of_mem_pieces (h : p.Forward) (hr : r ∈ p.pieces q)
    (alike : p.isDateTime = true → p.NoneFloats q ∨
      p.start.zoneOrUtc = q.start.zoneOrUtc ∧ p.start.zoneOrUtc = q.stop.zoneOrUtc) :
    r.Forward := by
  unfold pieces at hr
  by_cases whole : (!p.isDateTime || !p.intersects q) = true
  · rw [if_pos whole] at hr
    cases List.mem_singleton.mp hr
    exact h
  · rw [if_neg whole] at hr
    have time : p.isDateTime = true := by
      cases time : p.isDateTime with
      | true => rfl
      | false =>
        rw [time] at whole
        exact absurd rfl whole
    have alike := alike time
    -- whether `q` contains `p` is told by the comparator of `q`
    have seen : ∀ t ∈ [p.start, p.stop, q.start, q.stop],
        q.comparator.key t = p.comparator.key t := fun t ht =>
      Temporal.key_toTheSecond_congr (alike.imp (fun none => none t ht) fun same => same.1.symm)
    have ending : p.comparator.key q.stop ≤ p.comparator.key p.stop → (span q.stop p.stop).Forward :=
      forward_span (alike.imp (fun none => ⟨none _ (by simp), none _ (by simp)⟩) And.right)
    have beginning : p.comparator.key p.start ≤ p.comparator.key q.start →
        (span p.start q.start).Forward := forward_span (.inr rfl)
    unfold contains Comparator.after Comparator.before at hr
    simp only [seen p.start (by simp), seen p.stop (by simp), seen q.start (by simp),
      seen q.stop (by simp), Bool.and_eq_true, Bool.not_eq_true', decide_eq_false_iff_not] at hr
    split at hr
    · cases hr
    · split at hr
      · cases List.mem_singleton.mp hr
        exact ending (by omega)
      · split at hr
        · cases List.mem_singleton.mp hr
          exact beginning (by omega)
        · rcases List.mem_cons.mp hr with rfl | hr
          · exact beginning (by omega)
          · cases List.mem_singleton.mp hr
            exact ending (by omega)

/-! ## 6. Every way to make a period -/

/-- **A period does not end before it starts**, whichever way it comes about.

    * Built from two values, or read: always.
    * Built from a length: always, unless the start is the second instant that shows its local time and
      the length is one of no days at all.
    * Read and bound to a zone: when neither or both bounds are bound, and not so that the start lies in
      a gap and clocks show the stop before what they show where the start is bound.
    * The cover of two periods and what one leaves of another: when their bounds mean the same to all
      comparators involved. -/
theorem forward_of_made (start stop : Temporal) (length : Amount) (zone : Zone) (value : String)
    (p q r : Period) :
    (between start stop = .ok r → r.Forward) ∧
    (lasting start length = .ok r →
      (∀ z n, start = .zoned z → length = .nominal n → z.zone.Regular ∧
        (n = .zero → z.zone.earliest? z.localTime = some z.instant)) → r.Forward) ∧
    (parse value = .ok r → r.Forward) ∧
    (zone.Regular → parseIn zone value = .ok r →
      (∀ s, parse value = .ok s → s.BoundTogether zone) → r.Forward) ∧
    (p.Forward → (p.NoneFloats q ∨ p.start.zoneOrUtc = q.start.zoneOrUtc) →
      (p.cover q).Forward) ∧
    (p.Forward → (p.isDateTime = true → p.NoneFloats q ∨
        p.start.zoneOrUtc = q.start.zoneOrUtc ∧ p.start.zoneOrUtc = q.stop.zoneOrUtc) →
      r ∈ p.pieces q → r.Forward) := by
  refine ⟨forward_of_between, forward_of_lasting, forward_of_parse, fun regular h together => ?_,
    forward_cover, fun h alike hr => forward_of_mem_pieces h hr alike⟩
  obtain ⟨s, read, rfl⟩ := Results.map_eq_ok h
  exact forward_bindTo regular (forward_of_parse read) (plain_bounds_of_parse read)
    (together s read)

/-- An instant in New York. -/
def inNewYork (stamp : Int) (low : firstStamp ≤ stamp) (high : stamp ≤ lastStamp) : Temporal :=
  .zoned ⟨⟨stamp, false, low, high⟩, ZoneTable.newYork⟩

/-- From half past one to half past two, an hour that clocks in New York jump over on 8 March 2026. -/
def springNight : Period :=
  span (inNewYork 63940170600 (by decide) (by decide)) (inNewYork 63940174200 (by decide) (by decide))

/-- From half past one for an hour, in no zone. -/
def floatingHour : Period :=
  ⟨.floating ⟨63940152600, false, by decide, by decide⟩,
    .floating ⟨63940156200, false, by decide, by decide⟩, some (.exact .hour)⟩

/-- That hour in New York. -/
def springHour : Period := { springNight with length := floatingHour.length }

/-- Two hours in universal time, from the jump on. -/
def morningAfter : Period :=
  span (.utc ⟨63940172400, false, by decide, by decide⟩)
    (.utc ⟨63940179600, false, by decide, by decide⟩)

/-- No days at all, when clocks in New York show half past one for the first time on 1 November 2026. -/
def autumnNight : Period :=
  ⟨inNewYork 63960730200 (by decide) (by decide), inNewYork 63960730200 (by decide) (by decide),
    some (.nominal .zero)⟩

/-- What is left of the spring night before that morning. -/
def beforeMorning : Period := span springNight.start morningAfter.start

theorem forward_around_changes :
    (between springNight.start springNight.stop = .ok springNight ∧ springNight.Forward) ∧
    (lasting autumnNight.start (.nominal .zero) = .ok autumnNight ∧ autumnNight.Forward) ∧
    (parse "20260308T013000/PT1H" = .ok floatingHour ∧ floatingHour.Forward) ∧
    (parseIn ZoneTable.newYork "20260308T013000/PT1H" = .ok springHour ∧ springHour.Forward) ∧
    (springNight.cover morningAfter).Forward ∧
    (beforeMorning ∈ springNight.pieces morningAfter ∧ beforeMorning.Forward) := by
  have made := forward_of_made springNight.start springNight.stop (.nominal .zero) ZoneTable.newYork
    "20260308T013000/PT1H" springNight morningAfter
  have regular : ZoneTable.newYork.Regular := Zone.regular_of_named?
    (show Zone.named? "America/New_York" = some ZoneTable.newYork by decide +kernel)
  have build : between springNight.start springNight.stop = .ok springNight :=
    Results.eq_ok_of_toOption (by decide +kernel)
  have read : parse "20260308T013000/PT1H" = .ok floatingHour :=
    Results.eq_ok_of_toOption (by decide +kernel)
  have bind : parseIn ZoneTable.newYork "20260308T013000/PT1H" = .ok springHour :=
    Results.eq_ok_of_toOption (by decide +kernel)
  have lengthen : lasting autumnNight.start (.nominal .zero) = .ok autumnNight :=
    Results.eq_ok_of_toOption (by decide +kernel)
  have cut : beforeMorning ∈ springNight.pieces morningAfter := by decide +kernel
  have forward := (made springNight).1 build
  refine ⟨⟨build, forward⟩, ⟨lengthen, ?_⟩, ⟨read, (made floatingHour).2.2.1 read⟩, ⟨bind, ?_⟩,
    (made springNight).2.2.2.2.1 forward (.inl (by decide)),
    cut, (made beforeMorning).2.2.2.2.2 forward (fun _ => .inl (by decide)) cut⟩
  · refine (forward_of_made autumnNight.start autumnNight.stop (.nominal .zero) ZoneTable.newYork
      "" springNight morningAfter autumnNight).2.1 lengthen ?_
    intro z n same _
    cases same
    exact ⟨regular, fun _ => by decide +kernel⟩
  · refine (made springHour).2.2.2.1 regular bind ?_
    intro s hs
    cases read.symm.trans hs
    exact .inr ⟨rfl, _, rfl, .inl (by decide +kernel)⟩

/-- The same night from half past three, when clocks have jumped, back to three. -/
def backwards : Period :=
  span (inNewYork 63940174200 (by decide) (by decide)) (inNewYork 63940172400 (by decide) (by decide))

/-- **A start in a gap is bound past the stop.** Half past two lies in the gap and is bound as half
    past three; the stop at three stays. -/
theorem start_bound_past_stop :
    parseIn ZoneTable.newYork "20260308T023000/20260308T030000" = .ok backwards ∧
      ¬ backwards.Forward :=
  ⟨Results.eq_ok_of_toOption (by decide +kernel), by decide +kernel⟩

end Period

end Almanac
