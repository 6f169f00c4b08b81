import Almanac.Proofs.Series.Course
import Almanac.Proofs.Series.Unzoned

/-!
# What a window holds

On a seed without a zone, and without a number of occurrences, a window shows what a search through
all increments would show: the candidates from the seed on, inside the window, that are not beyond
the last value (`Rule.dates_sound_and_complete`). This file fixes the three steps to it.

* **A walk without a guard leaves no increment out** (`Series.mem_ahead_iff`), nor does a guarded one
  that meets no empty increment (`Series.mem_ahead_iff_of_unbroken`). What a walk meets never falls
  (`Series.pairwise_ahead`), so no value is lost when only those that rise are kept.
* **Ending at the first value beyond the last one is as good as leaving out all that are beyond it**
  (`Series.mem_toList_iff`), for the values ascend.
* **The increments skipped on setting out have nothing inside the window**
  (`Series.mem_ahead_setOut_iff`).
-/

namespace Almanac

/-- No guard ends a walk that has met no empty increment. -/
theorem Settings.guard?_zero (settings : Settings) :
    settings.guard?.any (fun limit => limit ≤ 0) = false := by
  unfold guard?
  split
  · rename_i positive
    exact decide_eq_false (by omega)
  · rfl

namespace Series

variable {s : Series}

/-! ## 1. All increments ahead -/

/-- **Without a guard, the candidates of all increments lie ahead.** -/
theorem mem_ahead_iff (hguard : s.rule.settings.guard? = none) {k empties : Nat} {x : Temporal} :
    x ∈ s.ahead k empties ↔ ∃ j c, k ≤ j ∧ s.rule.incrementStart? s.origin j = some c ∧
      x ∈ s.candidates c := by
  refine ⟨exists_of_mem_ahead, ?_⟩
  rintro ⟨j, c, le, hc, hx⟩
  fun_induction s.ahead k empties with
  | case1 k empties full =>
    rw [hguard] at full
    cases full
  | case2 k empties _ none =>
    cases (Rule.incrementStart?_eq_none_of_le le none).symm.trans hc
  | case3 k empties _ period hp ih =>
    rcases Nat.lt_or_eq_of_le le with lt | rfl
    · exact List.mem_append_right _ (ih lt)
    · rw [hp] at hc
      cases hc
      exact List.mem_append_left _ hx

/-- **Nor is one left out under a guard, if every increment that another one follows has candidates.** -/
theorem mem_ahead_iff_of_unbroken {k empties : Nat} {x : Temporal}
    (go : s.rule.settings.guard?.any (fun limit => limit ≤ empties) = false)
    (unbroken : ∀ j c d, k ≤ j → s.rule.incrementStart? s.origin j = some c →
      s.rule.incrementStart? s.origin (j + 1) = some d → s.candidates c ≠ []) :
    x ∈ s.ahead k empties ↔ ∃ j c, k ≤ j ∧ s.rule.incrementStart? s.origin j = some c ∧
      x ∈ s.candidates c := by
  refine ⟨exists_of_mem_ahead, ?_⟩
  rintro ⟨j, c, le, hc, hx⟩
  fun_induction s.ahead k empties with
  | case1 k empties full => exact absurd full (ne_true_of_eq_false go)
  | case2 k empties _ none =>
    cases (Rule.incrementStart?_eq_none_of_le le none).symm.trans hc
  | case3 k empties _ period hp ih =>
    rcases Nat.lt_or_eq_of_le le with lt | rfl
    · obtain ⟨d, hd⟩ := Option.isSome_iff_exists.mp
        (Rule.incrementStart?_isSome_of_le lt hc)
      have some' := unbroken k period d (Nat.le_refl k) hp hd
      refine List.mem_append_right _ (ih ?_ (fun j c d le => unbroken j c d (Nat.le_of_succ_le le)) lt)
      unfold emptiesAfter
      cases hcs : s.candidates period with
      | nil => exact absurd hcs some'
      | cons _ _ => exact s.rule.settings.guard?_zero
    · rw [hp] at hc
      cases hc
      exact List.mem_append_left _ hx

/-- **What lies ahead never falls.** -/
theorem pairwise_ahead (hs : s.seed.zone? = none) (hskip : s.rule.skip = .leaveOut)
    (k empties : Nat) :
    (s.ahead k empties).Pairwise fun a b => s.key a < s.key b ∨ a = b := by
  fun_induction s.ahead k empties with
  | case1 => exact List.Pairwise.nil
  | case2 => exact List.Pairwise.nil
  | case3 k empties _ period hp ih =>
    refine List.pairwise_append.mpr ⟨(s.pairwise_candidates period).imp .inl, ih, ?_⟩
    intro a ha b hb
    obtain ⟨j, c, le, hc, hb⟩ := exists_of_mem_ahead hb
    exact rises_of_lt hs hskip le hp hc ha hb

/-- The course has all candidates from the seed on. -/
theorem mem_course_iff (hs : s.seed.zone? = none) (hskip : s.rule.skip = .leaveOut) {k : Nat}
    {x : Temporal} :
    x ∈ s.course k ↔ x ∈ s.ahead k 0 ∧ s.comparator.before x s.seed = false := by
  unfold course
  rw [mem_climb_iff (pairwise_ahead hs hskip k 0), Comparator.before_eq_false_iff]
  unfold key
  constructor
  · rintro ⟨mem, above⟩
    exact ⟨mem, by omega⟩
  · rintro ⟨mem, above⟩
    exact ⟨mem, by omega⟩

/-! ## 2. What is listed -/

/-- **The end of the rule can be told value by value**: the list has what the course has inside the
    window and not beyond the last value. -/
theorem mem_toList_iff (hl : s.LastKept) (hcount : s.rule.parts.count? = none) {x : Temporal} :
    x ∈ s.toList ↔
      x ∈ s.course s.setOut.increment ∧ s.exceedsLast x = false ∧ s.inside x = true := by
  have ascends := pairwise_climb s.key (s.key s.seed - 1) (s.ahead s.setOut.increment 0)
  have stays : (s.course s.setOut.increment).Pairwise fun a b =>
      (!s.exceedsLast b) = true → (!s.exceedsLast a) = true := by
    refine ascends.imp_of_mem fun {a b} ha hb lt notBeyond => ?_
    rw [Bool.not_eq_true'] at notBeyond ⊢
    refine eq_false_of_ne_true fun past => ?_
    have := hl a b (sameKind_of_mem_ahead (mem_of_mem_climb ha).1)
      (sameKind_of_mem_ahead (mem_of_mem_climb hb).1) (Int.le_of_lt lt) past
    rw [notBeyond] at this
    cases this
  rw [toList_eq hl, harvest_eq, hcount]
  simp only
  rw [takeWhile_eq_filter stays, List.mem_filter, List.mem_filter, Bool.not_eq_true', and_assoc]

/-- What is listed ascends strictly. -/
theorem pairwise_toList (hl : s.LastKept) (hcount : s.rule.parts.count? = none) :
    s.toList.Pairwise fun a b => s.key a < s.key b := by
  rw [toList_eq hl, harvest_eq, hcount]
  have ascends := pairwise_climb s.key (s.key s.seed - 1) (s.ahead s.setOut.increment 0)
  exact (ascends.sublist (List.takeWhile_sublist _)).sublist List.filter_sublist

/-- **Nothing inside the window is skipped on setting out.** -/
theorem mem_ahead_setOut_iff (hs : s.seed.zone? = none) (hskip : s.rule.skip = .leaveOut)
    (hguard : s.rule.settings.guard? = none) (hcount : s.rule.parts.count? = none)
    (hstart : ∀ start ∈ s.start, start.zone? = none) {x : Temporal} (inside : s.inside x = true) :
    x ∈ s.ahead s.setOut.increment 0 ↔
      ∃ k c, s.rule.incrementStart? s.origin k = some c ∧ x ∈ s.candidates c := by
  rw [mem_ahead_iff hguard]
  constructor
  · rintro ⟨k, c, -, hc, hx⟩
    exact ⟨k, c, hc, hx⟩
  · rintro ⟨k, c, hc, hx⟩
    refine ⟨k, c, Nat.le_of_not_lt fun passed => ?_, hc, hx⟩
    cases start : s.start with
    | none =>
      rw [increment_setOut_of_open start] at passed
      cases passed
    | some value =>
      have before := key_lt_of_passed hs hskip hcount start (hstart value start) passed hc hx
      have from' := (inside_iff.mp inside).1 value start
      rw [Comparator.before_eq_false_iff] at from'
      exact absurd before (Int.not_lt.mpr from')

/-- **What is listed, told by the increments**: of the candidates of all increments those from the
    seed on, inside the window, that are not beyond the last value. -/
theorem mem_toList_iff_of_unzoned (hs : s.seed.zone? = none) (hskip : s.rule.skip = .leaveOut)
    (hguard : s.rule.settings.guard? = none) (hcount : s.rule.parts.count? = none)
    (hstart : ∀ start ∈ s.start, start.zone? = none) {x : Temporal} :
    x ∈ s.toList ↔
      (∃ k c, s.rule.incrementStart? s.origin k = some c ∧ x ∈ s.candidates c) ∧
        s.comparator.before x s.seed = false ∧ s.exceedsLast x = false ∧ s.inside x = true := by
  have kept : s.LastKept := s.lastKept_of fun _ _ => .inr hs
  rw [mem_toList_iff kept hcount, mem_course_iff hs hskip]
  constructor
  · rintro ⟨⟨mem, seed⟩, notBeyond, inside⟩
    have all := (mem_ahead_setOut_iff hs hskip hguard hcount hstart inside).mp mem
    exact ⟨all, seed, notBeyond, inside⟩
  · rintro ⟨all, seed, notBeyond, inside⟩
    have mem := (mem_ahead_setOut_iff hs hskip hguard hcount hstart inside).mpr all
    exact ⟨⟨mem, seed⟩, notBeyond, inside⟩

end Series

namespace Rule

/-- **A window is sound and complete.** On a seed without a zone, and from a start without a zone, a
    rule with neither a number of occurrences nor a skip policy nor a guard lists in ascending order
    exactly the candidates of its increments that are not before the seed, inside the window and not
    beyond its last value. -/
theorem dates_sound_and_complete (r : Rule) (hcount : r.parts.count? = none)
    (hskip : r.skip = .leaveOut) (hguard : r.settings.emptyLimit ≤ 0) {seed start : Temporal}
    (hseed : seed.zone? = none) (hstart : start.zone? = none) (stop : Temporal) :
    ((r.dates seed start stop none).Pairwise fun a b =>
        (Comparator.forSeed seed).before a b = true) ∧
      ∀ x, x ∈ r.dates seed start stop none ↔
        (∃ k p, r.increment? seed k = some p ∧ x ∈ r.candidates seed p) ∧
          (Comparator.forSeed seed).before x seed = false ∧
          (Comparator.forSeed seed).before x start = false ∧
          (Comparator.forSeed seed).after x stop = false ∧
          ∀ last ∈ r.parts.last?, (Comparator.forSeed seed).beyond last x = false := by
  have guard : r.settings.guard? = none := by
    unfold Settings.guard?
    rw [if_neg (Int.not_lt.mpr hguard)]
  have kept : (r.within seed start stop).LastKept := Series.lastKept_of _ fun _ _ => .inr hseed
  have open' : ∀ value ∈ (r.within seed start stop).start, value.zone? = none := fun value h => by
    cases h
    exact hstart
  refine ⟨(Series.pairwise_toList kept hcount).imp Comparator.before_iff.mpr, fun x => ?_⟩
  have window : (r.within seed start stop).inside x = true ↔
      (Comparator.forSeed seed).before x start = false ∧
        (Comparator.forSeed seed).after x stop = false := by
    rw [Series.inside_iff]
    simp [Rule.within, Series.comparator]
  show x ∈ (r.within seed start stop).toList ↔ _
  rw [Series.mem_toList_iff kept hcount, Series.mem_course_iff hseed hskip,
    Series.exceedsLast_eq_false_iff]
  constructor
  · rintro ⟨⟨mem, seed'⟩, notBeyond, inside⟩
    obtain ⟨from', to'⟩ := window.mp inside
    have all := (Series.mem_ahead_setOut_iff hseed hskip guard hcount open' inside).mp mem
    exact ⟨(Series.exists_increment_iff hseed).mpr all, seed', from', to', notBeyond⟩
  · rintro ⟨all, seed', from', to', notBeyond⟩
    have inside := window.mpr ⟨from', to'⟩
    have mem := (Series.mem_ahead_setOut_iff hseed hskip guard hcount open' inside).mpr
      ((Series.exists_increment_iff hseed).mp all)
    exact ⟨⟨mem, seed'⟩, notBeyond, inside⟩

/-- Each month's last day, until June 2024. -/
def lastDays : Rule where
  frequency := .monthly
  parts := { RuleParts.none with
    ending := some (.last (.date ⟨739432, by decide, by decide⟩)), monthDays := [-1] }
  settings := { Settings.standard with emptyLimit := 0 }
  valid := by decide

/-- At nine in the morning from 31 January 2024 on, seen from 1 March to noon of 31 December. -/
theorem dates_lastDays :
    let seed : Temporal := .floating ⟨63873910800, false, by decide, by decide⟩
    let start : Temporal := .date ⟨739311, by decide, by decide⟩
    let stop : Temporal := .utc ⟨63902865600, false, by decide, by decide⟩
    (lastDays.parts.count? = none ∧ lastDays.skip = .leaveOut ∧
        lastDays.settings.emptyLimit ≤ 0 ∧ seed.zone? = none ∧ start.zone? = none) ∧
      ((lastDays.dates seed start stop none).Pairwise fun a b =>
        (Comparator.forSeed seed).before a b = true) ∧
      ∀ x, x ∈ lastDays.dates seed start stop none ↔
        (∃ k p, lastDays.increment? seed k = some p ∧ x ∈ lastDays.candidates seed p) ∧
          (Comparator.forSeed seed).before x seed = false ∧
          (Comparator.forSeed seed).before x start = false ∧
          (Comparator.forSeed seed).after x stop = false ∧
          ∀ last ∈ lastDays.parts.last?, (Comparator.forSeed seed).beyond last x = false :=
  ⟨⟨rfl, rfl, Int.le_refl 0, rfl, rfl⟩,
    dates_sound_and_complete lastDays rfl rfl (Int.le_refl 0) rfl rfl _⟩

end Rule

end Almanac
