import Almanac.Proofs.Series.Unzoned
import Almanac.Proofs.Series.Visits
import Almanac.Proofs.Zone.Once

/-!
# Series on a seed in a zone

A rule of days or longer steps through civil time, on a seed in a zone as well as on a floating one;
what it finds is then bound to the zone. This file reads a walk on a floating seed as one on the
seed in the zone with the same civil time:

* **civil times that clocks show once are in the order of their instants**
  (`WallClock.key_bindTo_le_iff`), so nothing that a walk compares comes out differently;
* hence an increment has the same candidates, bound to the zone (`WallClock.candidates_eq`), a
  candidate is sifted alike (`WallClock.sift_eq`), and **each step of the one walk is one of the
  other** (`WallClock.step_eq`), with its tally bound to the zone (`Walk.bindTo`);
* so **the first values in a zone are the first floating values, bound to the zone at the same wall
  clock time** (`Rule.zoned_take_eq_floating_take`), if clocks show all civil times of the
  increments visited for them once.
-/

namespace Almanac

/-! ## 1. Binding a walk to a zone -/

/-- The tally with its values bound to a zone. -/
def Tally.bindTo (zone : Zone) (t : Tally) : Tally :=
  ⟨t.counted, t.lastCounted.map (·.bindTo zone), t.lastSeen.map (·.bindTo zone)⟩

/-- The walk with its tally bound to a zone. -/
def Walk.bindTo (zone : Zone) (w : Walk) : Walk :=
  ⟨w.increment, w.empties, w.tally.bindTo zone⟩

/-- A floating value whose civil time clocks of the zone show once. -/
def Temporal.OnceIn (zone : Zone) (t : Temporal) : Prop := ∃ c, t = .floating c ∧ zone.Once c

/-- The last occurrence counted is floating, and clocks of the zone show it once. -/
def Tally.OnceIn (zone : Zone) (t : Tally) : Prop := ∀ last ∈ t.lastCounted, last.OnceIn zone

/-- What has been sifted so far: the last occurrence and all that is listed are shown once. -/
def StateOnceIn (zone : Zone) (state : Tally × List Temporal) : Prop :=
  state.1.OnceIn zone ∧ ∀ x ∈ state.2, x.OnceIn zone

/-! ## 2. Series without bounds -/

namespace Series

variable {s : Series}

/-- A series without an end, in no window. -/
structure Boundless (s : Series) : Prop where
  start : s.start = none
  stop : s.stop = none
  ending : s.rule.parts.ending = none

namespace Boundless

theorem exceedsLast_eq (h : s.Boundless) (t : Temporal) : s.exceedsLast t = false := by
  rw [Series.exceedsLast_eq, RuleParts.last?, h.ending]
  rfl

theorem pastStop_eq (h : s.Boundless) (t : Temporal) : s.pastStop t = false := by
  unfold pastStop
  rw [h.stop]
  rfl

theorem countReached_eq (h : s.Boundless) (t : Tally) : s.countReached t = false := by
  unfold countReached
  rw [RuleParts.count?, h.ending]
  rfl

/-- Without bounds, only the guard ends a walk. -/
theorem finished_eq (h : s.Boundless) (w : Walk) :
    s.finished w = s.rule.settings.guard?.any fun limit => limit ≤ w.empties := by
  unfold finished
  simp only [h.exceedsLast_eq, h.pastStop_eq, h.countReached_eq]
  cases w.tally.lastSeen <;> simp

/-- Without bounds, a candidate that is not passed over is counted and listed. -/
theorem sift_eq (h : s.Boundless) (t : Tally) (found : List Temporal) (c : Temporal) :
    s.sift (t, found) c =
      if s.comparator.before c s.seed ||
          t.lastCounted.any (fun last => !s.comparator.after c last)
      then ({ t with lastSeen := some c }, found)
      else (({ t with lastSeen := some c } : Tally).count c, c :: found) := by
  have within : (s.beforeStart c || s.pastStop c) = false := by
    rw [h.pastStop_eq, beforeStart, h.start]
    rfl
  unfold sift
  simp only [within, h.countReached_eq, h.exceedsLast_eq]
  rfl

end Boundless

end Series

/-! ## 3. One walk read as the other -/

/-- A rule on a seed in a zone. -/
abbrev Rule.inZone (r : Rule) (z : Zoned) : Series := r.occurrences (.zoned z)

/-- The rule on the floating seed with the same civil time. -/
abbrev Rule.onWall (r : Rule) (z : Zoned) : Series := r.occurrences (.floating z.localTime)

/-- A rule of days or longer without an end, and a seed in a zone whose changes are more than two
    days apart and shift clocks by a day at most. The calendar has the civil time of the seed, and
    clocks show it once. -/
structure WallClock (r : Rule) (z : Zoned) : Prop where
  coarse : Frequency.daily.rank ≤ r.frequency.rank
  unending : r.parts.ending = none
  spaced : z.zone.Spaced
  shown : z.zone.shown? z.instant = some z.localTime
  once : z.zone.Once z.localTime

namespace WallClock

variable {r : Rule} {z : Zoned} {a b c : Temporal} {t : Tally} {w : Walk} {period : Civil}

theorem boundless (h : WallClock r z) (seed : Temporal) : (r.occurrences seed).Boundless :=
  ⟨rfl, rfl, h.unending⟩

/-- Clocks show the civil time of the seed at the seed. -/
theorem readings_seed (h : WallClock r z) : z.zone.readings z.localTime = [z.instant] := by
  obtain ⟨i, hi⟩ := h.once.exists_readings
  have mem := (h.spaced.exact.mem_readings_iff z.localTime z.instant).mpr h.shown
  rw [hi] at mem ⊢
  rw [List.mem_singleton.mp mem]

/-- The seed in the zone is the floating seed, bound to the zone. -/
theorem bindTo_seed (h : WallClock r z) :
    (Temporal.floating z.localTime).bindTo z.zone = .zoned z := by
  show Temporal.zoned ⟨z.zone.settle z.localTime, z.zone⟩ = .zoned z
  rw [Zone.settle_of_readings h.readings_seed]

theorem seed_onceIn (h : WallClock r z) : (Temporal.floating z.localTime).OnceIn z.zone :=
  ⟨z.localTime, rfl, h.once⟩

/-- The steps of both walks are made in civil time, from the civil time of the seed. -/
theorem stepZone?_inZone (h : WallClock r z) : (r.inZone z).stepZone? = none := by
  have coarse := h.coarse
  refine if_neg fun subDaily => ?_
  have : r.frequency.rank < Frequency.daily.rank := of_decide_eq_true subDaily
  omega

theorem incrementStart?_inZone (h : WallClock r z) (k : Nat) :
    r.incrementStart? (r.inZone z).origin k = r.incrementStart? z.localTime k := by
  unfold Series.origin Series.frame
  rw [h.stepZone?_inZone]
  rfl

theorem incrementStart?_onWall (r : Rule) (z : Zoned) (k : Nat) :
    r.incrementStart? (r.onWall z).origin k = r.incrementStart? z.localTime k :=
  congrArg (r.incrementStart? · k) (Series.origin_of_unzoned rfl)

/-- **Bound to the zone, values keep their order.** -/
theorem key_bindTo_le_iff (h : WallClock r z) (ha : a.OnceIn z.zone) (hb : b.OnceIn z.zone) :
    (r.inZone z).key (a.bindTo z.zone) ≤ (r.inZone z).key (b.bindTo z.zone) ↔
      (r.onWall z).key a ≤ (r.onWall z).key b := by
  obtain ⟨ca, rfl, once⟩ := ha
  obtain ⟨cb, rfl, once'⟩ := hb
  obtain ⟨i, hi⟩ := once.exists_readings
  obtain ⟨j, hj⟩ := once'.exists_readings
  show (z.zone.settle ca).stamp ≤ (z.zone.settle cb).stamp ↔
    (Zone.utc.settle ca).stamp ≤ (Zone.utc.settle cb).stamp
  rw [Zone.settle_of_readings hi, Zone.settle_of_readings hj, Zone.settle_utc, Zone.settle_utc]
  exact Zone.stamp_le_iff_of_once h.spaced hi hj

theorem before_bindTo (h : WallClock r z) (ha : a.OnceIn z.zone) (hb : b.OnceIn z.zone) :
    (r.inZone z).comparator.before (a.bindTo z.zone) (b.bindTo z.zone) =
      (r.onWall z).comparator.before a b := by
  refine decide_eq_decide.mpr ?_
  have := h.key_bindTo_le_iff hb ha
  unfold Series.key at this
  omega

theorem after_bindTo (h : WallClock r z) (ha : a.OnceIn z.zone) (hb : b.OnceIn z.zone) :
    (r.inZone z).comparator.after (a.bindTo z.zone) (b.bindTo z.zone) =
      (r.onWall z).comparator.after a b :=
  h.before_bindTo hb ha

/-- The floating values at civil times, in order. -/
theorem candidates_onWall (r : Rule) (z : Zoned) (period : Civil) :
    (r.onWall z).candidates period =
      ascending (r.onWall z).key
        ((r.civilCandidates z.localTime period false).map Temporal.floating) := by
  rw [Series.candidates_of_unzoned rfl, ← List.filterMap_eq_map]
  rfl

theorem candidates_inZone (h : WallClock r z) (period : Civil) :
    (r.inZone z).candidates period =
      ascending (r.inZone z).key
        ((r.civilCandidates z.localTime period false).filterMap
          (r.valueAt? (.zoned z) none)) :=
  Series.candidates_of_stepZone?_eq_none h.stepZone?_inZone period

theorem onceIn_of_mem_candidates
    (once : ∀ c ∈ r.civilCandidates z.localTime period false, z.zone.Once c)
    (hc : c ∈ (r.onWall z).candidates period) : c.OnceIn z.zone := by
  rw [candidates_onWall] at hc
  obtain ⟨civil, mem, rfl⟩ := List.mem_map.mp (mem_of_mem_ascending hc)
  exact ⟨civil, rfl, once civil mem⟩

/-- A civil time that clocks show once is bound to its one instant, whatever the gap policy. -/
theorem valueAt?_of_once (r : Rule) {z : Zoned} {c : Civil} (once : z.zone.Once c) :
    r.valueAt? (.zoned z) none c = some ((Temporal.floating c).bindTo z.zone) := by
  obtain ⟨i, hi⟩ := once.exists_readings
  have first : z.zone.earliest? c = some i := by
    unfold Zone.earliest?
    rw [hi]
    rfl
  show (r.settings.gapPolicy.resolve z.zone c).map _ =
    some (Temporal.zoned ⟨z.zone.settle c, z.zone⟩)
  rw [Zone.resolve_of_earliest? _ first, Zone.settle_of_readings hi]
  rfl

/-- **An increment has the same candidates, bound to the zone.** -/
theorem candidates_eq (h : WallClock r z)
    (once : ∀ c ∈ r.civilCandidates z.localTime period false, z.zone.Once c) :
    (r.inZone z).candidates period =
      ((r.onWall z).candidates period).map (Temporal.bindTo z.zone) := by
  have bound : (r.civilCandidates z.localTime period false).filterMap
      (r.valueAt? (.zoned z) none) =
      ((r.civilCandidates z.localTime period false).map Temporal.floating).map
        (Temporal.bindTo z.zone) := by
    rw [List.map_map, ← List.filterMap_eq_map]
    exact List.filterMap_congr fun c hc => valueAt?_of_once r (once c hc)
  rw [h.candidates_inZone, bound, candidates_onWall]
  refine ascending_map _ fun a ha b hb => ?_
  obtain ⟨ca, hca, rfl⟩ := List.mem_map.mp ha
  obtain ⟨cb, hcb, rfl⟩ := List.mem_map.mp hb
  exact h.key_bindTo_le_iff ⟨ca, rfl, once ca hca⟩ ⟨cb, rfl, once cb hcb⟩

/-- **A candidate is sifted alike.** -/
theorem sift_eq (h : WallClock r z) {state : Tally × List Temporal}
    (hs : StateOnceIn z.zone state) (hc : c.OnceIn z.zone) :
    (r.inZone z).sift
        (state.map (Tally.bindTo z.zone) (List.map (Temporal.bindTo z.zone))) (c.bindTo z.zone) =
      ((r.onWall z).sift state c).map
        (Tally.bindTo z.zone) (List.map (Temporal.bindTo z.zone)) := by
  obtain ⟨t, found⟩ := state
  have seed : (r.inZone z).comparator.before (c.bindTo z.zone) (r.inZone z).seed =
      (r.onWall z).comparator.before c (r.onWall z).seed := by
    have bound := h.before_bindTo hc h.seed_onceIn
    rw [h.bindTo_seed] at bound
    exact bound
  have last : (t.bindTo z.zone).lastCounted.any
      (fun last => !(r.inZone z).comparator.after (c.bindTo z.zone) last) =
      t.lastCounted.any (fun last => !(r.onWall z).comparator.after c last) := by
    show (t.lastCounted.map (Temporal.bindTo z.zone)).any _ = _
    cases hl : t.lastCounted with
    | none => rfl
    | some last => exact congrArg (!·) (h.after_bindTo hc (hs.1 last hl))
  rw [Prod.map_apply, (h.boundless _).sift_eq, (h.boundless _).sift_eq, seed, last]
  split <;> rfl

/-- A time that clocks show once stays the last occurrence, and nothing else is listed. -/
theorem onceIn_sift (h : WallClock r z) {state : Tally × List Temporal}
    (hs : StateOnceIn z.zone state) (hc : c.OnceIn z.zone) :
    StateOnceIn z.zone ((r.onWall z).sift state c) := by
  obtain ⟨t, found⟩ := state
  obtain ⟨ht, hfound⟩ := hs
  rw [(h.boundless _).sift_eq]
  split
  · exact ⟨ht, hfound⟩
  · refine ⟨fun last hl => ?_, fun x hx => ?_⟩
    · cases hl
      exact hc
    · rcases List.mem_cons.mp hx with rfl | before
      · exact hc
      · exact hfound x before

theorem foldl_sift_eq (h : WallClock r z) {cs : List Temporal} (hcs : ∀ c ∈ cs, c.OnceIn z.zone)
    {state : Tally × List Temporal} (hs : StateOnceIn z.zone state) :
    (cs.map (Temporal.bindTo z.zone)).foldl (r.inZone z).sift
        (state.map (Tally.bindTo z.zone) (List.map (Temporal.bindTo z.zone))) =
      (cs.foldl (r.onWall z).sift state).map
        (Tally.bindTo z.zone) (List.map (Temporal.bindTo z.zone)) ∧
    StateOnceIn z.zone (cs.foldl (r.onWall z).sift state) := by
  induction cs generalizing state with
  | nil => exact ⟨rfl, hs⟩
  | cons c rest ih =>
    have hc := hcs c List.mem_cons_self
    rw [List.map_cons, List.foldl_cons, List.foldl_cons, h.sift_eq hs hc]
    exact ih (fun a ha => hcs a (List.mem_cons_of_mem c ha)) (h.onceIn_sift hs hc)

/-- **Each step of the one walk is one of the other**, as long as clocks show what it meets once. -/
theorem step_eq (h : WallClock r z) (ht : w.tally.OnceIn z.zone)
    (once : (r.inZone z).step (w.bindTo z.zone) ≠ none →
      ∀ period, r.incrementStart? z.localTime w.increment = some period →
        ∀ c ∈ r.civilCandidates z.localTime period false, z.zone.Once c) :
    (r.inZone z).step (w.bindTo z.zone) = ((r.onWall z).step w).map
        (Prod.map (List.map (Temporal.bindTo z.zone)) (Walk.bindTo z.zone)) ∧
    ∀ more next, (r.onWall z).step w = some (more, next) →
      StateOnceIn z.zone (next.tally, more) := by
  have same : (r.inZone z).finished (w.bindTo z.zone) = (r.onWall z).finished w := by
    rw [(h.boundless _).finished_eq, (h.boundless _).finished_eq]
    rfl
  cases go : (r.onWall z).finished w with
  | true =>
    rw [Series.step_eq_none_of_finished go, Series.step_eq_none_of_finished (same.trans go)]
    exact ⟨rfl, fun _ _ e => nomatch e⟩
  | false =>
    cases hp : r.incrementStart? z.localTime w.increment with
    | none =>
      have ended : (r.inZone z).step (w.bindTo z.zone) = none :=
        Series.step_eq_none_of_incrementStart? ((h.incrementStart?_inZone _).trans hp)
      have ended' : (r.onWall z).step w = none :=
        Series.step_eq_none_of_incrementStart? ((incrementStart?_onWall r z _).trans hp)
      rw [ended, ended']
      exact ⟨rfl, fun _ _ e => nomatch e⟩
    | some period =>
      have stepped := Series.step_eq_of_not_finished (same.trans go)
        ((h.incrementStart?_inZone _).trans hp)
      have once := once (fun ended => nomatch stepped.symm.trans ended) period hp
      have stepped' := Series.step_eq_of_not_finished go ((incrementStart?_onWall r z _).trans hp)
      obtain ⟨sifted, onceIn⟩ :=
        h.foldl_sift_eq (fun c hc => onceIn_of_mem_candidates once hc)
          (⟨ht, fun _ hx => absurd hx List.not_mem_nil⟩ : StateOnceIn z.zone (w.tally, []))
      have all : (r.inZone z).siftAll (w.bindTo z.zone).tally
          ((r.inZone z).candidates period) =
          ((r.onWall z).siftAll w.tally ((r.onWall z).candidates period)).map
            (Tally.bindTo z.zone) (List.map (Temporal.bindTo z.zone)) := by
        rw [h.candidates_eq once]
        exact sifted
      have empties : (r.inZone z).emptiesAfter w.empties period =
          (r.onWall z).emptiesAfter w.empties period := by
        unfold Series.emptiesAfter
        rw [h.candidates_eq once, List.isEmpty_map,
          Series.reading?_of_stepZone?_eq_none h.stepZone?_inZone,
          Series.reading?_of_stepZone?_eq_none (Series.stepZone?_of_unzoned rfl)]
      rw [stepped, stepped', all]
      refine ⟨?_, fun more next e => ?_⟩
      · show some (_, (⟨_, _, _⟩ : Walk)) = some (_, (⟨_, _, _⟩ : Walk))
        rw [← empties]
        simp only [Prod.map_fst, Prod.map_snd, List.map_reverse]
        rfl
      · cases e
        exact ⟨onceIn.1, fun x hx => onceIn.2 x (List.mem_reverse.mp hx)⟩

/-- **A walk in the zone finds what the floating walk finds, bound to the zone**, for as many values
    as clocks show all that is visited once. -/
theorem take_valuesFrom_eq (h : WallClock r z) (n : Nat) (w : Walk) (ht : w.tally.OnceIn z.zone)
    (once : ∀ period ∈ (r.inZone z).visitsFrom (some n) (w.bindTo z.zone),
      ∀ c ∈ r.civilCandidates z.localTime period false, z.zone.Once c) :
    ((r.inZone z).valuesFrom (w.bindTo z.zone)).take n =
      (((r.onWall z).valuesFrom w).take n).map (Temporal.bindTo z.zone) ∧
    ∀ x ∈ ((r.onWall z).valuesFrom w).take n, x.OnceIn z.zone := by
  by_cases asked : n = 0
  · rw [asked, List.take_zero, List.take_zero]
    exact ⟨rfl, fun _ hx => absurd hx List.not_mem_nil⟩
  have visited : ∀ more next, (r.inZone z).step (w.bindTo z.zone) = some (more, next) →
      ∀ period, r.incrementStart? z.localTime w.increment = some period →
        (r.inZone z).visitsFrom (some n) (w.bindTo z.zone) =
          period :: (r.inZone z).visitsFrom (some (n - more.length)) next :=
    fun more next stepped period hp => by
      rw [Series.visitsFrom_of_some (fun e => asked (Option.some.inj e)) stepped
        ((h.incrementStart?_inZone _).trans hp), Series.readable,
        Series.reading?_of_stepZone?_eq_none h.stepZone?_inZone]
      rfl
  obtain ⟨same, onceIn⟩ := h.step_eq ht fun steps period hp => by
    obtain ⟨⟨more, next⟩, stepped⟩ := Option.ne_none_iff_exists'.mp steps
    exact once period (by rw [visited more next stepped period hp]; exact List.mem_cons_self)
  cases stepped : (r.onWall z).step w with
  | none =>
    rw [stepped] at same
    rw [Series.valuesFrom_of_none stepped, Series.valuesFrom_of_none same, List.take_nil]
    exact ⟨rfl, fun _ hx => absurd hx List.not_mem_nil⟩
  | some result =>
    obtain ⟨more, next⟩ := result
    rw [stepped] at same
    have closer := Series.increment_of_step stepped
    obtain ⟨-, period, hp, -, -⟩ := Series.step_cases stepped
    have hp := (incrementStart?_onWall r z w.increment).symm.trans hp
    have rest := visited _ _ same period hp
    rw [List.length_map] at rest
    obtain ⟨later, laterOnce⟩ := take_valuesFrom_eq h (n - more.length) next
      (onceIn more next stepped).1
      fun p hmem => once p (by rw [rest]; exact List.mem_cons_of_mem period hmem)
    rw [Series.valuesFrom_of_some stepped, Series.valuesFrom_of_some same, List.take_append,
      List.take_append, List.map_append, List.map_take, List.length_map, later]
    refine ⟨rfl, fun x hx => ?_⟩
    rcases List.mem_append.mp hx with first | after
    · exact (onceIn more next stepped).2 x (List.mem_of_mem_take first)
    · exact laterOnce x after
termination_by horizon - w.increment
decreasing_by omega

end WallClock

/-! ## 4. Occurrences -/

/-- **Occurrences in a zone are floating occurrences with the zone attached**, at the same time on
    the wall however often clocks change in between. This is so for the first `n` of them if clocks
    show once what is visited for them: no such time lies in a gap, where no instant of the calendar
    shows it, nor in a repeated hour. -/
theorem Rule.zoned_take_eq_floating_take (r : Rule) (z : Zoned) (n : Nat)
    (hcoarse : Frequency.daily.rank ≤ r.frequency.rank) (hend : r.parts.ending = none)
    (hzone : z.zone.Spaced) (hshown : z.zone.shown? z.instant = some z.localTime)
    (hseed : z.zone.Once z.localTime)
    (hcivil : ∀ period ∈ (r.occurrences (.zoned z)).visits (some n),
      ∀ c ∈ r.civilCandidates z.localTime period false, z.zone.Once c) :
    (r.occurrences (.zoned z)).take n =
        ((r.occurrences (.floating z.localTime)).take n).map (Temporal.bindTo z.zone) ∧
      ((r.occurrences (.zoned z)).take n).map Temporal.localTime =
        ((r.occurrences (.floating z.localTime)).take n).map Temporal.localTime := by
  have h : WallClock r z := ⟨hcoarse, hend, hzone, hshown, hseed⟩
  obtain ⟨bound, once⟩ := h.take_valuesFrom_eq n ⟨0, 0, .blank⟩ (fun _ hl => nomatch hl) hcivil
  rw [Series.take_eq, Series.take_eq]
  refine ⟨bound, ?_⟩
  rw [show (r.occurrences (.zoned z)).toList.take n = _ from bound, List.map_map]
  refine List.map_congr_left fun x hx => ?_
  obtain ⟨c, rfl, shown⟩ := once x hx
  exact h.spaced.localTime_settle shown

/-- Nine in the morning in New York, the day before clocks go forward. -/
def beforeSpringForward : Zoned := ⟨⟨63940111200, false, by decide, by decide⟩, ZoneTable.newYork⟩

/-- Every day. -/
def everyDay : Rule where
  frequency := .daily
  parts := .none
  settings := .standard
  valid := RuleParts.fault?_none

/-- Clocks that go forward in between do not move the mornings. -/
theorem zoned_take_across_spring_forward :
    (everyDay.occurrences (.zoned beforeSpringForward)).take 3 =
        ((everyDay.occurrences (.floating beforeSpringForward.localTime)).take 3).map
          (Temporal.bindTo ZoneTable.newYork) ∧
      ((everyDay.occurrences (.zoned beforeSpringForward)).take 3).map Temporal.localTime =
        ((everyDay.occurrences (.floating beforeSpringForward.localTime)).take 3).map
          Temporal.localTime := by
  have spaced : ZoneTable.newYork.Spaced :=
    Zone.spaced_of_mem_zones ZoneTable.newYork (by simp [ZoneTable.zones])
  have shown : ZoneTable.newYork.shown? beforeSpringForward.instant =
      some beforeSpringForward.localTime := by decide +kernel
  have once : ZoneTable.newYork.Once beforeSpringForward.localTime := by decide +kernel
  have civil : ∀ period ∈ (everyDay.occurrences (.zoned beforeSpringForward)).visits (some 3),
      ∀ c ∈ everyDay.civilCandidates beforeSpringForward.localTime period false,
        ZoneTable.newYork.Once c := by decide +kernel
  exact everyDay.zoned_take_eq_floating_take beforeSpringForward 3 (by decide) rfl spaced shown
    once civil

/-- It is the hour in UTC that changes. -/
example : ((everyDay.occurrences (.zoned beforeSpringForward)).take 3).map
    (fun t => (t.localTime.hour, (t.instantIn Zone.utc).hour)) = [(9, 14), (9, 13), (9, 13)] := by
  decide +kernel

end Almanac
