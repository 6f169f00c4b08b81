import Almanac.Period.Basic
import Almanac.Rule.Candidates
import Almanac.Rule.Increment

/-!
# The series of a rule

A series is a rule, a seed, and a window with two ends, either of which may be open. This file fixes

* **a series is found by a walk** (`Walk`) over the increments, one `Series.step` at a time. A
  walk ends with the calendar, at the number of occurrences, behind the last value or the window,
  or after too many increments without a candidate;
* **candidates are sifted in order** (`Series.sift`). One before the seed, or not after the last one
  counted, is no occurrence. One outside the window is an occurrence, and counts, but is not listed;
* a walk with a window start and no number of occurrences begins at the last increment before the
  window, for what lies before it cannot matter;
* a rule of hours or less on a zoned seed steps through elapsed time, so a repeated hour is visited
  twice and a left-out hour not at all, and a step at which clocks would show a time past the calendar
  has no result; every other rule steps through the civil time of the seed;
* `Series.toList` is the view of a series. `Series.takeWhere` and `Series.find?` walk no further
  than they need and agree with it (`takeWhere_eq`, `find?_eq`).
-/

namespace Almanac

/-- A rule from a seed on, seen through a window. -/
structure Series where
  rule : Rule
  seed : Temporal
  start : Option Temporal
  stop : Option Temporal

/-- What a walk knows of the candidates it has met. -/
structure Tally where
  /-- How many occurrences there were, inside the window and outside. -/
  counted : Nat
  /-- The last of them. -/
  lastCounted : Option Temporal
  /-- The last candidate of all. -/
  lastSeen : Option Temporal
deriving DecidableEq, Inhabited

/-- A walk: the number of the increment it comes to next, how many increments in a row had no
    candidate, and the tally. -/
structure Walk where
  increment : Nat
  empties : Nat
  tally : Tally
deriving DecidableEq, Inhabited

/-- The tally before any candidate. -/
def Tally.blank : Tally := ⟨0, none, none⟩

/-- The tally after one more occurrence. -/
def Tally.count (t : Tally) (occurrence : Temporal) : Tally :=
  { t with counted := t.counted + 1, lastCounted := some occurrence }

namespace Series

/-! ## 1. Frames -/

/-- The comparator of the series. -/
def comparator (s : Series) : Comparator := Comparator.forSeed s.seed

/-- The zone whose clocks are read at each step, when the steps are elapsed time. -/
def stepZone? (s : Series) : Option Zone :=
  if s.rule.frequency.isSubDaily then s.seed.zone? else none

/-- A value as the civil time that the steps are made in. -/
def frame (s : Series) (t : Temporal) : Civil :=
  match s.stepZone? with
  | some zone => t.instantIn zone
  | none => t.inFrameOf s.seed

/-- Where the steps begin. -/
def origin (s : Series) : Civil := s.frame s.seed

/-- The civil time that a step is read as: what clocks show at it, when the steps are elapsed time. -/
def reading? (s : Series) (period : Civil) : Option Civil :=
  match s.stepZone? with
  | some zone => zone.shown? period
  | none => some period

/-- The candidates of the increment that starts at a step. There are none where clocks leave the
    calendar. -/
def candidates (s : Series) (period : Civil) : List Temporal :=
  match s.reading? period with
  | some civil => s.rule.candidatesAt s.seed (s.stepZone?.map fun zone => zone.offsetAt period) civil
  | none => []

/-- How many increments in a row have no candidate, with one more increment. One that clocks cannot
    show is left out of the count. -/
def emptiesAfter (s : Series) (empties : Nat) (period : Civil) : Nat :=
  if !(s.candidates period).isEmpty then 0
  else if (s.reading? period).isSome then empties + 1
  else empties

/-! ## 2. Bounds -/

/-- Whether a value is beyond the last value of the rule: a date is compared by the calendar. -/
def exceedsLast (s : Series) (t : Temporal) : Bool :=
  match s.rule.parts.last? with
  | none => false
  | some (.date d) => d.day < t.toDate.day
  | some last => s.comparator.after t last

/-- Whether a value is past the window. -/
def pastStop (s : Series) (t : Temporal) : Bool :=
  s.stop.any fun stop => s.comparator.after t stop

/-- Whether a value is before the window. -/
def beforeStart (s : Series) (t : Temporal) : Bool :=
  s.start.any fun start => s.comparator.before t start

/-- Whether the rule's number of occurrences has been reached. -/
def countReached (s : Series) (t : Tally) : Bool :=
  s.rule.parts.count?.any fun count => count ≤ t.counted

/-- Whether a walk needs no further increment. -/
def finished (s : Series) (w : Walk) : Bool :=
  (w.tally.lastSeen.any fun t => s.exceedsLast t || s.pastStop t) || s.countReached w.tally ||
    s.rule.settings.guard?.any fun limit => limit ≤ w.empties

/-! ## 3. Walks -/

/-- One candidate more, given the tally so far and what has been found, the latest first. -/
def sift (s : Series) (state : Tally × List Temporal) (candidate : Temporal) :
    Tally × List Temporal :=
  let (tally, found) := state
  let tally := { tally with lastSeen := some candidate }
  if s.comparator.before candidate s.seed ||
      tally.lastCounted.any (fun last => !s.comparator.after candidate last) then (tally, found)
  else if s.beforeStart candidate || s.pastStop candidate then (tally.count candidate, found)
  else if s.countReached tally || s.exceedsLast candidate then (tally, found)
  else (tally.count candidate, candidate :: found)

/-- What a walk finds in its next increment, and the walk after it. -/
def step (s : Series) (w : Walk) : Option (List Temporal × Walk) :=
  if s.finished w then none
  else
    (s.rule.incrementStart? s.origin w.increment).map fun period =>
      let (tally, found) := (s.candidates period).foldl s.sift (w.tally, [])
      (found.reverse, ⟨w.increment + 1, s.emptiesAfter w.empties period, tally⟩)

/-- The walk before its first step. -/
def setOut (s : Series) : Walk :=
  let increment := match s.start, s.rule.parts.count? with
    | some start, none => s.rule.incrementsBefore s.origin (s.frame start)
    | _, _ => 0
  ⟨increment, 0, .blank⟩

/-- A walk makes its steps one increment at a time, and none beyond the horizon. -/
theorem increment_of_step {s : Series} {w next : Walk} {found : List Temporal}
    (h : s.step w = some (found, next)) :
    w.increment < horizon ∧ next.increment = w.increment + 1 := by
  unfold step at h
  split at h
  · simp at h
  · obtain ⟨period, hp, hs⟩ := Option.map_eq_some_iff.1 h
    refine ⟨Rule.incrementStart?_lt_horizon hp, ?_⟩
    simp only [Prod.mk.injEq] at hs
    rw [← hs.2]

/-! ## 4. What a series yields -/

/-- What has been found, the latest first, and then all that the walk still finds. -/
def unroll (s : Series) (found : List Temporal) (w : Walk) : List Temporal :=
  match _h : s.step w with
  | none => found.reverse
  | some (more, next) => s.unroll (more.reverse ++ found) next
termination_by horizon - w.increment
decreasing_by have := increment_of_step _h; omega

/-- All that a walk still finds. -/
def valuesFrom (s : Series) (w : Walk) : List Temporal := s.unroll [] w

/-- **The occurrences inside the window, in order.** -/
def toList (s : Series) : List Temporal := s.valuesFrom s.setOut

/-- What has been found, latest first, and then up to `n` more of the values that pass a test. -/
def takeFrom (s : Series) (test : Temporal → Bool) (n : Nat) (found : List Temporal) (w : Walk) :
    List Temporal :=
  if n = 0 then found.reverse
  else
    match _h : s.step w with
    | none => found.reverse
    | some (more, next) =>
      let passed := more.filter test
      s.takeFrom test (n - passed.length) ((passed.take n).reverse ++ found) next
termination_by horizon - w.increment
decreasing_by have := increment_of_step _h; omega

/-- The first `n` occurrences inside the window that pass a test. -/
def takeWhere (s : Series) (test : Temporal → Bool) (n : Nat) : List Temporal :=
  s.takeFrom test n [] s.setOut

/-- The first `n` occurrences inside the window. -/
def take (s : Series) (n : Nat) : List Temporal := s.takeWhere (fun _ => true) n

/-- The first value that a walk still finds and that passes a test. -/
def findFrom (s : Series) (test : Temporal → Bool) (w : Walk) : Option Temporal :=
  match _h : s.step w with
  | none => none
  | some (more, next) =>
    match more.find? test with
    | some t => some t
    | none => s.findFrom test next
termination_by horizon - w.increment
decreasing_by have := increment_of_step _h; omega

/-- The first occurrence inside the window that passes a test. -/
def find? (s : Series) (test : Temporal → Bool) : Option Temporal := s.findFrom test s.setOut

/-! ## 5. Laws -/

theorem unroll_of_none {s : Series} {found : List Temporal} {w : Walk} (h : s.step w = none) :
    s.unroll found w = found.reverse := by
  rw [unroll]
  split
  · rfl
  · simp_all

theorem unroll_of_some {s : Series} {found more : List Temporal} {w next : Walk}
    (h : s.step w = some (more, next)) :
    s.unroll found w = s.unroll (more.reverse ++ found) next := by
  rw [unroll]
  split <;> simp_all

theorem unroll_append (s : Series) (found before : List Temporal) (w : Walk) :
    s.unroll (found ++ before) w = before.reverse ++ s.unroll found w := by
  fun_induction unroll s found w with
  | case1 found w h => simp [unroll_of_none h]
  | case2 found w more next h ih => rw [unroll_of_some h, ← List.append_assoc, ih]

/-- A walk that cannot step finds nothing. -/
theorem valuesFrom_of_none {s : Series} {w : Walk} (h : s.step w = none) :
    s.valuesFrom w = [] :=
  unroll_of_none h

/-- A walk finds what its next step finds and then what the walk after it finds. -/
theorem valuesFrom_of_some {s : Series} {w next : Walk} {more : List Temporal}
    (h : s.step w = some (more, next)) : s.valuesFrom w = more ++ s.valuesFrom next := by
  unfold valuesFrom
  rw [unroll_of_some h]
  simpa using s.unroll_append [] more.reverse next

theorem takeFrom_eq (s : Series) (test : Temporal → Bool) (n : Nat) (found : List Temporal)
    (w : Walk) :
    s.takeFrom test n found w = found.reverse ++ ((s.valuesFrom w).filter test).take n := by
  fun_induction takeFrom s test n found w with
  | case1 => simp
  | case2 n found w hn h => simp [valuesFrom_of_none h]
  | case3 n found w hn more next h passed ih =>
    rw [ih, valuesFrom_of_some h, List.filter_append, List.take_append]
    simp [passed]

/-- Taking under a test walks no further than it needs, and takes the same values. -/
theorem takeWhere_eq (s : Series) (test : Temporal → Bool) (n : Nat) :
    s.takeWhere test n = (s.toList.filter test).take n := by
  simp [takeWhere, toList, takeFrom_eq]

/-- Taking walks no further than it needs, and takes the same values. -/
theorem take_eq (s : Series) (n : Nat) : s.take n = s.toList.take n := by
  rw [take, takeWhere_eq, List.filter_eq_self.2 (by simp)]

theorem findFrom_eq (s : Series) (test : Temporal → Bool) (w : Walk) :
    s.findFrom test w = (s.valuesFrom w).find? test := by
  fun_induction findFrom s test w with
  | case1 w h => simp [valuesFrom_of_none h]
  | case2 w more next h t ht => simp [valuesFrom_of_some h, ht]
  | case3 w more next h hn ih => simp [valuesFrom_of_some h, hn, ih]

/-- Finding walks no further than it needs, and finds the same value. -/
theorem find?_eq (s : Series) (test : Temporal → Bool) : s.find? test = s.toList.find? test :=
  findFrom_eq s test s.setOut

end Series

/-! ## 6. Series of a rule -/

namespace Rule

/-- All occurrences from a seed on. -/
def occurrences (r : Rule) (seed : Temporal) : Series := ⟨r, seed, none, none⟩

/-- The occurrences from `start` to `stop`. -/
def within (r : Rule) (seed start stop : Temporal) : Series := ⟨r, seed, some start, some stop⟩

/-- The occurrences from `start` to `stop`, at most `most` of them. -/
def dates (r : Rule) (seed start stop : Temporal) (most : Option Nat) : List Temporal :=
  let series := r.within seed start stop
  match most with
  | none => series.toList
  | some n => series.take n

/-- The occurrences within the bounds of a period, at most `most` of them. -/
def datesIn (r : Rule) (seed : Temporal) (window : Period) (most : Option Nat) : List Temporal :=
  r.dates seed window.start window.stop most

/-- The first occurrence after a value. -/
def next? (r : Rule) (seed after : Temporal) : Option Temporal :=
  let series : Series := ⟨r, seed, some after, none⟩
  series.find? fun t => series.comparator.after t after

end Rule

end Almanac
