import Almanac.Proofs.Ascending
import Almanac.Proofs.Series.Sift

/-!
# The course of a series

A walk carries a tally and ends early, for one of four reasons. This file says in one equation what
it finds (`valuesFrom_eq`), from two lists that know nothing of tallies:

* **the candidates ahead** (`Series.ahead`): those of all increments that are left, until the
  calendar ends or too many increments in a row were empty;
* **the harvest of a list** (`Series.harvest`): the values inside the window, up to the first value
  at which the rule ends the series.

The candidates ahead are thinned to those that rise above the mark (`climb`), and that is harvested.
Two states of a walk carry the proof. While it is open (`Open`), all it has met lies at or below the
mark, so tally and thinned list agree. Once it is cut (`Cut`), it makes no further step; nothing that
would still come is lost, for the thinned list rises, and what rises above a value beyond the end is
beyond the end.
-/

namespace Almanac.Series

variable {s : Series}

/-! ## 1. What lies ahead, and what is taken of it -/

/-- The candidates of the increments from `k` on, in the order in which a walk meets them, when
    `empties` increments without a candidate came right before. -/
def ahead (s : Series) (k empties : Nat) : List Temporal :=
  if s.rule.settings.guard?.any fun limit => limit ≤ empties then []
  else
    match _h : s.rule.incrementStart? s.origin k with
    | none => []
    | some period => s.candidates period ++
        s.ahead (k + 1) (s.emptiesAfter empties period)
termination_by horizon - k
decreasing_by have := Rule.incrementStart?_lt_horizon _h; omega

/-- The values inside the window, up to the first one at which the rule ends the series. -/
def harvest (s : Series) : (counted : Nat) → List Temporal → List Temporal
  | _, [] => []
  | counted, c :: rest =>
    if s.cutOff counted c then []
    else if s.inside c then c :: s.harvest (counted + 1) rest
    else s.harvest (counted + 1) rest

theorem ahead_of_guard {k empties : Nat}
    (h : s.rule.settings.guard?.any (fun limit => limit ≤ empties) = true) :
    s.ahead k empties = [] := by
  rw [ahead, if_pos h]

theorem ahead_of_none {k empties : Nat} (h : s.rule.incrementStart? s.origin k = none) :
    s.ahead k empties = [] := by
  rw [ahead]
  split
  · rfl
  · split
    · rfl
    · simp_all

theorem ahead_of_some {k empties : Nat} {period : Civil}
    (go : s.rule.settings.guard?.any (fun limit => limit ≤ empties) = false)
    (h : s.rule.incrementStart? s.origin k = some period) :
    s.ahead k empties = s.candidates period ++
      s.ahead (k + 1) (s.emptiesAfter empties period) := by
  rw [ahead, if_neg (by rw [go]; simp)]
  split <;> simp_all

/-- What lies ahead is a candidate of some increment ahead. -/
theorem exists_of_mem_ahead {k empties : Nat} {c : Temporal} (h : c ∈ s.ahead k empties) :
    ∃ j period, k ≤ j ∧ s.rule.incrementStart? s.origin j = some period ∧
      c ∈ s.candidates period := by
  fun_induction s.ahead k empties with
  | case1 => cases h
  | case2 => cases h
  | case3 k empties go period hp ih =>
    rcases List.mem_append.mp h with first | later
    · exact ⟨k, period, Nat.le_refl k, hp, first⟩
    · obtain ⟨j, period', le, hj, mem⟩ := ih later
      exact ⟨j, period', Nat.le_of_succ_le le, hj, mem⟩

/-- All candidates ahead are of the seed's kind. -/
theorem sameKind_of_mem_ahead {k empties : Nat} {c : Temporal} (h : c ∈ s.ahead k empties) :
    c.SameKind s.seed := by
  obtain ⟨_, _, -, -, mem⟩ := exists_of_mem_ahead h
  exact sameKind_of_mem_candidates mem

@[simp] theorem harvest_nil (s : Series) (counted : Nat) : s.harvest counted [] = [] := rfl

theorem harvest_of_cutOff {counted : Nat} {c : Temporal} (rest : List Temporal)
    (h : s.cutOff counted c = true) : s.harvest counted (c :: rest) = [] := by
  rw [harvest, if_pos h]

theorem harvest_of_not_cutOff {counted : Nat} {c : Temporal} (rest : List Temporal)
    (h : s.cutOff counted c = false) : s.harvest counted (c :: rest) =
      if s.inside c then c :: s.harvest (counted + 1) rest else s.harvest (counted + 1) rest := by
  rw [harvest, if_neg (by rw [h]; simp)]

/-- **The harvest, in terms of lists**: so many values, of them those before the first one beyond
    the last, and of these those inside the window. -/
theorem harvest_eq (s : Series) (counted : Nat) (l : List Temporal) :
    s.harvest counted l =
      (((match s.rule.parts.count? with
        | none => l
        | some n => l.take (n - counted)).takeWhile fun c => !s.exceedsLast c).filter s.inside) := by
  induction l generalizing counted with
  | nil => cases s.rule.parts.count? <;> simp
  | cons c rest ih =>
    cases hc : s.rule.parts.count? with
    | none =>
      cases he : s.exceedsLast c with
      | true =>
        rw [harvest_of_cutOff rest (by simp [cutOff, he])]
        simp [he]
      | false =>
        rw [harvest_of_not_cutOff rest (by simp [cutOff, hc, he]), ih, hc]
        simp only [List.takeWhile_cons, he, Bool.not_false, if_true, List.filter_cons]
    | some n =>
      by_cases hn : n ≤ counted
      · rw [harvest_of_cutOff rest (by simp [cutOff, hc, hn])]
        simp [show n - counted = 0 by omega]
      · have next : n - counted = n - (counted + 1) + 1 := by omega
        cases he : s.exceedsLast c with
        | true =>
          rw [harvest_of_cutOff rest (by simp [cutOff, he])]
          simp [next, he]
        | false =>
          rw [harvest_of_not_cutOff rest (by simp [cutOff, hc, he]; omega), ih, hc]
          simp only [next, List.take_succ_cons, List.takeWhile_cons, he, Bool.not_false, if_true,
            List.filter_cons]

/-! ## 2. Open and cut walks -/

/-- All that has been met lies at or below the mark. -/
def Open (s : Series) (t : Tally) : Prop :=
  ∀ c ∈ t.lastSeen, c.SameKind s.seed ∧ s.key c ≤ s.mark t

/-- The rule ends the series here, by its number or at what has been met last. -/
def Cut (s : Series) (t : Tally) : Prop :=
  s.countReached t = true ∨ ∃ c ∈ t.lastSeen, s.exceedsLast c = true

/-- What comes later than a value beyond the last value of the rule is beyond it as well. -/
def LastKept (s : Series) : Prop :=
  ∀ a b : Temporal, a.SameKind s.seed → b.SameKind s.seed → s.key a ≤ s.key b →
    s.exceedsLast a = true → s.exceedsLast b = true

/-- A last value with a time of day is kept to under every seed, a date under seeds without a
    zone. -/
theorem lastKept_of (s : Series)
    (h : ∀ last ∈ s.rule.parts.last?, last.isDateTime = true ∨ s.seed.zone? = none) :
    s.LastKept := by
  intro a b ha hb le past
  rw [exceedsLast_eq] at past ⊢
  cases hl : s.rule.parts.last? with
  | none =>
    rw [hl] at past
    cases past
  | some last =>
    rw [hl] at past
    exact Comparator.beyond_of_key_le (h last hl) ha hb le past

theorem finished_of_cut {w : Walk} (h : s.Cut w.tally) : s.finished w = true := by
  unfold finished
  rcases h with h | ⟨c, hc, h⟩
  · rw [h]
    simp
  · rw [Option.mem_def.mp hc, Option.any_some, h]
    simp

/-- A candidate at which the rule ends the series cuts the walk. -/
theorem cut_of_cutOff {t t' : Tally} {c : Temporal} (h : s.cutOff t.counted c = true)
    (seen : t'.lastSeen = some c) (le : t.counted ≤ t'.counted) : s.Cut t' := by
  rcases Bool.or_eq_true_iff.mp h with reached | past
  · obtain ⟨n, hn, reached⟩ := (Option.any_eq_true _ _).mp reached
    refine .inl ((Option.any_eq_true _ _).mpr ⟨n, hn, decide_eq_true_iff.mpr ?_⟩)
    exact Nat.le_trans (decide_eq_true_iff.mp reached) le
  · exact .inr ⟨c, seen, past⟩

/-- Once a walk is cut, the rule ends the series at every later candidate. -/
theorem cutOff_of_cut (hl : s.LastKept) {t : Tally} {c : Temporal} (cut : s.Cut t)
    (own : c.SameKind s.seed)
    (seen : ∀ a ∈ t.lastSeen, a.SameKind s.seed ∧ s.key a ≤ s.key c) :
    s.cutOff t.counted c = true := by
  rcases cut with reached | ⟨a, ha, past⟩
  · exact Bool.or_eq_true_iff.mpr (.inl reached)
  · obtain ⟨kind, le⟩ := seen a ha
    exact Bool.or_eq_true_iff.mpr (.inr (hl a c kind own le past))

/-- A candidate at which the rule ends the series is met, and maybe counted, but not listed. -/
theorem sift_at_cutOff {t : Tally} {c : Temporal} (found : List Temporal)
    (h : s.cutOff t.counted c = true) :
    ∃ t', s.sift (t, found) c = (t', found) ∧ t'.lastSeen = some c ∧ t.counted ≤ t'.counted := by
  by_cases low : s.key c ≤ s.mark t
  · exact ⟨_, sift_of_le_mark low, rfl, Nat.le_refl _⟩
  · have above : s.mark t < s.key c := by omega
    cases inside : s.inside c with
    | false => exact ⟨_, sift_of_outside above inside, rfl, Nat.le_succ _⟩
    | true => exact ⟨_, sift_of_cutOff above inside h, rfl, Nat.le_refl _⟩

/-- **A cut stays a cut, and nothing is found behind it**, as long as candidates ascend. -/
theorem foldl_sift_of_cut (hl : s.LastKept) {cs : List Temporal}
    (kind : ∀ c ∈ cs, c.SameKind s.seed) (asc : cs.Pairwise fun a b => s.key a < s.key b) :
    ∀ (t : Tally) (found : List Temporal), s.Cut t →
      (∀ a ∈ t.lastSeen, a.SameKind s.seed ∧ ∀ c ∈ cs, s.key a ≤ s.key c) →
      ∃ t', cs.foldl s.sift (t, found) = (t', found) ∧ s.Cut t' := by
  induction cs with
  | nil => exact fun t found cut _ => ⟨t, rfl, cut⟩
  | cons c rest ih =>
    intro t found cut seen
    obtain ⟨first, later⟩ := List.pairwise_cons.mp asc
    have own := kind c List.mem_cons_self
    have cutOff := cutOff_of_cut hl cut own fun a ha =>
      ⟨(seen a ha).1, (seen a ha).2 c List.mem_cons_self⟩
    obtain ⟨t', e, hseen, le⟩ := sift_at_cutOff found cutOff
    rw [List.foldl_cons, e]
    refine ih (fun a ha => kind a (List.mem_cons_of_mem c ha)) later t' found
      (cut_of_cutOff cutOff hseen le) fun a ha => ?_
    rw [hseen] at ha
    cases ha
    exact ⟨own, fun b hb => Int.le_of_lt (first b hb)⟩

/-- **Sifting one candidate harvests it**, and leaves the walk cut, or open and ready to harvest the
    rest. -/
theorem sift_spec {t : Tally} {c : Temporal} (own : c.SameKind s.seed) (found : List Temporal) :
    ∃ t' more, s.sift (t, found) c = (t', more.reverse ++ found) ∧ t'.lastSeen = some c ∧
      ((s.Cut t' ∧ ∀ rest, s.harvest t.counted (climb s.key (s.mark t) (c :: rest)) = more) ∨
        (s.Open t' ∧ ∀ rest, s.harvest t.counted (climb s.key (s.mark t) (c :: rest)) =
          more ++ s.harvest t'.counted (climb s.key (s.mark t') rest))) := by
  by_cases low : s.key c ≤ s.mark t
  · refine ⟨{ t with lastSeen := some c }, [], sift_of_le_mark low, rfl, .inr ⟨?_, fun rest => ?_⟩⟩
    · intro a ha
      cases ha
      exact ⟨own, low⟩
    · rw [climb_cons_of_not_lt rest (by omega)]
      rfl
  · have above : s.mark t < s.key c := by omega
    cases cut : s.cutOff t.counted c with
    | true =>
      obtain ⟨t', e, seen, le⟩ := sift_at_cutOff found cut
      refine ⟨t', [], e, seen, .inl ⟨cut_of_cutOff cut seen le, fun rest => ?_⟩⟩
      rw [climb_cons_of_lt rest above, harvest_of_cutOff _ cut]
    | false =>
      have counted : s.Open (({ t with lastSeen := some c } : Tally).count c) := fun a ha => by
        cases ha
        rw [mark_count above]
        exact ⟨own, Int.le_refl _⟩
      cases inside : s.inside c with
      | false =>
        refine ⟨_, [], sift_of_outside above inside, rfl, .inr ⟨counted, fun rest => ?_⟩⟩
        rw [climb_cons_of_lt rest above, harvest_of_not_cutOff _ cut, inside, mark_count above]
        rfl
      | true =>
        refine ⟨_, [c], sift_of_listed above inside cut, rfl, .inr ⟨counted, fun rest => ?_⟩⟩
        rw [climb_cons_of_lt rest above, harvest_of_not_cutOff _ cut, inside, mark_count above]
        rfl

/-- **Sifting ascending candidates harvests those above the mark**, and leaves the walk cut, or open
    and ready to harvest the rest. -/
theorem foldl_sift_eq (hl : s.LastKept) {cs : List Temporal} (kind : ∀ c ∈ cs, c.SameKind s.seed)
    (asc : cs.Pairwise fun a b => s.key a < s.key b) (rest : List Temporal) :
    ∀ (t : Tally) (found : List Temporal), s.Open t →
      ∃ t' more, cs.foldl s.sift (t, found) = (t', more.reverse ++ found) ∧
        (s.Cut t' ∧ s.harvest t.counted (climb s.key (s.mark t) (cs ++ rest)) = more ∨
          s.Open t' ∧ s.harvest t.counted (climb s.key (s.mark t) (cs ++ rest)) =
            more ++ s.harvest t'.counted (climb s.key (s.mark t') rest)) := by
  induction cs with
  | nil => exact fun t found opened => ⟨t, [], rfl, .inr ⟨opened, rfl⟩⟩
  | cons c later ih =>
    intro t found opened
    obtain ⟨first, asc'⟩ := List.pairwise_cons.mp asc
    have own := kind c List.mem_cons_self
    have kind' := fun a ha => kind a (List.mem_cons_of_mem c ha)
    obtain ⟨t', more, e, seen, cut | opened'⟩ := sift_spec own found
    · obtain ⟨cut, all⟩ := cut
      obtain ⟨t'', e', cut'⟩ := foldl_sift_of_cut hl kind' asc' t' (more.reverse ++ found) cut
        fun a ha => by
          rw [seen] at ha
          cases ha
          exact ⟨own, fun b hb => Int.le_of_lt (first b hb)⟩
      refine ⟨t'', more, ?_, .inl ⟨cut', all (later ++ rest)⟩⟩
      rw [List.foldl_cons, e, e']
    · obtain ⟨opened', all⟩ := opened'
      obtain ⟨t'', more', e', h⟩ := ih kind' asc' t' (more.reverse ++ found) opened'
      refine ⟨t'', more ++ more', ?_, ?_⟩
      · rw [List.foldl_cons, e, e', List.reverse_append, List.append_assoc]
      · rw [List.cons_append, all (later ++ rest), List.append_assoc]
        rcases h with ⟨cut', h⟩ | ⟨opened'', h⟩
        · exact .inl ⟨cut', by rw [h]⟩
        · exact .inr ⟨opened'', by rw [h]⟩

/-! ## 3. What a walk finds -/

theorem harvest_of_forall_cutOff {counted : Nat} {l : List Temporal}
    (h : ∀ c ∈ l, s.cutOff counted c = true) : s.harvest counted l = [] := by
  cases l with
  | nil => rfl
  | cons c rest => exact harvest_of_cutOff rest (h c List.mem_cons_self)

theorem harvest_of_forall_outside {counted : Nat} {l : List Temporal}
    (h : ∀ c ∈ l, s.inside c = false) : s.harvest counted l = [] := by
  induction l generalizing counted with
  | nil => rfl
  | cons c rest ih =>
    cases cut : s.cutOff counted c with
    | true => exact harvest_of_cutOff rest cut
    | false =>
      rw [harvest_of_not_cutOff rest cut, h c List.mem_cons_self, if_neg (by simp)]
      exact ih fun a ha => h a (List.mem_cons_of_mem c ha)

/-- **A finished walk misses nothing**: of what lies ahead and above its mark, nothing is
    harvested. -/
theorem harvest_of_finished (hl : s.LastKept) {w : Walk} (opened : s.Open w.tally)
    (h : s.finished w = true) :
    s.harvest w.tally.counted (climb s.key (s.mark w.tally) (s.ahead w.increment w.empties)) =
      [] := by
  unfold finished at h
  rcases Bool.or_eq_true_iff.mp h with h | guard
  · rcases Bool.or_eq_true_iff.mp h with seen | reached
    · obtain ⟨a, ha, h⟩ := (Option.any_eq_true _ _).mp seen
      obtain ⟨kind, low⟩ := opened a ha
      rcases Bool.or_eq_true_iff.mp h with past | past
      · refine harvest_of_forall_cutOff fun c hc => Bool.or_eq_true_iff.mpr (.inr ?_)
        obtain ⟨mem, above⟩ := mem_of_mem_climb hc
        exact hl a c kind (sameKind_of_mem_ahead mem) (by omega) past
      · refine harvest_of_forall_outside fun c hc => outside_iff.mp (Bool.or_eq_true_iff.mpr (.inr ?_))
        have above := (mem_of_mem_climb hc).2
        obtain ⟨stop, hs, after⟩ := (Option.any_eq_true _ _).mp past
        refine (Option.any_eq_true _ _).mpr ⟨stop, hs, Comparator.after_iff.mpr ?_⟩
        have := Comparator.after_iff.mp after
        unfold key at *
        omega
    · exact harvest_of_forall_cutOff fun c _ => Bool.or_eq_true_iff.mpr (.inl reached)
  · rw [ahead_of_guard guard]
    rfl

/-- **What an open walk still finds**: the harvest of the candidates ahead that rise above its
    mark. -/
theorem valuesFrom_eq (hl : s.LastKept) (w : Walk) (opened : s.Open w.tally) :
    s.valuesFrom w =
      s.harvest w.tally.counted
        (climb s.key (s.mark w.tally) (s.ahead w.increment w.empties)) := by
  cases go : s.finished w with
  | true => rw [valuesFrom_of_none (step_eq_none_of_finished go), harvest_of_finished hl opened go]
  | false =>
    cases hp : s.rule.incrementStart? s.origin w.increment with
    | none =>
      rw [valuesFrom_of_none (step_eq_none_of_incrementStart? hp), ahead_of_none hp]
      rfl
    | some period =>
      have guard := (Bool.or_eq_false_iff.mp go).2
      have nearer := Rule.incrementStart?_lt_horizon hp
      rw [valuesFrom_of_some (step_eq_of_not_finished go hp), ahead_of_some guard hp]
      generalize s.emptiesAfter w.empties period = empties
      obtain ⟨t', more, e, h⟩ := foldl_sift_eq hl (fun c hc => sameKind_of_mem_candidates hc)
        (s.pairwise_candidates period) (s.ahead (w.increment + 1) empties) w.tally [] opened
      have all : s.siftAll w.tally (s.candidates period) = (t', more.reverse) := by
        unfold siftAll
        rw [e, List.append_nil]
      rw [all, List.reverse_reverse]
      rcases h with ⟨cut, e'⟩ | ⟨open', e'⟩
      · have stuck := step_eq_none_of_finished
          (@finished_of_cut s ⟨w.increment + 1, empties, t'⟩ cut)
        rw [e', valuesFrom_of_none stuck, List.append_nil]
      · rw [e', valuesFrom_eq hl ⟨w.increment + 1, empties, t'⟩ open']
termination_by horizon - w.increment

/-- What lies above the seed on the whole way from an increment on. -/
def course (s : Series) (k : Nat) : List Temporal :=
  climb s.key (s.key s.seed - 1) (s.ahead k 0)

/-- **The values of a series** are the harvest of its course. -/
theorem toList_eq (hl : s.LastKept) : s.toList = s.harvest 0 (s.course s.setOut.increment) :=
  valuesFrom_eq hl s.setOut fun _ h => by cases h

end Almanac.Series
