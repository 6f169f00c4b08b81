import Almanac.Proofs.Series.Sift

/-!
# Series ascend within their bounds

Whatever the rule, its settings, the kind of the seed and the window, a series ascends strictly and
no value of it breaks a bound. Candidates of one increment may lie among those of another, so this
does not rest on the order of the increments, but on what every stretch of a walk keeps
(`Series.Gain`): the mark does not fall, and what is found lies above the mark before and not above
the mark after. Stretches are put together end to end (`Gain.trans`), candidate by candidate
(`gain_siftAll`) and then step by step (`exists_gain_valuesFrom`).
-/

namespace Almanac.Series

variable {s : Series}

/-- Whether a value is a candidate of some increment. -/
def Offers (s : Series) (c : Temporal) : Prop :=
  ∃ k period, s.rule.incrementStart? s.origin k = some period ∧ c ∈ s.candidates period

/-- **What an occurrence of a series keeps to.** -/
structure Proper (s : Series) (c : Temporal) : Prop where
  offered : s.Offers c
  notBeforeSeed : s.key s.seed ≤ s.key c
  inside : s.inside c = true
  notBeyond : s.exceedsLast c = false

theorem Proper.kind {c : Temporal} (h : s.Proper c) : c.SameKind s.seed := by
  obtain ⟨_, _, -, mem⟩ := h.offered
  exact sameKind_of_mem_candidates mem

/-- **What a stretch of a walk adds**, between the tallies before and after it. -/
structure Gain (s : Series) (t : Tally) (more : List Temporal) (t' : Tally) : Prop where
  rises : s.mark t ≤ s.mark t'
  ascends : more.Pairwise fun a b => s.key a < s.key b
  above : ∀ c ∈ more, s.mark t < s.key c
  upTo : ∀ c ∈ more, s.key c ≤ s.mark t'
  counted : t.counted + more.length ≤ t'.counted
  within : ∀ n ∈ s.rule.parts.count?, more = [] ∨ t.counted + more.length ≤ n
  proper : ∀ c ∈ more, s.Proper c

namespace Gain

/-- A stretch on which nothing is found. -/
theorem of_nil {t t' : Tally} (rises : s.mark t ≤ s.mark t') (counted : t.counted ≤ t'.counted) :
    s.Gain t [] t' where
  rises := rises
  ascends := .nil
  above _ h := absurd h List.not_mem_nil
  upTo _ h := absurd h List.not_mem_nil
  counted := counted
  within _ _ := .inl rfl
  proper _ h := absurd h List.not_mem_nil

/-- **Stretches put together end to end.** -/
theorem trans {t t' t'' : Tally} {a b : List Temporal} (h : s.Gain t a t') (h' : s.Gain t' b t'') :
    s.Gain t (a ++ b) t'' where
  rises := Int.le_trans h.rises h'.rises
  ascends := by
    refine List.pairwise_append.mpr ⟨h.ascends, h'.ascends, fun x hx y hy => ?_⟩
    have := h.upTo x hx
    have := h'.above y hy
    omega
  above c hc := by
    rcases List.mem_append.mp hc with hc | hc
    · exact h.above c hc
    · exact Int.lt_of_le_of_lt h.rises (h'.above c hc)
  upTo c hc := by
    rcases List.mem_append.mp hc with hc | hc
    · exact Int.le_trans (h.upTo c hc) h'.rises
    · exact h'.upTo c hc
  counted := by
    have := h.counted
    have := h'.counted
    rw [List.length_append]
    omega
  within n hn := by
    have := h.counted
    rcases h'.within n hn with rfl | hb
    · rw [List.append_nil]
      exact h.within n hn
    · right
      rw [List.length_append]
      omega
  proper c hc := by
    rcases List.mem_append.mp hc with hc | hc
    · exact h.proper c hc
    · exact h'.proper c hc

end Gain

/-- One candidate: what sifting it adds. -/
theorem gain_sift (s : Series) (t : Tally) (found : List Temporal) {c : Temporal}
    (offered : s.Offers c) : ∃ more, (s.sift (t, found) c).2 = more.reverse ++ found ∧
      s.Gain t more (s.sift (t, found) c).1 := by
  by_cases low : s.key c ≤ s.mark t
  · rw [sift_of_le_mark low]
    exact ⟨[], rfl, .of_nil (Int.le_refl _) (Nat.le_refl _)⟩
  · have above : s.mark t < s.key c := by omega
    have rises : s.mark t ≤ s.mark (({ t with lastSeen := some c } : Tally).count c) := by
      rw [mark_count above]
      omega
    cases inside : s.inside c with
    | false =>
      rw [sift_of_outside above inside]
      exact ⟨[], rfl, .of_nil rises (Nat.le_succ _)⟩
    | true =>
      cases cut : s.cutOff t.counted c with
      | true =>
        rw [sift_of_cutOff above inside cut]
        exact ⟨[], rfl, .of_nil (Int.le_refl _) (Nat.le_refl _)⟩
      | false =>
        rw [sift_of_listed above inside cut]
        obtain ⟨open', notBeyond⟩ := Bool.or_eq_false_iff.mp cut
        have seed := s.seed_le_mark t
        refine ⟨[c], rfl, rises, List.pairwise_singleton _ c, ?_, ?_, Nat.le_refl _, ?_, ?_⟩
        · intro a ha
          rw [List.mem_singleton.mp ha]
          exact above
        · intro a ha
          rw [List.mem_singleton.mp ha]
          exact Int.le_of_eq (mark_count above (some c)).symm
        · intro n hn
          rw [Option.mem_def.mp hn, Option.any_some, decide_eq_false_iff_not] at open'
          exact .inr (by rw [List.length_singleton]; omega)
        · intro a ha
          rw [List.mem_singleton.mp ha]
          exact ⟨offered, by omega, inside, notBeyond⟩

/-- Several candidates: what sifting them adds. -/
theorem gain_foldl_sift (s : Series) {cs : List Temporal} (offered : ∀ c ∈ cs, s.Offers c) :
    ∀ (t : Tally) (found : List Temporal), ∃ more,
      (cs.foldl s.sift (t, found)).2 = more.reverse ++ found ∧
        s.Gain t more (cs.foldl s.sift (t, found)).1 := by
  induction cs with
  | nil => exact fun t found => ⟨[], rfl, .of_nil (Int.le_refl _) (Nat.le_refl _)⟩
  | cons c rest ih =>
    intro t found
    obtain ⟨first, e, gain⟩ := gain_sift s t found (offered c List.mem_cons_self)
    obtain ⟨later, e', gain'⟩ := ih (fun a ha => offered a (List.mem_cons_of_mem c ha))
      (s.sift (t, found) c).1 (s.sift (t, found) c).2
    refine ⟨first ++ later, ?_, gain.trans gain'⟩
    rw [List.foldl_cons, e', e, List.reverse_append, List.append_assoc]

/-- An increment: what its candidates add. -/
theorem gain_siftAll (s : Series) (t : Tally) {k : Nat} {period : Civil}
    (hperiod : s.rule.incrementStart? s.origin k = some period) :
    s.Gain t (s.siftAll t (s.candidates period)).2.reverse
      (s.siftAll t (s.candidates period)).1 := by
  obtain ⟨more, e, gain⟩ := gain_foldl_sift s (fun c hc => ⟨k, period, hperiod, hc⟩) t []
  unfold siftAll
  rw [e, List.append_nil, List.reverse_reverse]
  exact gain

/-- **A whole walk**: what it finds is the gain of its stretch. -/
theorem exists_gain_valuesFrom (s : Series) (w : Walk) :
    ∃ t, s.Gain w.tally (s.valuesFrom w) t := by
  cases h : s.step w with
  | none =>
    rw [valuesFrom_of_none h]
    exact ⟨w.tally, .of_nil (Int.le_refl _) (Nat.le_refl _)⟩
  | some result =>
    obtain ⟨more, next⟩ := result
    obtain ⟨-, period, hperiod, rfl, rfl⟩ := step_cases h
    have closer := increment_of_step h
    obtain ⟨t, rest⟩ := s.exists_gain_valuesFrom
      ⟨w.increment + 1, s.emptiesAfter w.empties period,
        (s.siftAll w.tally (s.candidates period)).1⟩
    rw [valuesFrom_of_some h]
    exact ⟨t, (gain_siftAll s w.tally hperiod).trans rest⟩
termination_by horizon - w.increment
decreasing_by omega

/-- What a series lists keeps to all its bounds. -/
theorem proper_of_mem_toList (s : Series) {c : Temporal} (h : c ∈ s.toList) : s.Proper c := by
  obtain ⟨_, gain⟩ := s.exists_gain_valuesFrom s.setOut
  exact gain.proper c h

/-- **Every series ascends strictly and respects all its bounds**: its values are of the seed's
    kind, none is before the seed or outside the window, none goes beyond the last value of the
    rule, and there are no more of them than the rule counts. The candidates of a single increment
    ascend as well. -/
theorem toList_ascends_within_bounds (s : Series) :
    (s.toList.Pairwise fun a b => s.comparator.before a b = true) ∧
      (∀ t ∈ s.toList, t.SameKind s.seed ∧ s.comparator.before t s.seed = false ∧
        (∀ start ∈ s.start, s.comparator.before t start = false) ∧
        (∀ stop ∈ s.stop, s.comparator.after t stop = false) ∧
        ∀ last ∈ s.rule.parts.last?, s.comparator.beyond last t = false) ∧
      (∀ n ∈ s.rule.parts.count?, s.toList.length ≤ n) ∧
      ∀ root period : Temporal, (s.rule.candidates root period).Pairwise fun a b =>
        (Comparator.forSeed root).before a b = true := by
  obtain ⟨_, gain⟩ := s.exists_gain_valuesFrom s.setOut
  refine ⟨?_, fun t ht => ?_, fun n hn => ?_, fun root period => ?_⟩
  · exact gain.ascends.imp Comparator.before_iff.mpr
  · have proper := s.proper_of_mem_toList ht
    obtain ⟨start, stop⟩ := inside_iff.mp proper.inside
    exact ⟨proper.kind, Comparator.before_eq_false_iff.mpr proper.notBeforeSeed, start, stop,
      exceedsLast_eq_false_iff.mp proper.notBeyond⟩
  · rcases gain.within n hn with none | few
    · show (s.valuesFrom s.setOut).length ≤ n
      rw [none]
      exact Nat.zero_le n
    · exact Nat.le_trans (Nat.le_add_left _ _) few
  · exact (s.rule.pairwise_candidatesAt root _ _).imp Comparator.before_iff.mpr

end Almanac.Series
