import Almanac.Proofs.Calendar.Clock
import Almanac.Zone.GapPolicy
import Almanac.Zone.Table

/-!
# Looking up civil times in a zone

A zone tells the civil time of an instant by its changes, and the instants of a civil time by the
same changes. This file fixes

* what clocks show at an instant, if the calendar reaches that far (`Zone.shown?`);
* **a zone whose look-up is exact** (`Zone.Exact`): it finds just the instants at which clocks show
  a civil time, and never more than two;
* that changes in order make every reading right (`Zone.mem_readingsFrom_iff`), and that changes
  which are more than two days apart and shift clocks by no more than a day make none but adjacent
  stretches show one time (`Zone.length_readingsFrom_le_two`), so that **the look-up of such a zone
  is exact** (`Zone.Spaced.exact`). Every zone with a name is such a zone.
-/

namespace Almanac.Zone

variable {zone : Zone} {since : Option Int} {offset shown stamp : Int} {rest : List Transition}
  {i c : Civil}

/-! ## 1. What clocks show -/

theorem shown?_eq_some_iff :
    zone.shown? i = some c ↔ c.stamp = i.stamp + zone.offsetAt i ∧ c.leap = i.leap :=
  Civil.ofStamp?_eq_some_iff

/-- What clocks show is the local time. -/
theorem localTime_of_shown? (h : zone.shown? i = some c) : zone.localTime i = c := by
  obtain ⟨stamp, leap⟩ := shown?_eq_some_iff.mp h
  have first := c.first_le
  have last := c.le_last
  unfold localTime Civil.shift Civil.nearest
  rw [dif_neg (by omega), dif_neg (by omega)]
  exact Civil.ext stamp.symm leap.symm

/-- An offset that is in force is one of the zone. -/
theorem offsetFrom_mem (offset : Int) (ts : List Transition) (stamp : Int) :
    offsetFrom offset ts stamp ∈ offset :: ts.map Transition.offset := by
  induction ts generalizing offset with
  | nil => exact List.mem_cons_self
  | cons t rest ih =>
    unfold offsetFrom
    split
    · exact List.mem_cons_self
    · exact List.mem_cons_of_mem offset (ih t.offset)

/-- Clocks that are never more than a day ahead or behind. -/
def WithinDay (zone : Zone) : Prop := ∀ i, (zone.offsetAt i).natAbs ≤ 86400

theorem withinDay_of_offsets
    (h : ∀ o ∈ zone.initial :: zone.transitions.map Transition.offset, o.natAbs ≤ 86400) :
    zone.WithinDay :=
  fun i => h _ (offsetFrom_mem zone.initial zone.transitions i.stamp)

/-- Away from the ends of the calendar, such clocks show a time of the calendar. -/
theorem WithinDay.shown?_isSome (h : zone.WithinDay) (low : firstStamp + 86400 ≤ i.stamp)
    (high : i.stamp + 86400 ≤ lastStamp) : (zone.shown? i).isSome := by
  have := h i
  unfold shown? Civil.shift? Civil.ofStamp?
  rw [dif_pos (by omega)]
  rfl

/-- **A zone whose look-up is exact.** For every civil time it finds just the instants at which the
    zone's clocks show it, and these are never more than two. -/
structure Exact (zone : Zone) : Prop where
  mem_readings_iff : ∀ c i, i ∈ zone.readings c ↔ zone.shown? i = some c
  at_most_two : ∀ c, (zone.readings c).length ≤ 2

/-! ## 2. Changes in order -/

/-- Changes ahead, after an offset that has been in force since an instant: each is more than two
    days after the one before, and shifts clocks by a day at most. -/
def SpacedFrom (since : Option Int) (offset : Int) : List Transition → Prop
  | [] => True
  | t :: rest => (∀ s ∈ since, s + 172800 < t.instant) ∧ (t.offset - offset).natAbs ≤ 86400 ∧
      SpacedFrom (some t.instant) t.offset rest

/-- Changes that are more than two days apart and shift clocks by a day at most. -/
def Spaced (zone : Zone) : Prop := SpacedFrom none zone.initial zone.transitions

instance decidableSpacedFrom (since : Option Int) (offset : Int) :
    (ts : List Transition) → Decidable (SpacedFrom since offset ts)
  | [] => isTrue trivial
  | t :: rest =>
    have := decidableSpacedFrom (some t.instant) t.offset rest
    inferInstanceAs (Decidable (_ ∧ _ ∧ _))

instance (zone : Zone) : Decidable zone.Spaced := decidableSpacedFrom none _ _

theorem all_le_iff {bound : Int} : since.all (· ≤ bound) = true ↔ ∀ s ∈ since, s ≤ bound := by
  cases since with
  | none => simp
  | some s => simp

/-- A reading lies in the first stretch, or further ahead. -/
theorem mem_readingsFrom_cons {t : Transition} :
    stamp ∈ readingsFrom since offset (t :: rest) shown ↔
      ((∀ s ∈ since, s ≤ stamp) ∧ stamp < t.instant ∧ stamp + offset = shown) ∨
        stamp ∈ readingsFrom (some t.instant) t.offset rest shown := by
  have first : stamp + offset = shown ↔ stamp = shown - offset := by omega
  simp only [readingsFrom, all_le_iff, first]
  split
  · rename_i here
    rw [List.mem_cons]
    refine or_congr ⟨?_, fun h => h.2.2⟩ Iff.rfl
    rintro rfl
    exact ⟨here.1, here.2, rfl⟩
  · rename_i nowhere
    refine (or_iff_right ?_).symm
    rintro ⟨from', to', rfl⟩
    exact nowhere ⟨from', to'⟩

/-- **A reading is an instant of the stretches ahead at which clocks show the time.** -/
theorem mem_readingsFrom_iff {ts : List Transition} (h : SpacedFrom since offset ts) :
    stamp ∈ readingsFrom since offset ts shown ↔
      (∀ s ∈ since, s ≤ stamp) ∧ stamp + offsetFrom offset ts stamp = shown := by
  induction ts generalizing since offset with
  | nil =>
    have first : stamp + offset = shown ↔ stamp = shown - offset := by omega
    simp only [readingsFrom, offsetFrom, all_le_iff, first]
    split
    · rename_i here
      rw [List.mem_singleton]
      refine ⟨?_, fun h => h.2⟩
      rintro rfl
      exact ⟨here, rfl⟩
    · rename_i nowhere
      refine ⟨fun h => absurd h List.not_mem_nil, ?_⟩
      rintro ⟨from', rfl⟩
      exact absurd from' nowhere
  | cons t rest ih =>
    obtain ⟨apart, -, ahead⟩ := h
    rw [mem_readingsFrom_cons, ih ahead, offsetFrom]
    by_cases before : stamp < t.instant
    · rw [if_pos before]
      constructor
      · rintro (⟨from', -, shows⟩ | ⟨from', -⟩)
        · exact ⟨from', shows⟩
        · have := from' t.instant rfl
          omega
      · rintro ⟨from', shows⟩
        exact .inl ⟨from', before, shows⟩
    · rw [if_neg before]
      constructor
      · rintro (⟨-, to', -⟩ | ⟨from', shows⟩)
        · exact absurd to' before
        · refine ⟨fun s hs => ?_, shows⟩
          have := apart s hs
          omega
      · rintro ⟨-, shows⟩
        refine .inr ⟨fun s hs => ?_, shows⟩
        cases hs
        omega

/-! ## 3. How many readings there are -/

/-- Clocks drift from an offset by half of the time that has passed at most. -/
theorem drift_of_mem_readingsFrom {start : Int} {ts : List Transition}
    (h : SpacedFrom (some start) offset ts) (mem : stamp ∈ readingsFrom (some start) offset ts shown) :
    2 * (shown - offset - stamp).natAbs ≤ stamp - start := by
  induction ts generalizing start offset with
  | nil =>
    have := (mem_readingsFrom_iff h).mp mem
    have from' := this.1 start rfl
    have shows : stamp + offset = shown := this.2
    omega
  | cons t rest ih =>
    obtain ⟨apart, shift, ahead⟩ := h
    have apart := apart start rfl
    rcases mem_readingsFrom_cons.mp mem with ⟨from', -, shows⟩ | later
    · have from' := from' start rfl
      omega
    · have drift := ih ahead later
      omega

/-- Where clocks are past a time when a stretch begins, they do not show it any more. -/
theorem readingsFrom_eq_nil {start : Int} {ts : List Transition}
    (h : SpacedFrom (some start) offset ts) (past : shown - offset < start) :
    readingsFrom (some start) offset ts shown = [] := by
  refine List.eq_nil_iff_forall_not_mem.mpr fun stamp mem => ?_
  have drift := drift_of_mem_readingsFrom h mem
  have := ((mem_readingsFrom_iff h).mp mem).1 start rfl
  omega

/-- After a reading in the stretch before there is at most one. -/
theorem length_readingsFrom_le_one {start before : Int} {ts : List Transition}
    (h : SpacedFrom (some start) offset ts) (shift : (offset - before).natAbs ≤ 86400)
    (earlier : shown - before < start) : (readingsFrom (some start) offset ts shown).length ≤ 1 := by
  cases ts with
  | nil =>
    unfold readingsFrom
    split
    · exact Nat.le_refl 1
    · exact Nat.zero_le 1
  | cons t rest =>
    obtain ⟨apart, shift', ahead⟩ := h
    have apart := apart start rfl
    have none : readingsFrom (some t.instant) t.offset rest shown = [] :=
      readingsFrom_eq_nil ahead (by omega)
    simp only [readingsFrom, none]
    split
    · exact Nat.le_refl 1
    · exact Nat.zero_le 1

/-- **Only adjacent stretches show one time.** -/
theorem length_readingsFrom_le_two {ts : List Transition} (h : SpacedFrom since offset ts) :
    (readingsFrom since offset ts shown).length ≤ 2 := by
  induction ts generalizing since offset with
  | nil =>
    unfold readingsFrom
    split
    · exact Nat.le_succ 1
    · exact Nat.zero_le 2
  | cons t rest ih =>
    obtain ⟨-, shift, ahead⟩ := h
    simp only [readingsFrom]
    split
    · rename_i here
      exact Nat.succ_le_succ (length_readingsFrom_le_one ahead shift here.2)
    · exact ih ahead

/-! ## 4. Exact look-ups -/

/-- **The look-up of a zone is exact** when its changes are more than two days apart and shift clocks
    by a day at most. -/
theorem Spaced.exact (h : zone.Spaced) : zone.Exact where
  mem_readings_iff c i := by
    unfold readings
    simp only [List.mem_filterMap, Civil.ofStamp?_eq_some_iff, shown?_eq_some_iff]
    constructor
    · rintro ⟨stamp, mem, rfl, leap⟩
      obtain ⟨-, shows⟩ := (mem_readingsFrom_iff h).mp mem
      exact ⟨shows.symm, leap.symm⟩
    · rintro ⟨shows, leap⟩
      exact ⟨i.stamp, (mem_readingsFrom_iff h).mpr ⟨nofun, shows.symm⟩, rfl,
        leap.symm⟩
  at_most_two c :=
    Nat.le_trans (List.length_filterMap_le _ _) (length_readingsFrom_le_two h)

theorem spaced_of_mem_zones : ∀ zone ∈ ZoneTable.zones, zone.Spaced := by
  decide +kernel

theorem withinDay_of_mem_zones : ∀ zone ∈ ZoneTable.zones, zone.WithinDay := fun zone hz =>
  withinDay_of_offsets ((show ∀ zone ∈ ZoneTable.zones, ∀ o ∈ zone.initial ::
    zone.transitions.map Transition.offset, o.natAbs ≤ 86400 by decide +kernel) zone hz)

/-- **The look-up of every zone with a name is exact**, and its clocks are within a day. -/
theorem exact_of_named? {name : String} (h : named? name = some zone) :
    zone.Exact ∧ zone.WithinDay := by
  obtain ⟨known, found, rfl⟩ := Option.map_eq_some_iff.mp h
  have mem := List.mem_of_find?_eq_some found
  have spaced : Spaced { known with name := name } := spaced_of_mem_zones known mem
  exact ⟨spaced.exact, withinDay_of_mem_zones known mem⟩

/-! ## 5. Resolving -/

/-- Where there is a reading, no policy has a say. -/
theorem resolve_of_earliest? (policy : GapPolicy) (h : zone.earliest? c = some i) :
    policy.resolve zone c = some i := by
  cases policy with
  | skip => exact h
  | shiftForward =>
    show some (zone.settle c) = some i
    rw [settle, h, Option.getD_some]

end Almanac.Zone
