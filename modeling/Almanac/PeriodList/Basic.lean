import Almanac.Period.Parser

/-!
# Lists of periods

A period list is a set of periods, kept in the order of periods. This file fixes

* **the members ascend strictly** (`PeriodList.ascending`), so no two of them are the same, and the
  bound is part of the type;
* periods that are the same may still be written differently. `insert` keeps the one that is already
  there; `ofList` keeps the last one;
* `normalise` merges the date-time members that overlap or touch and drops the empty ones, in one
  sweep from the front; date members pass through;
* `subtract` takes the members of one list away from those of another, one after the other.
-/

namespace Almanac

/-- A set of periods in ascending order. -/
structure PeriodList where
  members : List Period
  ascending : members.Pairwise fun p q => Period.compare p q = .lt

namespace PeriodList

/-! ## 1. Members -/

/-- The list without members. -/
def empty : PeriodList := ⟨[], .nil⟩

instance : EmptyCollection PeriodList := ⟨empty⟩

instance : Inhabited PeriodList := ⟨empty⟩

/-- The number of members. -/
def size (l : PeriodList) : Nat := l.members.length

/-- Whether there are no members. -/
def isEmpty (l : PeriodList) : Bool := l.members.isEmpty

/-- The least member. -/
def first? (l : PeriodList) : Option Period := l.members.head?

/-- Whether some member is the same as a period. -/
def contains (l : PeriodList) (p : Period) : Bool := l.members.any (Period.same p)

/-- Lists are the same when their members are, pair by pair. -/
def same (a b : PeriodList) : Bool := a.members.isEqv b.members Period.same

/-! ## 2. Insertion -/

/-- A period put into ascending members. Where `keep` holds, a member that is the same stays;
    otherwise the new period takes its place. -/
def place (keep : Bool) (p : Period) : List Period → List Period
  | [] => [p]
  | q :: rest =>
    match Period.compare p q with
    | .lt => p :: q :: rest
    | .eq => (if keep then q else p) :: rest
    | .gt => q :: place keep p rest

theorem compare_lt_of_mem_place {keep : Bool} {p r : Period} {members : List Period}
    (hp : Period.compare r p = .lt) (hm : ∀ q ∈ members, Period.compare r q = .lt) :
    ∀ q ∈ place keep p members, Period.compare r q = .lt := by
  induction members with
  | nil => simpa [place] using hp
  | cons q rest ih =>
    intro x hx
    simp only [place] at hx
    split at hx
    · rcases List.mem_cons.1 hx with rfl | hx
      · exact hp
      · exact hm x hx
    · rcases List.mem_cons.1 hx with rfl | hx
      · split
        · exact hm q (by simp)
        · exact hp
      · exact hm x (by simp [hx])
    · rcases List.mem_cons.1 hx with rfl | hx
      · exact hm x (by simp)
      · exact ih (fun y hy => hm y (by simp [hy])) x hx

/-- Putting a period in its place keeps the members ascending. -/
theorem pairwise_place {keep : Bool} {p : Period} {members : List Period}
    (h : members.Pairwise fun p q => Period.compare p q = .lt) :
    (place keep p members).Pairwise fun p q => Period.compare p q = .lt := by
  induction members with
  | nil => simp [place]
  | cons q rest ih =>
    obtain ⟨hq, hrest⟩ := List.pairwise_cons.1 h
    simp only [place]
    split
    · rename_i hlt
      refine List.pairwise_cons.2 ⟨fun x hx => ?_, h⟩
      rcases List.mem_cons.1 hx with rfl | hx
      · exact hlt
      · exact Std.TransCmp.lt_trans hlt (hq x hx)
    · rename_i heq
      refine List.pairwise_cons.2 ⟨fun x hx => ?_, hrest⟩
      split
      · exact hq x hx
      · exact Std.TransCmp.lt_of_eq_of_lt heq (hq x hx)
    · rename_i hgt
      exact List.pairwise_cons.2
        ⟨compare_lt_of_mem_place (Std.OrientedCmp.gt_iff_lt.1 hgt) hq, ih hrest⟩

/-- The list with a period put in; a member that is the same stays. -/
def insert (l : PeriodList) (p : Period) : PeriodList :=
  ⟨place true p l.members, pairwise_place l.ascending⟩

/-- The list with a period put in; it takes the place of a member that is the same. -/
def replace (l : PeriodList) (p : Period) : PeriodList :=
  ⟨place false p l.members, pairwise_place l.ascending⟩

/-- Whether a search through ascending members finds a period. It ends at the first member that does
    not come before the period. -/
def finds (p : Period) : List Period → Bool
  | [] => false
  | q :: rest =>
    match Period.compare p q with
    | .lt => false
    | .eq => true
    | .gt => finds p rest

/-- Whether a period is new to the list, and the list with the period put in. -/
def tryInsert (l : PeriodList) (p : Period) : Bool × PeriodList :=
  (!finds p l.members, l.insert p)

/-- The list with periods put in one after the other. -/
def insertAll (l : PeriodList) (ps : List Period) : PeriodList :=
  ps.foldl insert l

/-- The set of some periods; of several that are the same the last one counts. -/
def ofList (ps : List Period) : PeriodList :=
  ps.foldl replace empty

/-- The list with one member. -/
def single (p : Period) : PeriodList := empty.insert p

/-! ## 3. Removal -/

/-- The members that a test keeps. -/
def filter (keep : Period → Bool) (l : PeriodList) : PeriodList :=
  ⟨l.members.filter keep, l.ascending.filter keep⟩

/-- The list without the member that is the same as a period. -/
def erase (l : PeriodList) (p : Period) : PeriodList :=
  l.filter fun q => !p.same q

/-- Whether a period was in the list, and the list without it. -/
def tryErase (l : PeriodList) (p : Period) : Bool × PeriodList :=
  (finds p l.members, l.erase p)

/-! ## 4. Normalisation -/

/-- A sweep over ascending periods: those that are done, the one that may still grow, and whether
    anything has been merged or dropped. -/
structure Sweep where
  done : PeriodList
  current : Option Period
  changed : Bool
deriving Inhabited

namespace Sweep

/-- Before the first period. -/
def start : Sweep := ⟨empty, none, false⟩

/-- The next period: a date period is done at once, an empty one is dropped, and any other one
    either adds to the current period or takes its place. -/
def step (s : Sweep) (p : Period) : Sweep :=
  if !p.isDateTime then { s with done := s.done.insert p }
  else if p.isEmpty then { s with changed := true }
  else
    match s.current with
    | none => { s with current := some p }
    | some c =>
      if c.contains p then { s with changed := true }
      else if c.intersects p || c.adjacent p then
        { s with current := some (c.cover p), changed := true }
      else { s with done := s.done.insert c, current := some p }

/-- After the last period. -/
def finish (s : Sweep) : PeriodList :=
  match s.current with
  | none => s.done
  | some c => s.done.insert c

end Sweep

/-- The list with its date-time members merged where they overlap or touch, and without empty ones.
    A list in which there is nothing to merge or drop is returned as it is. -/
def normalise (l : PeriodList) : PeriodList :=
  let sweep := l.members.foldl Sweep.step Sweep.start
  if sweep.changed then sweep.finish else l

/-! ## 5. Union and difference -/

/-- The normalised union of two lists. -/
def add (a b : PeriodList) : PeriodList :=
  (a.insertAll b.members).normalise

/-- The list with one period taken away from every member. A date member that is the same goes; any
    other date member stays. -/
def subtractOne (l : PeriodList) (p : Period) : PeriodList :=
  empty.insertAll ((l.members.filter fun q => q.isDateTime || !q.same p).flatMap (·.pieces p))

/-- The list with the members of another taken away, one after the other. -/
def subtract (a b : PeriodList) : PeriodList :=
  b.members.foldl subtractOne a

/-! ## 6. Text -/

/-- The texts of the members with commas between them. -/
def text (l : PeriodList) : String :=
  String.ofList (Text.join ',' (l.members.map fun p => p.text.toList))

/-- The list that a text writes: periods with commas between them. Empty items do not count. -/
def parse (value : String) : Except Fault PeriodList :=
  ((Text.items ',' value.toList).mapM fun item => Period.parse (String.ofList item)).map ofList

end PeriodList

end Almanac
