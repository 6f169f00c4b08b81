import Almanac.Proofs.Amount.RoundTrip
import Almanac.Proofs.Temporal.Reach

/-!
# The texts that write amounts

The reader of amounts goes through a text letter by letter. This file says what it accepts by the texts
themselves:

* a text is a row of groups (`Amount.Group`), digits with a letter behind them; in a body the letters
  are some of the given ones, each at most once and in their order (`Amount.Tagged`);
* **two grammars**: a nominal amount has groups of years, months, weeks and days
  (`Amount.WritesNominal`), an exact one perhaps a group of days, a `T`, and groups of hours, minutes
  and seconds (`Amount.WritesExact`). Each has one group at least, in the exact one behind the `T`, and
  the sums with the sign have to fit.

The letters of a body are brought to its groups by one equation (`Amount.components?_eq_some_iff`). No
text is in both grammars, for only one has a `T`. Main result: `Amount.parse_by_the_grammars`.
-/

namespace Almanac

open Numeral

namespace Amount

variable {letter c : Char} {letters cs rest body : List Char} {n : Nat} {negative : Bool} {a : Amount}

/-! ## 1. Groups -/

/-- Digits with a letter behind them. -/
structure Group where
  digits : List Char
  letter : Char

/-- The text of a row of groups. -/
def groupChars (gs : List Group) : List Char := gs.flatMap fun g => g.digits ++ [g.letter]

/-- The number that stands before a letter, zero if the letter is not there. -/
def numberAt (letter : Char) (gs : List Group) : Nat :=
  (gs.find? fun g => g.letter = letter).elim 0 fun g => value g.digits

/-- Groups with some of the given letters, each at most once and in the order given, and all of them
    with a digit. -/
structure Tagged (letters : List Char) (gs : List Group) : Prop where
  order : (gs.map Group.letter).Sublist letters
  digits : ∀ g ∈ gs, g.digits ≠ [] ∧ g.digits.all Char.isDigit = true

variable {g : Group} {gs : List Group}

theorem groupChars_cons (g : Group) (gs : List Group) :
    groupChars (g :: gs) = g.digits ++ g.letter :: groupChars gs := by
  unfold groupChars
  rw [List.flatMap_cons, List.append_assoc]
  rfl

theorem groupChars_eq_nil_iff : groupChars gs = [] ↔ gs = [] := by
  cases gs with
  | nil => exact iff_of_true rfl rfl
  | cons g gs =>
    rw [groupChars_cons]
    exact iff_of_false (List.append_ne_nil_of_right_ne_nil _ (List.cons_ne_nil _ _))
      (List.cons_ne_nil _ _)

theorem numberAt_cons_self (g : Group) (gs : List Group) :
    numberAt g.letter (g :: gs) = value g.digits := by
  unfold numberAt
  rw [List.find?_cons_of_pos (by simp)]
  rfl

theorem numberAt_cons_of_ne (other : g.letter ≠ letter) : numberAt letter (g :: gs) =
    numberAt letter gs := by
  unfold numberAt
  rw [List.find?_cons_of_neg (by simpa using other)]

theorem numberAt_of_not_mem (h : letter ∉ gs.map Group.letter) : numberAt letter gs = 0 := by
  have none : (gs.find? fun g => g.letter = letter) = .none := by
    refine List.find?_eq_none.mpr fun g hg => ?_
    rw [decide_eq_true_eq]
    exact fun same => h (same ▸ List.mem_map_of_mem hg)
  unfold numberAt
  rw [none]
  rfl

/-- The letters of a row that begins with a group follow its letter. -/
theorem numberAt_cons_eq (once : (letter :: letters).Nodup) (h : g.letter = letter) :
    letters.map (numberAt · (g :: gs)) = letters.map (numberAt · gs) := by
  refine List.map_congr_left fun other mem => numberAt_cons_of_ne fun same => ?_
  exact (List.nodup_cons.mp once).1 (h ▸ same ▸ mem)

theorem Tagged.nil (letters : List Char) : Tagged letters [] := ⟨List.nil_sublist letters, nofun⟩

theorem Tagged.cons (hd : g.digits ≠ [] ∧ g.digits.all Char.isDigit = true) (h : Tagged letters gs) :
    Tagged (g.letter :: letters) (g :: gs) :=
  ⟨h.order.cons_cons g.letter, List.forall_mem_cons.mpr ⟨hd, h.digits⟩⟩

theorem Tagged.skip (h : Tagged letters gs) (letter : Char) : Tagged (letter :: letters) gs :=
  ⟨h.order.cons letter, h.digits⟩

/-- A row of groups begins with the first letter, or that letter is not in it. -/
theorem Tagged.cases_cons (h : Tagged (letter :: letters) gs) (once : (letter :: letters).Nodup) :
    (letter ∉ gs.map Group.letter ∧ Tagged letters gs) ∨
      ∃ g rest, gs = g :: rest ∧ g.letter = letter ∧
        (g.digits ≠ [] ∧ g.digits.all Char.isDigit = true) ∧ Tagged letters rest := by
  obtain ⟨order, digits⟩ := h
  cases gs with
  | nil => exact .inl ⟨List.not_mem_nil, .nil letters⟩
  | cons g rest =>
    rcases List.sublist_cons_iff.mp order with later | ⟨_, first, later⟩
    · exact .inl ⟨fun mem => (List.nodup_cons.mp once).1 (later.subset mem), later, digits⟩
    · obtain ⟨same, rfl⟩ := List.cons.inj first
      obtain ⟨own, digits⟩ := List.forall_mem_cons.mp digits
      exact .inr ⟨g, rest, rfl, same, own, later, digits⟩

/-- What stands in the text of groups is a digit or one of the letters. -/
theorem Tagged.isDigit_or_mem (h : Tagged letters gs) (mem : c ∈ groupChars gs) :
    c.isDigit = true ∨ c ∈ letters := by
  obtain ⟨g, hg, mem⟩ := List.mem_flatMap.mp mem
  rcases List.mem_append.mp mem with digit | own
  · exact .inl (List.all_eq_true.mp (h.digits g hg).2 c digit)
  · rw [List.mem_singleton.mp own]
    exact .inr (h.order.subset (List.mem_map_of_mem hg))

/-! ## 2. Reading groups -/

/-- **A number is read off the front of a text where digits and the letter stand there.** -/
theorem tagged?_eq_some_iff (hl : letter.isDigit = false) :
    tagged? letter cs = some (n, rest) ↔
      ∃ digits, (digits ≠ [] ∧ digits.all Char.isDigit = true) ∧ cs = digits ++ letter :: rest ∧
        n = value digits ∧ n ≤ componentMax := by
  unfold tagged?
  constructor
  · intro h
    have whole := List.takeWhile_append_dropWhile (p := Char.isDigit) (l := cs)
    generalize cs.dropWhile Char.isDigit = behind at h whole
    cases behind with
    | nil => cases h
    | cons c behind =>
      simp only at h
      split at h
      · rename_i same
        obtain ⟨m, hm, own⟩ := Option.map_eq_some_iff.mp h
        obtain ⟨rfl, rfl⟩ := Prod.mk.inj own
        obtain ⟨read, fits⟩ := Option.filter_eq_some_iff.mp hm
        unfold digits? at read
        split at read
        · rename_i digits
          refine ⟨_, digits, ?_, (Option.some.inj read).symm, of_decide_eq_true fits⟩
          rw [← same, whole]
        · cases read
      · cases h
  · intro ⟨digits, ⟨nonempty, all⟩, text, own, fits⟩
    rw [text, takeWhile_digits all hl, dropWhile_digits all hl]
    simp only [if_true]
    rw [digits?, if_pos ⟨nonempty, all⟩, Option.filter_some, ← own,
      if_pos (decide_eq_true fits), Option.map_some]

/-- In front of groups without a letter no number stands before it. -/
theorem Tagged.tagged?_eq_none (h : Tagged letters gs) (hl : ∀ l ∈ letters, l.isDigit = false)
    (other : letter ∉ gs.map Group.letter) : tagged? letter (groupChars gs) = none := by
  cases gs with
  | nil => rfl
  | cons g gs =>
    have digits := (h.digits g List.mem_cons_self).2
    have own : g.letter.isDigit = false := hl _ (h.order.subset List.mem_cons_self)
    unfold tagged?
    rw [groupChars_cons, dropWhile_digits digits own]
    exact if_neg (List.ne_of_not_mem_cons other).symm

theorem components?_nil_iff {ns : List Nat} :
    components? [] cs = some ns ↔ cs = [] ∧ ns = [] := by
  unfold components?
  rw [Option.ite_none_right_eq_some, List.isEmpty_iff, Option.some.injEq, eq_comm (a := [])]

theorem components?_cons_of_some {rest : List Char} (h : tagged? letter cs = some (n, rest)) :
    components? (letter :: letters) cs = (components? letters rest).map (n :: ·) := by
  rw [components?, h]

theorem components?_cons_of_none (h : tagged? letter cs = none) :
    components? (letter :: letters) cs = (components? letters cs).map (0 :: ·) := by
  rw [components?, h]

/-- **A text is read letter by letter where it is a row of groups with these letters**, and each letter
    gets the number that stands before it. -/
theorem components?_eq_some_iff {ns : List Nat} (once : letters.Nodup)
    (hl : ∀ l ∈ letters, l.isDigit = false) :
    components? letters cs = some ns ↔ ∃ gs, Tagged letters gs ∧ cs = groupChars gs ∧
      ns = letters.map (numberAt · gs) ∧ ∀ n ∈ ns, n ≤ componentMax := by
  induction letters generalizing cs ns with
  | nil =>
    rw [components?_nil_iff]
    constructor
    · intro ⟨text, numbers⟩
      rw [numbers]
      exact ⟨[], .nil [], text, rfl, nofun⟩
    · intro ⟨gs, tagged, text, numbers, _⟩
      have none : gs = [] := List.map_eq_nil_iff.mp (List.sublist_nil.mp tagged.order)
      rw [none] at text
      exact ⟨text, numbers⟩
  | cons letter letters ih =>
    have own := hl letter List.mem_cons_self
    have ih' := fun cs ns => @ih cs ns (List.nodup_cons.mp once).2
      fun l mem => hl l (List.mem_cons_of_mem _ mem)
    constructor
    · intro h
      cases first : tagged? letter cs with
      | none =>
        rw [components?_cons_of_none first] at h
        obtain ⟨ms, hms, rfl⟩ := Option.map_eq_some_iff.mp h
        obtain ⟨gs, tagged, text, numbers, fits⟩ := (ih' _ _).mp hms
        have other : letter ∉ gs.map Group.letter := fun mem =>
          (List.nodup_cons.mp once).1 (tagged.order.subset mem)
        refine ⟨gs, tagged.skip letter, text, ?_, List.forall_mem_cons.mpr ⟨Nat.zero_le _, fits⟩⟩
        rw [List.map_cons, numberAt_of_not_mem other, numbers]
      | some read =>
        obtain ⟨n, rest⟩ := read
        rw [components?_cons_of_some first] at h
        obtain ⟨ms, hms, rfl⟩ := Option.map_eq_some_iff.mp h
        obtain ⟨gs, tagged, rfl, numbers, fits⟩ := (ih' _ _).mp hms
        obtain ⟨digits, hd, rfl, own', le⟩ := (tagged?_eq_some_iff own).mp first
        refine ⟨⟨digits, letter⟩ :: gs, .cons (g := ⟨digits, letter⟩) hd tagged,
          (groupChars_cons ⟨digits, letter⟩ gs).symm, ?_, List.forall_mem_cons.mpr ⟨le, fits⟩⟩
        rw [List.map_cons, numberAt_cons_eq once rfl, ← numbers, own']
        exact congrArg (· :: ms) (numberAt_cons_self ⟨digits, letter⟩ gs).symm
    · intro ⟨gs, tagged, text, numbers, fits⟩
      rw [numbers, List.map_cons] at fits ⊢
      obtain ⟨le, fits⟩ := List.forall_mem_cons.mp fits
      rcases tagged.cases_cons once with ⟨other, later⟩ | ⟨g, rest, rfl, same, hd, later⟩
      · rw [text, components?_cons_of_none (tagged.tagged?_eq_none hl other),
          (ih' _ _).mpr ⟨gs, later, rfl, rfl, fits⟩, numberAt_of_not_mem other, Option.map_some]
      · rw [numberAt_cons_eq once same] at fits ⊢
        rw [← same, numberAt_cons_self] at le ⊢
        have first : tagged? letter cs = some (value g.digits, groupChars rest) :=
          (tagged?_eq_some_iff own).mpr ⟨g.digits, hd, by rw [text, groupChars_cons, same], rfl, le⟩
        rw [same, components?_cons_of_some first, (ih' _ _).mpr ⟨rest, later, rfl, rfl, fits⟩,
          Option.map_some]

/-! ## 3. Amounts of numbers -/

/-- **A part is the number with the sign, if a field can hold it.** -/
theorem nominalPart?_eq_some_iff {p : Int32} :
    nominalPart? negative n = some p ↔ p.toInt = withSign negative n := by
  constructor
  · intro h
    have h : (if signedMin ≤ withSign negative n ∧ withSign negative n ≤ signedMax then
      some (Int32.ofInt (withSign negative n)) else none) = some p := h
    obtain ⟨fits, own⟩ := Option.ite_none_right_eq_some.mp h
    rw [← Option.some.inj own]
    exact toInt_ofInt fits.1 fits.2
  · intro h
    have fits : FitsPart negative n := by
      unfold FitsPart
      rw [← h]
      exact ⟨p.minValue_le_toInt, p.toInt_le⟩
    rw [nominalPart?_eq fits, ← h, Int32.ofInt_toInt]

theorem ofNominalNumbers?_eq_some_iff {years months weeks days : Nat} :
    ofNominalNumbers? negative years months weeks days = some a ↔
      ∃ n, a = nominal n ∧ n.years.toInt = withSign negative years ∧
        n.months.toInt = withSign negative months ∧
        n.days.toInt = withSign negative (weeks * 7 + days) := by
  unfold ofNominalNumbers?
  simp only [Option.bind_eq_bind, Option.bind_eq_some_iff, nominalPart?_eq_some_iff,
    Option.pure_def, Option.some.injEq]
  constructor
  · intro ⟨y, hy, m, hm, d, hd, own⟩
    exact ⟨⟨y, m, d⟩, own.symm, hy, hm, hd⟩
  · intro ⟨n, own, hy, hm, hd⟩
    exact ⟨n.years, hy, n.months, hm, n.days, hd, own.symm⟩

theorem ofExactNumbers?_eq_some_iff {days hours minutes seconds : Nat} :
    ofExactNumbers? negative days hours minutes seconds = some a ↔
      ∃ e, a = exact e ∧
        e.seconds = withSign negative (days * 86400 + hours * 3600 + minutes * 60 + seconds) := by
  unfold ofExactNumbers?
  simp only [Option.map_eq_some_iff, Elapsed.ofSeconds?_eq_some_iff]
  constructor
  · intro ⟨e, he, own⟩
    exact ⟨e, own.symm, he⟩
  · intro ⟨e, own, he⟩
    exact ⟨e, he, own.symm⟩

/-! ## 4. The two grammars -/

/-- What stands before the `P` of an amount: a minus for a negative one, and nothing or a plus for any
    other. -/
def IsSign (negative : Bool) (front : List Char) : Prop :=
  if negative then front = ['-'] else front = [] ∨ front = ['+']

/-- The letters of a nominal amount. -/
def nominalLetters : List Char := ['Y', 'M', 'W', 'D']

/-- The letters of the time of an exact amount. -/
def timeLetters : List Char := ['H', 'M', 'S']

/-- A body of years, months, weeks and days, one of them at least. -/
def NominalBody (negative : Bool) (body : List Char) (n : Nominal) : Prop :=
  ∃ gs, Tagged nominalLetters gs ∧ gs ≠ [] ∧ body = groupChars gs ∧
    n.years.toInt = withSign negative (numberAt 'Y' gs) ∧
    n.months.toInt = withSign negative (numberAt 'M' gs) ∧
    n.days.toInt = withSign negative (numberAt 'W' gs * 7 + numberAt 'D' gs)

/-- A body of days, if any, a `T`, and hours, minutes and seconds, one of these at least. -/
def ExactBody (negative : Bool) (body : List Char) (e : Elapsed) : Prop :=
  ∃ days time, Tagged ['D'] days ∧ Tagged timeLetters time ∧ time ≠ [] ∧
    body = groupChars days ++ 'T' :: groupChars time ∧
    e.seconds = withSign negative (numberAt 'D' days * 86400 + numberAt 'H' time * 3600 +
      numberAt 'M' time * 60 + numberAt 'S' time)

/-- **The texts of nominal amounts.** -/
def WritesNominal (cs : List Char) (n : Nominal) : Prop :=
  ∃ front negative body, IsSign negative front ∧ cs = front ++ 'P' :: body ∧
    NominalBody negative body n

/-- **The texts of exact amounts.** -/
def WritesExact (cs : List Char) (e : Elapsed) : Prop :=
  ∃ front negative body, IsSign negative front ∧ cs = front ++ 'P' :: body ∧
    ExactBody negative body e

/-! ## 5. Reading bodies -/

/-- Numbers that a field holds together with the sign are short enough to be read. -/
theorem le_of_withSign_eq {p : Int32} {m : Nat} (h : p.toInt = withSign negative m) (le : n ≤ m) :
    n ≤ componentMax := by
  have fits : FitsPart negative m := by
    unfold FitsPart
    rw [← h]
    exact ⟨p.minValue_le_toInt, p.toInt_le⟩
  exact Nat.le_trans le fits.le

theorem not_isDigit_of_nominalLetters : ∀ l ∈ nominalLetters, l.isDigit = false := by
  simp [nominalLetters]

theorem not_isDigit_of_timeLetters : ∀ l ∈ timeLetters, l.isDigit = false := by
  simp [timeLetters]

/-- Groups without the letter `T` have none. -/
theorem Tagged.not_mem (h : Tagged letters gs) (none : 'T' ∉ letters) : 'T' ∉ groupChars gs := by
  intro mem
  rcases h.isDigit_or_mem mem with digit | letter
  · cases digit
  · exact none letter

/-- **What a body is read as is written there.** -/
theorem writes_of_ofBody? (h : ofBody? negative body = some a) :
    (∃ n, a = nominal n ∧ NominalBody negative body n) ∨
      ∃ e, a = exact e ∧ ExactBody negative body e := by
  unfold ofBody? at h
  split at h
  · cases h
  · rename_i nonempty
    split at h
    · rename_i years months weeks days read
      obtain ⟨gs, tagged, rfl, numbers, -⟩ :=
        (components?_eq_some_iff (by decide) not_isDigit_of_nominalLetters).mp read
      obtain ⟨n, rfl, parts⟩ := ofNominalNumbers?_eq_some_iff.mp h
      simp only [nominalLetters, List.map_cons, List.map_nil, List.cons.injEq, and_true] at numbers
      obtain ⟨rfl, rfl, rfl, rfl⟩ := numbers
      exact .inl ⟨n, rfl, gs, tagged, fun none => nonempty (by rw [none]; rfl), rfl, parts⟩
    · obtain ⟨⟨before, after⟩, hcut, timed⟩ := Option.bind_eq_some_iff.mp h
      obtain ⟨_, hguard, read⟩ := Option.bind_eq_some_iff.mp timed
      obtain ⟨rfl, -⟩ := Text.eq_of_cut? hcut
      split at read
      · rename_i days hours minutes seconds readDays readTime
        obtain ⟨ds, taggedDays, rfl, numberDays, -⟩ :=
          (components?_eq_some_iff (by decide) (by simp)).mp readDays
        obtain ⟨time, taggedTime, rfl, numbers, -⟩ :=
          (components?_eq_some_iff (by decide) not_isDigit_of_timeLetters).mp readTime
        obtain ⟨e, rfl, total⟩ := ofExactNumbers?_eq_some_iff.mp read
        simp only [timeLetters, List.map_cons, List.map_nil, List.cons.injEq, and_true]
          at numberDays numbers
        obtain ⟨rfl, rfl, rfl⟩ := numbers
        rw [numberDays] at total
        refine .inr ⟨e, rfl, ds, time, taggedDays, taggedTime, fun none => ?_, rfl, total⟩
        rw [none] at hguard
        cases hguard
      · cases read

/-- A body of years, months, weeks and days is read. -/
theorem NominalBody.ofBody?_eq {n : Nominal} (h : NominalBody negative body n) :
    ofBody? negative body = some (nominal n) := by
  obtain ⟨gs, tagged, some', rfl, years, months, days⟩ := h
  have fits : ∀ k ∈ nominalLetters.map (numberAt · gs), k ≤ componentMax := by
    simp only [nominalLetters, List.map_cons, List.map_nil, List.forall_mem_cons]
    exact ⟨le_of_withSign_eq years (Nat.le_refl _), le_of_withSign_eq months (Nat.le_refl _),
      le_of_withSign_eq days (by omega), le_of_withSign_eq days (by omega), nofun⟩
  have read : components? ['Y', 'M', 'W', 'D'] (groupChars gs) =
      some [numberAt 'Y' gs, numberAt 'M' gs, numberAt 'W' gs, numberAt 'D' gs] :=
    (components?_eq_some_iff (by decide) not_isDigit_of_nominalLetters).mpr
      ⟨gs, tagged, rfl, rfl, fits⟩
  have nonempty : ¬ (groupChars gs).isEmpty = true := by
    rw [List.isEmpty_iff, groupChars_eq_nil_iff]
    exact some'
  unfold ofBody?
  rw [if_neg nonempty, read]
  exact ofNominalNumbers?_eq_some_iff.mpr ⟨n, rfl, years, months, days⟩

/-- A body with a time is read. -/
theorem ExactBody.ofBody?_eq {e : Elapsed} (h : ExactBody negative body e) :
    ofBody? negative body = some (exact e) := by
  obtain ⟨days, time, taggedDays, taggedTime, some', rfl, total⟩ := h
  have most : numberAt 'D' days * 86400 + numberAt 'H' time * 3600 + numberAt 'M' time * 60 +
      numberAt 'S' time ≤ 9223372036854775 := by
    have within := e.within
    unfold withSign at total
    split at total <;> omega
  have readDays : components? ['D'] (groupChars days) = some [numberAt 'D' days] := by
    refine (components?_eq_some_iff (by decide) (by simp)).mpr ⟨days, taggedDays, rfl, rfl, ?_⟩
    simp only [List.forall_mem_cons]
    exact ⟨by unfold componentMax; omega, nofun⟩
  have readTime : components? ['H', 'M', 'S'] (groupChars time) =
      some [numberAt 'H' time, numberAt 'M' time, numberAt 'S' time] := by
    refine (components?_eq_some_iff (by decide) not_isDigit_of_timeLetters).mpr
      ⟨time, taggedTime, rfl, rfl, ?_⟩
    unfold componentMax
    simp only [List.forall_mem_cons]
    exact ⟨by omega, by omega, by omega, nofun⟩
  -- a `T` is no letter of a nominal amount
  have untimed : components? ['Y', 'M', 'W', 'D'] (groupChars days ++ 'T' :: groupChars time) =
      none := by
    refine Option.eq_none_iff_forall_ne_some.mpr fun ns read => ?_
    obtain ⟨gs, tagged, text, -⟩ :=
      (components?_eq_some_iff (by decide) not_isDigit_of_nominalLetters).mp read
    refine tagged.not_mem (by decide) ?_
    rw [← text]
    exact List.mem_append_right _ List.mem_cons_self
  have nonempty : (!(groupChars time).isEmpty) = true := by
    rw [Bool.not_eq_true', List.isEmpty_eq_false_iff, ne_eq, groupChars_eq_nil_iff]
    exact some'
  have passed : guard ((!(groupChars time).isEmpty) = true) = Option.some () := if_pos nonempty
  unfold ofBody?
  rw [untimed, if_neg (by simp), Text.cut?_append (taggedDays.not_mem (by decide))]
  simp only [Option.bind_eq_bind, Option.bind_some]
  rw [passed, readDays, readTime]
  exact ofExactNumbers?_eq_some_iff.mpr ⟨e, rfl, total⟩

/-- What the reader makes of the text after a sign and a `P`. -/
theorem read?_eq_some_iff : read? cs = some a ↔
    ∃ front negative body, IsSign negative front ∧ cs = front ++ 'P' :: body ∧
      ofBody? negative body = some a := by
  constructor
  · intro h
    unfold read? at h
    split at h
    · exact ⟨['-'], true, _, rfl, rfl, h⟩
    · exact ⟨['+'], false, _, .inr rfl, rfl, h⟩
    · exact ⟨[], false, _, .inl rfl, rfl, h⟩
    · cases h
  · intro ⟨front, negative, body, sign, text, read⟩
    rw [text]
    cases negative with
    | true =>
      rw [show front = ['-'] from sign]
      exact read
    | false =>
      rcases sign with none | plus
      · rw [none]
        exact read
      · rw [plus]
        exact read

theorem parse_eq_ok_iff {v : String} : parse v = .ok a ↔ read? v.toList = some a := by
  unfold parse
  cases read? v.toList with
  | none => exact ⟨nofun, nofun⟩
  | some b => exact ⟨fun h => congrArg some (Except.ok.inj h), fun h => congrArg _ (Option.some.inj h)⟩

/-- **The reader of amounts accepts its two grammars and nothing else.** It makes a nominal amount of a
    text just when the text writes that amount in years, months, weeks and days, an exact one just when
    it writes it with a time, and it refuses every other text, which the fault tells. -/
theorem parse_by_the_grammars (v : String) :
    (∀ n, parse v = .ok (nominal n) ↔ WritesNominal v.toList n) ∧
      (∀ e, parse v = .ok (exact e) ↔ WritesExact v.toList e) ∧
      (parse v = .error (.malformedAmount v) ↔
        (∀ n, ¬ WritesNominal v.toList n) ∧ ∀ e, ¬ WritesExact v.toList e) := by
  have nominals : ∀ n, parse v = .ok (nominal n) ↔ WritesNominal v.toList n := fun n => by
    rw [parse_eq_ok_iff, read?_eq_some_iff]
    constructor
    · intro ⟨front, negative, body, sign, text, read⟩
      rcases writes_of_ofBody? read with ⟨_, own, written⟩ | ⟨_, own, -⟩
      · cases own
        exact ⟨front, negative, body, sign, text, written⟩
      · cases own
    · intro ⟨front, negative, body, sign, text, written⟩
      exact ⟨front, negative, body, sign, text, written.ofBody?_eq⟩
  have exacts : ∀ e, parse v = .ok (exact e) ↔ WritesExact v.toList e := fun e => by
    rw [parse_eq_ok_iff, read?_eq_some_iff]
    constructor
    · intro ⟨front, negative, body, sign, text, read⟩
      rcases writes_of_ofBody? read with ⟨_, own, -⟩ | ⟨_, own, written⟩
      · cases own
      · cases own
        exact ⟨front, negative, body, sign, text, written⟩
    · intro ⟨front, negative, body, sign, text, written⟩
      exact ⟨front, negative, body, sign, text, written.ofBody?_eq⟩
  refine ⟨nominals, exacts, ?_⟩
  simp only [← nominals, ← exacts]
  cases read : parse v with
  | ok a =>
    refine iff_of_false nofun fun ⟨noNominal, noExact⟩ => ?_
    cases a with
    | nominal n => exact noNominal n rfl
    | exact e => exact noExact e rfl
  | error fault =>
    refine iff_of_true ?_ ⟨nofun, nofun⟩
    unfold parse at read
    split at read
    · cases read
    · exact read.symm

/-- A month and a minute have the same letter, but only one of them stands behind a `T`. -/
example : read? "P1M".toList = some (nominal ⟨0, 1, 0⟩) ∧
    read? "-PT1M".toList = some (exact ⟨-60, by decide⟩) ∧ read? "P1MT1M".toList = none := by
  decide

end Amount

end Almanac
