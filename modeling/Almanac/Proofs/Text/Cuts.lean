import Almanac.Text.Blank

/-!
# Cutting what was put together

Rule text is put together from tokens, and tokens from a name and a value. This file shows that the
readers cut it at the same places:

* trimming leaves a text alone that has no blank at either end (`trim_of_ends`), and what it leaves
  has none (`head?_trim`, `getLast?_trim`);
* **splitting undoes joining** when no piece holds the separator (`splitOn_join`), and so do the items
  of a list when the pieces are trimmed and not empty (`items_join`);
* the first separator is the one behind a text without separators (`cut?_append`).
-/

namespace Almanac.Text

variable {separator : Char} {cs before after piece : List Char} {pieces : List (List Char)}

/-! ## 1. Blanks at the ends -/

theorem head?_trimStart (c : Char) (h : c ∈ (trimStart cs).head?) : isBlank c = false := by
  unfold trimStart at h
  cases hd : cs.dropWhile isBlank with
  | nil =>
    rw [hd] at h
    cases h
  | cons d rest =>
    rw [hd] at h
    cases h
    have first := List.head?_dropWhile_not isBlank cs
    rw [hd] at first
    exact first

theorem trimStart_of_head? (h : ∀ c ∈ cs.head?, isBlank c = false) : trimStart cs = cs := by
  cases cs with
  | nil => rfl
  | cons c rest => exact List.dropWhile_cons_of_neg (by simp [h c rfl])

theorem trimEnd_eq (cs : List Char) : trimEnd cs = (trimStart cs.reverse).reverse := rfl

theorem getLast?_trimEnd (c : Char) (h : c ∈ (trimEnd cs).getLast?) : isBlank c = false := by
  rw [trimEnd_eq, List.getLast?_reverse] at h
  exact head?_trimStart c h

theorem trimEnd_of_getLast? (h : ∀ c ∈ cs.getLast?, isBlank c = false) : trimEnd cs = cs := by
  rw [trimEnd_eq, trimStart_of_head? ?_, List.reverse_reverse]
  rw [List.head?_reverse]
  exact h

/-- What is left of a text without the blanks at its end is a beginning of it. -/
theorem trimEnd_isPrefix (cs : List Char) : trimEnd cs <+: cs := by
  have suffix : cs.reverse.dropWhile isBlank <:+ cs.reverse := List.dropWhile_suffix isBlank
  have := List.reverse_prefix.mpr suffix
  rwa [List.reverse_reverse] at this

/-- A text without blanks at its ends stays as it is. -/
theorem trim_of_ends (first : ∀ c ∈ cs.head?, isBlank c = false)
    (last : ∀ c ∈ cs.getLast?, isBlank c = false) : trim cs = cs := by
  unfold trim
  rw [trimStart_of_head? first, trimEnd_of_getLast? last]

theorem trim_of_forall (h : ∀ c ∈ cs, isBlank c = false) : trim cs = cs :=
  trim_of_ends (fun c hc => h c (List.mem_of_mem_head? hc))
    fun c hc => h c (List.mem_of_mem_getLast? hc)

theorem head?_trim (c : Char) (h : c ∈ (trim cs).head?) : isBlank c = false := by
  obtain ⟨rest, e⟩ := trimEnd_isPrefix (trimStart cs)
  refine @head?_trimStart cs c ?_
  rw [← e, List.head?_append]
  unfold trim at h
  rw [Option.mem_def] at h
  rw [h]
  rfl

theorem getLast?_trim (c : Char) (h : c ∈ (trim cs).getLast?) : isBlank c = false :=
  getLast?_trimEnd c h

@[simp] theorem trim_trim (cs : List Char) : trim (trim cs) = trim cs :=
  trim_of_ends (fun c => head?_trim c) fun c => getLast?_trim c

theorem mem_of_mem_trim {c : Char} (h : c ∈ trim cs) : c ∈ cs :=
  (List.dropWhile_suffix isBlank).subset ((trimEnd_isPrefix (trimStart cs)).subset h)

/-! ## 2. Separators -/

theorem not_mem_of_mem_splitOn (h : piece ∈ splitOn separator cs) : separator ∉ piece := by
  induction cs generalizing piece with
  | nil =>
    rw [List.mem_singleton.mp h]
    exact List.not_mem_nil
  | cons c rest ih =>
    simp only [splitOn] at h
    split at h
    · rcases List.mem_cons.mp h with rfl | h
      · exact List.not_mem_nil
      · exact ih h
    · rename_i other
      split at h
      · rw [List.mem_singleton.mp h]
        simpa using Ne.symm other
      · rename_i first pieces e
        rw [e] at ih
        rcases List.mem_cons.mp h with rfl | h
        · have := ih List.mem_cons_self
          simp [this, Ne.symm other]
        · exact ih (List.mem_cons_of_mem first h)

theorem splitOn_of_not_mem (h : separator ∉ cs) : splitOn separator cs = [cs] := by
  induction cs with
  | nil => rfl
  | cons c rest ih =>
    have first := List.ne_of_not_mem_cons h
    have others := List.not_mem_of_not_mem_cons h
    rw [splitOn, if_neg (Ne.symm first), ih others]

theorem splitOn_append (h : separator ∉ before) :
    splitOn separator (before ++ separator :: after) = before :: splitOn separator after := by
  induction before with
  | nil => rw [List.nil_append, splitOn, if_pos rfl]
  | cons c rest ih =>
    have first := List.ne_of_not_mem_cons h
    have others := List.not_mem_of_not_mem_cons h
    rw [List.cons_append, splitOn, if_neg (Ne.symm first), ih others]

/-- **Splitting undoes joining.** -/
theorem splitOn_join (some : pieces ≠ []) (h : ∀ p ∈ pieces, separator ∉ p) :
    splitOn separator (join separator pieces) = pieces := by
  induction pieces with
  | nil => exact absurd rfl some
  | cons p rest ih =>
    have first := h p List.mem_cons_self
    cases rest with
    | nil => exact splitOn_of_not_mem first
    | cons q others =>
      show splitOn separator (p ++ separator :: join separator (q :: others)) = _
      rw [splitOn_append first, ih (by simp) fun r hr => h r (List.mem_cons_of_mem p hr)]

/-- **The items of a joined list are its pieces.** -/
theorem items_join (h : ∀ p ∈ pieces, separator ∉ p ∧ trim p = p ∧ p ≠ []) :
    items separator (join separator pieces) = pieces := by
  cases hp : pieces with
  | nil => rfl
  | cons p rest =>
    rw [← hp]
    unfold items
    rw [splitOn_join (by simp [hp]) fun q hq => (h q hq).1]
    have trimmed : pieces.map trim = pieces :=
      (List.map_congr_left fun q hq => (h q hq).2.1).trans (List.map_id' pieces)
    rw [trimmed]
    refine List.filter_eq_self.mpr fun q hq => ?_
    simpa using (h q hq).2.2

/-- A joined text begins with its first piece. -/
theorem prefix_join (piece : List Char) (pieces : List (List Char)) :
    piece <+: join separator (piece :: pieces) := by
  cases pieces with
  | nil => exact List.prefix_refl piece
  | cons q others => exact List.prefix_append piece _

theorem getLast?_join (h : ∀ p ∈ pieces, p ≠ []) :
    (join separator pieces).getLast? = pieces.getLast?.bind List.getLast? := by
  induction pieces with
  | nil => rfl
  | cons p rest ih =>
    cases rest with
    | nil => rfl
    | cons q others =>
      have ends := ih fun r hr => h r (List.mem_cons_of_mem p hr)
      have last : ((q :: others).getLast?.bind List.getLast?).isSome := by
        have piece : (q :: others).getLast?.isSome := List.getLast?_isSome.mpr (by simp)
        obtain ⟨r, hr⟩ := Option.isSome_iff_exists.mp piece
        rw [hr]
        exact List.getLast?_isSome.mpr (h r (List.mem_cons_of_mem p (List.mem_of_mem_getLast? hr)))
      obtain ⟨c, hc⟩ := Option.isSome_iff_exists.mp last
      show (p ++ separator :: join separator (q :: others)).getLast? = _
      rw [List.getLast?_append, List.getLast?_cons, ends, List.getLast?_cons_cons, hc]
      rfl

/-- Joining trimmed pieces makes a trimmed text. -/
theorem trim_join (h : ∀ p ∈ pieces, trim p = p ∧ p ≠ []) :
    trim (join separator pieces) = join separator pieces := by
  refine trim_of_ends (fun c hc => ?_) fun c hc => ?_
  · cases pieces with
    | nil => cases hc
    | cons p rest =>
      obtain ⟨trimmed, full⟩ := h p List.mem_cons_self
      have start : p <+: join separator (p :: rest) := prefix_join p rest
      obtain ⟨tail, e⟩ := start
      have head := @head?_trim p c
      rw [trimmed] at head
      cases p with
      | nil => exact absurd rfl full
      | cons d others =>
        rw [← e] at hc
        exact head hc
  · rw [getLast?_join fun p hp => (h p hp).2] at hc
    obtain ⟨p, hp, hc⟩ := Option.bind_eq_some_iff.mp hc
    obtain ⟨trimmed, -⟩ := h p (List.mem_of_mem_getLast? hp)
    have last := @getLast?_trim p c
    rw [trimmed] at last
    exact last hc

/-- Items hold no separator and have no blank at either end. -/
theorem of_mem_items (h : piece ∈ items separator cs) : separator ∉ piece ∧ trim piece = piece := by
  unfold items at h
  obtain ⟨raw, hraw, rfl⟩ := List.mem_map.mp (List.mem_filter.mp h).1
  exact ⟨fun mem => not_mem_of_mem_splitOn hraw (mem_of_mem_trim mem), trim_trim raw⟩

theorem cut?_append (h : separator ∉ before) :
    cut? separator (before ++ separator :: after) = some (before, after) := by
  induction before with
  | nil => rw [List.nil_append, cut?, if_pos rfl]
  | cons c rest ih =>
    have first := List.ne_of_not_mem_cons h
    have others := List.not_mem_of_not_mem_cons h
    rw [List.cons_append, cut?, if_neg (Ne.symm first), ih others]
    rfl

/-! ## 3. Letter case -/

/-- An upper case letter comes 32 places before its lower case. -/
theorem toUpper_cases (c : Char) :
    (97 ≤ c.toNat ∧ c.toNat ≤ 122 ∧ c.toUpper.toNat = c.toNat - 32) ∨
      ((c.toNat < 97 ∨ 122 < c.toNat) ∧ c.toUpper = c) := by
  unfold Char.toUpper
  split
  · rename_i h
    have low : 97 ≤ c.toNat := UInt32.le_iff_toNat_le.mp h.1
    have high : c.toNat ≤ 122 := UInt32.le_iff_toNat_le.mp h.2
    refine .inl ⟨low, high, ?_⟩
    show (c.val + ('A'.val - 'a'.val)).toNat = c.val.toNat - 32
    have same : c.val.toNat = c.toNat := rfl
    have shift : ('A'.val - 'a'.val).toNat = 4294967264 := by decide
    rw [UInt32.toNat_add]
    omega
  · rename_i h
    refine .inr ⟨?_, rfl⟩
    by_cases low : 97 ≤ c.toNat
    · by_cases high : c.toNat ≤ 122
      · exact absurd ⟨UInt32.le_iff_toNat_le.mpr low, UInt32.le_iff_toNat_le.mpr high⟩ h
      · exact .inr (by omega)
    · exact .inl (by omega)

theorem toUpper_toUpper (c : Char) : c.toUpper.toUpper = c.toUpper := by
  rcases toUpper_cases c with ⟨low, high, e⟩ | ⟨-, e⟩
  · rcases toUpper_cases c.toUpper with ⟨low', -, -⟩ | ⟨-, e'⟩
    · omega
    · exact e'
  · rw [e, e]

@[simp] theorem upper_upper (cs : List Char) : upper (upper cs) = upper cs := by
  unfold upper
  rw [List.map_map]
  exact List.map_congr_left fun c _ => toUpper_toUpper c

theorem isBlank_eq_false_of_letter {c : Char} (low : 65 ≤ c.toNat) (high : c.toNat ≤ 122) :
    isBlank c = false := by
  unfold isBlank
  simp only [Bool.or_eq_false_iff, Bool.and_eq_false_iff, decide_eq_false_iff_not,
    beq_eq_false_iff_ne]
  omega

theorem isBlank_toUpper (c : Char) : isBlank c.toUpper = isBlank c := by
  rcases toUpper_cases c with ⟨low, high, e⟩ | ⟨-, e⟩
  · rw [isBlank_eq_false_of_letter (by omega) high,
      isBlank_eq_false_of_letter (by omega) (by omega)]
  · rw [e]

/-- Raising the letters keeps a trimmed text trimmed. -/
theorem trim_upper_trim (cs : List Char) : trim (upper (trim cs)) = upper (trim cs) := by
  refine trim_of_ends (fun c hc => ?_) fun c hc => ?_
  · rw [upper, List.head?_map] at hc
    obtain ⟨d, hd, rfl⟩ := Option.map_eq_some_iff.mp hc
    rw [isBlank_toUpper]
    exact head?_trim d hd
  · rw [upper, List.getLast?_map] at hc
    obtain ⟨d, hd, rfl⟩ := Option.map_eq_some_iff.mp hc
    rw [isBlank_toUpper]
    exact getLast?_trim d hd

/-- Raising the letters makes no character that is not a letter. -/
theorem not_mem_upper {d : Char} (other : d.toNat < 65 ∨ 90 < d.toNat) (h : d ∉ cs) :
    d ∉ upper cs := fun mem => by
  obtain ⟨c, hc, e⟩ := List.mem_map.mp mem
  rcases toUpper_cases c with ⟨low, high, up⟩ | ⟨-, same⟩
  · rw [e] at up
    omega
  · rw [same] at e
    rw [e] at hc
    exact h hc

end Almanac.Text
