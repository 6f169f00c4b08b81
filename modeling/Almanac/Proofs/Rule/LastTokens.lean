import Almanac.Proofs.Rule.Assignments

/-!
# A rule is told by the last token of each part

The reader of rules goes through a row of tokens, and each token sets one part. This file fixes

* **the texts themselves**, with no reader in them: the row of a text is what follows the word for a
  rule, if one stands in front (`Rule.IsRow`); a piece of the row stands for a name in upper case and a
  value (`Rule.Stands`); and of all pieces that stand for one part the last one is its token
  (`Rule.LastToken`);
* the reader sees the same (`Rule.isRow_iff`, `Rule.stands_iff`), and what it sees last of each part is
  the last token (`Rule.lastToken_iff`).

Main result: `Rule.eq_of_lastTokens`. The order of the tokens, tokens that a later one overrides, empty
tokens, blanks around tokens and names, the case of names, and the word for a rule do not count.
-/

namespace Almanac

open Text

namespace Rule

/-! ## 1. Texts -/

/-- The word for a rule that may stand in front of the row, in any case. -/
def IsRuleWord (word : List Char) : Prop :=
  upper word = "RRULE:".toList ∨ upper word = "EXRULE:".toList

/-- The row of tokens in a text. -/
def IsRow (v : String) (row : List Char) : Prop :=
  (∃ word, IsRuleWord word ∧ trim v.toList = word ++ row) ∨
    ((∀ word, IsRuleWord word → ¬ word <+: trim v.toList) ∧ row = trim v.toList)

/-- A piece of a row stands for a name and a value: the name is in front of the first sign, and blanks
    around it and its case do not count. -/
def Stands (piece : List Char) (name value : String) : Prop :=
  ∃ front, trim piece = front ++ '=' :: value.toList ∧ '=' ∉ front ∧
    name.toList = upper (trim front)

/-- The last token of a part, by the name and the value it stands for: no later piece stands for a name
    of the same part. -/
def LastToken (v name value : String) : Prop :=
  ∃ earlier piece later, IsRow v (join ';' (earlier ++ piece :: later)) ∧
    (∀ p ∈ earlier ++ piece :: later, ';' ∉ p) ∧ Stands piece name value ∧
    ∀ p ∈ later, ∀ other value', Stands p other value' → partName other ≠ partName name

/-! ## 2. What the reader sees -/

theorem dropHead?_append {head word : List Char} (same : upper word = upper head)
    (rest : List Char) : dropHead? head (word ++ rest) = some rest := by
  induction head generalizing word with
  | nil =>
    rw [List.map_eq_nil_iff.mp same]
    rfl
  | cons d head ih =>
    obtain ⟨c, tail, rfl, first, others⟩ := List.map_eq_cons_iff.mp same
    rw [List.cons_append, dropHead?, if_pos first.symm]
    exact ih others

theorem dropHead?_eq_some_iff {head text rest : List Char} :
    dropHead? head text = some rest ↔ ∃ word, upper word = upper head ∧ text = word ++ rest := by
  refine ⟨fun h => ?_, fun ⟨word, same, split⟩ => split ▸ dropHead?_append same rest⟩
  induction head generalizing text with
  | nil => exact ⟨[], rfl, Option.some.inj h⟩
  | cons d head ih =>
    cases text with
    | nil => cases h
    | cons c text =>
      obtain ⟨first, h⟩ := Option.ite_none_right_eq_some.mp h
      obtain ⟨word, same, rfl⟩ := ih h
      exact ⟨c :: word, congrArg₂ List.cons first.symm same, rfl⟩

/-- The two words for a rule do not begin alike. -/
theorem dropHead?_exrule {text rest : List Char} (h : dropHead? "EXRULE:".toList text = some rest) :
    dropHead? "RRULE:".toList text = none := by
  cases text with
  | nil => cases h
  | cons c text =>
    obtain ⟨first, -⟩ := Option.ite_none_right_eq_some.mp h
    refine if_neg ?_
    rw [← first]
    decide

/-- Dropping a word for a rule is taking a text apart behind it. -/
theorem dropHead?_rule_iff {text row : List Char} :
    (dropHead? "RRULE:".toList text <|> dropHead? "EXRULE:".toList text) = some row ↔
      ∃ word, IsRuleWord word ∧ text = word ++ row := by
  have upper_rrule : upper "RRULE:".toList = "RRULE:".toList := by decide
  have upper_exrule : upper "EXRULE:".toList = "EXRULE:".toList := by decide
  rw [Option.orElse_eq_some]
  refine ⟨fun h => ?_, fun ⟨word, isWord, split⟩ => ?_⟩
  · obtain h | ⟨-, h⟩ := h
    · obtain ⟨word, same, split⟩ := dropHead?_eq_some_iff.mp h
      exact ⟨word, .inl (same.trans upper_rrule), split⟩
    · obtain ⟨word, same, split⟩ := dropHead?_eq_some_iff.mp h
      exact ⟨word, .inr (same.trans upper_exrule), split⟩
  · obtain same | same := isWord
    · exact .inl (dropHead?_eq_some_iff.mpr ⟨word, same.trans upper_rrule.symm, split⟩)
    · have h := dropHead?_eq_some_iff.mpr ⟨word, same.trans upper_exrule.symm, split⟩
      exact .inr ⟨dropHead?_exrule h, h⟩

/-- **The row of a text is the one that the reader goes through.** -/
theorem isRow_iff {v : String} {row : List Char} : IsRow v row ↔ row = body v := by
  have isBody : body v = (dropHead? "RRULE:".toList (trim v.toList) <|>
      dropHead? "EXRULE:".toList (trim v.toList)).getD (trim v.toList) := rfl
  rw [isBody]
  cases front : (dropHead? "RRULE:".toList (trim v.toList) <|>
      dropHead? "EXRULE:".toList (trim v.toList)) with
  | some rest =>
    obtain ⟨word, isWord, split⟩ := dropHead?_rule_iff.mp front
    rw [Option.getD_some]
    refine ⟨fun h => ?_, fun same => .inl ⟨word, isWord, same ▸ split⟩⟩
    obtain own | ⟨bare, -⟩ := h
    · exact Option.some.inj ((dropHead?_rule_iff.mpr own).symm.trans front)
    · exact absurd ⟨rest, split.symm⟩ (bare word isWord)
  | none =>
    have bare : ∀ word, IsRuleWord word → ∀ rest, word ++ rest ≠ trim v.toList := by
      intro word isWord rest split
      have found := dropHead?_rule_iff.mpr ⟨word, isWord, split.symm⟩
      rw [front] at found
      cases found
    rw [Option.getD_none]
    refine ⟨fun h => ?_, fun same => .inr ⟨?_, same⟩⟩
    · obtain ⟨word, isWord, split⟩ | ⟨-, same⟩ := h
      · exact absurd split.symm (bare word isWord row)
      · exact same
    · intro word isWord ⟨rest, split⟩
      exact bare word isWord rest split

/-- The name and the value of a token. -/
def nameAndValue? (token : List Char) : Option (String × String) :=
  (cut? '=' token).map fun (front, value) =>
    (String.ofList (upper (trim front)), String.ofList value)

theorem stands_iff {piece : List Char} {name value : String} :
    Stands piece name value ↔ nameAndValue? (trim piece) = some (name, value) := by
  unfold nameAndValue?
  rw [Option.map_eq_some_iff]
  refine ⟨fun ⟨front, split, noSign, isName⟩ => ?_, fun ⟨(front, rest), cut, same⟩ => ?_⟩
  · refine ⟨(front, value.toList), ?_, ?_⟩
    · rw [split]
      exact cut?_append noSign
    · show (String.ofList (upper (trim front)), String.ofList value.toList) = (name, value)
      rw [← isName, String.ofList_toList, String.ofList_toList]
  · obtain ⟨split, noSign⟩ := eq_of_cut? cut
    cases same
    exact ⟨front, by rw [split, String.toList_ofList], noSign, String.toList_ofList⟩

/-- The names and values of the tokens in a text. -/
def entries (v : String) : List (String × String) := (items ';' (body v)).filterMap nameAndValue?

theorem entries_eq (v : String) :
    entries v = (splitOn ';' (body v)).filterMap fun piece => nameAndValue? (trim piece) := by
  unfold entries items
  rw [List.filterMap_filter, List.filterMap_map]
  refine List.filterMap_congr fun piece _ => ?_
  rw [Function.comp_apply]
  cases trim piece with
  | nil => rfl
  | cons c token => rfl

/-- The last name and value that tell a part. -/
def lastOf (v : String) (part : DraftPart) : Option (String × String) :=
  lastAt? (fun t => DraftPart.ofName t.1) part (entries v)

/-- **The last token of a part is the last that the reader sees of it.** -/
theorem lastToken_iff {v name value : String} :
    LastToken v name value ↔ lastOf v (DraftPart.ofName name) = some (name, value) := by
  unfold lastOf
  rw [entries_eq, lastAt?_filterMap_eq_some_iff]
  refine ⟨fun ⟨earlier, piece, later, row, whole, stands, others⟩ => ?_, ?_⟩
  · rw [← isRow_iff.mp row, splitOn_join (by simp) whole]
    refine ⟨earlier, piece, later, rfl, stands_iff.mp stands, rfl, fun p mem t read same => ?_⟩
    exact others p mem t.1 t.2 (stands_iff.mpr read) (DraftPart.ofName_eq_iff.mp same)
  · intro ⟨earlier, piece, later, split, read, _, others⟩
    refine ⟨earlier, piece, later, ?_, ?_, stands_iff.mpr read, ?_⟩
    · rw [← split, join_splitOn]
      exact isRow_iff.mpr rfl
    · rw [← split]
      exact fun p mem => not_mem_of_mem_splitOn mem
    · intro p mem other value' stands same
      exact others p mem _ (stands_iff.mp stands) (DraftPart.ofName_eq_iff.mpr same)

/-- The assignments of a text, from the names and values of its tokens. -/
theorem forall₂_entries {s : Settings} {v : String} {as : List Assignment}
    (h : (items ';' (body v)).mapM (Assignment.ofToken s) = .ok as) :
    List.Forall₂ (fun t a => Assignment.ofPart s t.1 t.2 = .ok a) (entries v) as := by
  unfold entries
  replace h := Results.mapM_eq_ok_iff.mp h
  generalize items ';' (body v) = tokens at h
  induction h with
  | nil => exact .nil
  | @cons token a tokens as first _ ih =>
    unfold Assignment.ofToken at first
    split at first
    · cases first
    · rename_i front value cut
      rw [List.filterMap_cons_some (by rw [nameAndValue?, cut]; rfl)]
      exact .cons first ih

/-! ## 3. Rules -/

theorem lastOf_of_lastTokens {v w : String} {part : DraftPart} {t : String × String}
    (carried : ∀ name value, LastToken v name value → LastToken w name value)
    (last : lastOf v part = some t) : lastOf w part = some t := by
  obtain rfl := key_of_lastAt? last
  exact lastToken_iff.mp (carried t.1 t.2 (lastToken_iff.mpr last))

/-- **A rule is told by the last token of each part.** -/
theorem eq_of_lastTokens {s : Settings} {v w : String} {r q : Rule} (hv : parseWith s v = .ok r)
    (hw : parseWith s w = .ok q)
    (same : ∀ name value, LastToken v name value ↔ LastToken w name value) : r = q := by
  obtain ⟨as, readV, builtV⟩ := Results.bind_eq_ok hv
  obtain ⟨bs, readW, builtW⟩ := Results.bind_eq_ok hw
  have tokens : ∀ part, lastOf v part = lastOf w part := by
    refine fun part => Option.ext fun t => ⟨?_, ?_⟩
    · exact lastOf_of_lastTokens fun name value => (same name value).mp
    · exact lastOf_of_lastTokens fun name value => (same name value).mpr
  have assignments : ∀ part, lastAt? Assignment.part part as = lastAt? Assignment.part part bs := by
    refine lastAt?_eq_of_forall₂ ?_ ?_ (forall₂_entries readV) (forall₂_entries readW) tokens
    · exact fun t a read => Assignment.part_of_ofPart read
    · exact fun t a b ha hb => Except.ok.inj (ha.symm.trans hb)
  have drafts : (Draft.blank s).assignAll as = (Draft.blank s).assignAll bs :=
    Draft.overwrites_assign.foldl_eq assignments (Draft.blank s)
  rw [drafts] at builtV
  exact Except.ok.inj (builtV.symm.trans builtW)

/-- Tokens in another order, with an end and a frequency that later ones override, an empty token, other
    blanks and cases, and the word for a rule in front. -/
theorem eq_of_lastTokens_reordered :
    let v := "FREQ=WEEKLY;COUNT=3;INTERVAL=2;FREQ=DAILY;X-Note=a"
    let w := " rrule: x-note =a;; interval=2;UNTIL=20240101;freq=DAILY;COUNT=3"
    (∀ name value, LastToken v name value ↔ LastToken w name value) ∧
      ∃ r, parseWith .standard v = .ok r ∧ parseWith .standard w = .ok r := by
  intro v w
  have entriesV : entries v = [("FREQ", "WEEKLY"), ("COUNT", "3"), ("INTERVAL", "2"),
      ("FREQ", "DAILY"), ("X-NOTE", "a")] := by decide
  have entriesW : entries w = [("X-NOTE", "a"), ("INTERVAL", "2"), ("UNTIL", "20240101"),
      ("FREQ", "DAILY"), ("COUNT", "3")] := by decide
  have last : ∀ part, lastOf v part = lastOf w part := by
    intro part
    unfold lastOf
    rw [entriesV, entriesW]
    cases part with
    | extra other =>
      by_cases own : DraftPart.extra "X-NOTE" = DraftPart.extra other
      · rw [← own]
        rfl
      · simp [lastAt?, DraftPart.ofName, own]
    | _ => rfl
  have same : ∀ name value, LastToken v name value ↔ LastToken w name value := by
    intro name value
    rw [lastToken_iff, lastToken_iff, last]
  obtain ⟨r, readV⟩ : ∃ r, parseWith .standard v = .ok r := by
    have row : items ';' (body v) = ["FREQ=WEEKLY".toList, "COUNT=3".toList, "INTERVAL=2".toList,
        "FREQ=DAILY".toList, "X-Note=a".toList] := by decide
    unfold parseWith
    rw [row]
    exact ⟨_, rfl⟩
  obtain ⟨q, readW⟩ : ∃ q, parseWith .standard w = .ok q := by
    have row : items ';' (body w) = ["x-note =a".toList, "interval=2".toList,
        "UNTIL=20240101".toList, "freq=DAILY".toList, "COUNT=3".toList] := by decide
    unfold parseWith
    rw [row]
    exact ⟨_, rfl⟩
  have equal : r = q := eq_of_lastTokens readV readW same
  exact ⟨same, r, readV, equal ▸ readW⟩

end Rule

end Almanac
