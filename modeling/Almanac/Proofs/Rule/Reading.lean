import Almanac.Proofs.Temporal.RoundTrip
import Almanac.Rule.Parser

/-!
# What reading leaves in a rule

A rule that has been read is made of what its tokens say. This file fixes

* **what can be written so that it reads the same** (`Rule.Legible`): a last value that the readers of
  values answer, and extra parts whose names and values fit into one token and are in the order of
  their names;
* an assignment that a token makes is legible (`Assignment.legible_of_ofToken`), a draft stays so
  under legible assignments (`Draft.Legible.assign`), and hence **every rule that is read is legible**
  (`Rule.legible_of_parseWith`).
-/

namespace Almanac

open Text

/-! ## 1. Names and values of one token -/

/-- A name as tokens give it: trimmed, in upper case, and without the sign that ends it. -/
def IsName (name : String) : Prop :=
  trim name.toList = name.toList ∧ upper name.toList = name.toList ∧ '=' ∉ name.toList

instance (name : String) : Decidable (IsName name) := inferInstanceAs (Decidable (_ ∧ _ ∧ _))

/-- A text that a semicolon behind it ends, and nothing before. -/
structure FitsToken (cs : List Char) : Prop where
  whole : ';' ∉ cs
  last : ∀ c ∈ cs.getLast?, isBlank c = false

/-- An extra part that its own token reads. -/
structure LegibleExtra (s : Settings) (part : String × String) : Prop where
  isName : IsName part.1
  name : ';' ∉ part.1.toList
  value : FitsToken part.2.toList
  read : Assignment.ofPart s part.1 part.2 = .ok (.extra part.1 part.2)

namespace Assignment

/-- An assignment of something that can be written so that it reads the same. -/
def Legible (s : Settings) : Assignment → Prop
  | .last t => t.Legible s.relaxed
  | .extra name value => LegibleExtra s (name, value)
  | _ => True

variable {s : Settings} {a : Assignment}

/-- What a known part sets is legible when its reading is. -/
theorem legible_of_map {α : Type} {x : Except Fault α} {make : α → Assignment}
    (h : x.map make = .ok a) (legible : ∀ v, x = .ok v → (make v).Legible s) : a.Legible s := by
  obtain ⟨v, read, rfl⟩ := Results.map_eq_ok h
  exact legible v read

theorem legible_of_ofPart {name value : String} (isName : IsName name) (whole : ';' ∉ name.toList)
    (fits : FitsToken value.toList) (h : ofPart s name value = .ok a) : a.Legible s := by
  have read := h
  unfold ofPart at h
  split at h
  case h_2 => exact legible_of_map h fun v read => Temporal.legible_of_parseWith read
  case h_17 =>
    split at h
    · cases h
      exact ⟨isName, whole, fits, read⟩
    · cases h
  all_goals exact legible_of_map h fun _ _ => trivial

/-- **An assignment that a token makes is legible.** -/
theorem legible_of_ofToken {token : List Char} (whole : ';' ∉ token) (trimmed : trim token = token)
    (h : ofToken s token = .ok a) : a.Legible s := by
  unfold ofToken at h
  split at h
  · cases h
  · rename_i name value cut
    obtain ⟨parts, noSign⟩ := eq_of_cut? cut
    rw [parts] at whole
    have inName : ';' ∉ trim name := fun mem =>
      whole (List.mem_append_left _ (mem_of_mem_trim mem))
    have sign : '=' ∉ trim name := fun mem => noSign (mem_of_mem_trim mem)
    refine legible_of_ofPart ?_ ?_ ?_ h
    · refine ⟨?_, ?_, ?_⟩
      · rw [String.toList_ofList, trim_upper_trim]
      · rw [String.toList_ofList, upper_upper]
      · rw [String.toList_ofList]
        exact not_mem_upper (by decide) sign
    · rw [String.toList_ofList]
      exact not_mem_upper (by decide) inName
    · rw [String.toList_ofList]
      refine ⟨fun mem => whole (List.mem_append_right _ (List.mem_cons_of_mem _ mem)), ?_⟩
      intro c hc
      refine @getLast?_trim token c ?_
      rw [trimmed, parts, List.getLast?_append, List.getLast?_cons]
      rw [Option.mem_def] at hc
      rw [hc]
      rfl

end Assignment

/-! ## 2. Extra parts -/

namespace RuleParts

variable {name value : String} {extras : List (String × String)} {part : String × String}

theorem mem_of_mem_putExtra (h : part ∈ putExtra name value extras) :
    part = (name, value) ∨ part ∈ extras := by
  induction extras with
  | nil => exact .inl (List.mem_singleton.mp h)
  | cons other rest ih =>
    simp only [putExtra] at h
    split at h
    · exact List.mem_cons.mp h
    · split at h
      · exact (List.mem_cons.mp h).imp id (List.mem_cons_of_mem other)
      · rcases List.mem_cons.mp h with rfl | h
        · exact .inr List.mem_cons_self
        · exact (ih h).imp id (List.mem_cons_of_mem other)

/-- Extra parts stay in the order of their names. -/
theorem pairwise_putExtra (h : extras.Pairwise fun a b => a.1 < b.1) :
    (putExtra name value extras).Pairwise fun a b => a.1 < b.1 := by
  induction extras with
  | nil => exact List.pairwise_singleton _ _
  | cons other rest ih =>
    obtain ⟨first, sorted⟩ := List.pairwise_cons.mp h
    simp only [putExtra]
    split
    · rename_i before
      refine List.pairwise_cons.mpr ⟨fun part hpart => ?_, h⟩
      rcases List.mem_cons.mp hpart with rfl | hpart
      · exact before
      · exact String.lt_trans before (first part hpart)
    · split
      · rename_i same
        refine List.pairwise_cons.mpr ⟨fun part hpart => ?_, sorted⟩
        show name < part.1
        rw [same]
        exact first part hpart
      · rename_i notBefore differ
        refine List.pairwise_cons.mpr ⟨fun part hpart => ?_, ih sorted⟩
        rcases mem_of_mem_putExtra hpart with rfl | hpart
        · refine String.not_le.mp fun le => differ (String.le_antisymm le ?_)
          exact String.not_lt.mp notBefore
        · exact first part hpart

/-- A part behind all others goes to the end. -/
theorem putExtra_of_forall_lt (h : ∀ part ∈ extras, part.1 < name) :
    putExtra name value extras = extras ++ [(name, value)] := by
  induction extras with
  | nil => rfl
  | cons other rest ih =>
    have before := h other List.mem_cons_self
    have differ : name ≠ other.1 := fun e => String.lt_irrefl name (by rw [e] at before ⊢; exact before)
    rw [putExtra, if_neg (String.lt_asymm before), if_neg differ,
      ih fun part hpart => h part (List.mem_cons_of_mem other hpart)]
    rfl

end RuleParts

/-! ## 3. Drafts and rules -/

/-- Parts that can be written so that they read the same. -/
structure RuleParts.Legible (s : Settings) (p : RuleParts) : Prop where
  last : ∀ t ∈ p.last?, t.Legible s.relaxed
  extras : ∀ part ∈ p.extras, LegibleExtra s part
  ascending : p.extras.Pairwise fun a b => a.1 < b.1

theorem RuleParts.legible_none (s : Settings) : RuleParts.none.Legible s where
  last _ h := by cases h
  extras _ h := absurd h List.not_mem_nil
  ascending := .nil

theorem Draft.keptLast_of_unzoned {t : Temporal} (zone : t.zone? = none) : keptLast t = t := by
  cases t with
  | zoned z => cases zone
  | _ => rfl

/-- **A legible assignment keeps a draft legible**, and its settings. -/
theorem Draft.legible_assign {s : Settings} {d : Draft} {a : Assignment} (h : d.parts.Legible s)
    (ha : a.Legible s) : (d.assign a).parts.Legible s ∧ (d.assign a).settings = d.settings := by
  cases a with
  | count n =>
    refine ⟨⟨fun u hu => ?_, h.extras, h.ascending⟩, rfl⟩
    cases hu
  | last t =>
    have kept := keptLast_of_unzoned ha.zone
    refine ⟨⟨fun u hu => ?_, h.extras, h.ascending⟩, rfl⟩
    cases hu
    rw [kept]
    exact ha
  | extra name value =>
    refine ⟨⟨h.last, fun part hpart => ?_, RuleParts.pairwise_putExtra h.ascending⟩, rfl⟩
    rcases RuleParts.mem_of_mem_putExtra hpart with rfl | hpart
    · exact ha
    · exact h.extras part hpart
  | _ => exact ⟨⟨h.last, h.extras, h.ascending⟩, rfl⟩

theorem Draft.legible_assignAll {s : Settings} {d : Draft} {as : List Assignment}
    (h : d.parts.Legible s) (ha : ∀ a ∈ as, a.Legible s) :
    (d.assignAll as).parts.Legible s ∧ (d.assignAll as).settings = d.settings := by
  induction as generalizing d with
  | nil => exact ⟨h, rfl⟩
  | cons a rest ih =>
    obtain ⟨legible, settings⟩ := legible_assign h (ha a List.mem_cons_self)
    obtain ⟨legible', settings'⟩ := ih legible fun b hb => ha b (List.mem_cons_of_mem a hb)
    exact ⟨legible', settings'.trans settings⟩

theorem Draft.build_eq_ok {d : Draft} {r : Rule} (h : d.build = .ok r) :
    d.frequency = some r.frequency ∧ d.parts = r.parts ∧ d.settings = r.settings := by
  unfold build at h
  split at h
  · cases h
  · rename_i frequency
    unfold Rule.build at h
    split at h
    · cases h
      exact ⟨frequency, rfl, rfl⟩
    · cases h

/-- **Every rule that is read is legible, and has the settings it was read with.** -/
theorem Rule.legible_of_parseWith {s : Settings} {value : String} {r : Rule}
    (h : Rule.parseWith s value = .ok r) : r.parts.Legible s ∧ r.settings = s := by
  unfold parseWith at h
  obtain ⟨as, read, built⟩ := Results.bind_eq_ok h
  have legible : ∀ a ∈ as, a.Legible s := fun a ha => by
    obtain ⟨token, htoken, hread⟩ := Results.exists_of_mem_mapM read ha
    obtain ⟨whole, trimmed⟩ := of_mem_items htoken
    exact Assignment.legible_of_ofToken whole trimmed hread
  have blank : (Draft.blank s).parts.Legible s := RuleParts.legible_none s
  obtain ⟨parts, settings⟩ := Draft.legible_assignAll blank legible
  obtain ⟨-, sameParts, sameSettings⟩ := Draft.build_eq_ok built
  rw [← sameParts, ← sameSettings]
  exact ⟨parts, settings⟩

end Almanac
