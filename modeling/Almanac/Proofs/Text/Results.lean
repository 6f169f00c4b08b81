import Mathlib.Data.List.Forall2

/-!
# Readings that succeed

A reader answers a value or a fault, and goes on only from a value. This file says what a success of
the whole tells about its steps: of two in a row (`bind_eq_ok`), of a last change (`map_eq_ok`), and
of a list read item by item (`mapM_eq_ok_iff`).
-/

namespace Almanac.Results

universe u v

variable {ε : Type u} {α β : Type v} {b : β}

theorem bind_eq_ok {x : Except ε α} {f : α → Except ε β} (h : (x >>= f) = .ok b) :
    ∃ a, x = .ok a ∧ f a = .ok b := by
  cases x with
  | error e => cases h
  | ok a => exact ⟨a, rfl, h⟩

theorem map_eq_ok {x : Except ε α} {f : α → β} (h : x.map f = .ok b) :
    ∃ a, x = .ok a ∧ f a = b := by
  cases x with
  | error e => cases h
  | ok a =>
    cases h
    exact ⟨a, rfl, rfl⟩

/-- A success can be told by its value. -/
theorem eq_ok_of_toOption {x : Except ε α} {a : α} (h : x.toOption = some a) : x = .ok a := by
  cases x with
  | error e => cases h
  | ok b =>
    cases h
    rfl

theorem map_of_eq_ok {x : Except ε α} {a : α} (h : x = .ok a) (f : α → β) :
    x.map f = .ok (f a) := by
  rw [h]
  rfl

/-- **A list is read when each of its items is.** -/
theorem mapM_eq_ok_iff {f : α → Except ε β} {xs : List α} {ys : List β} :
    xs.mapM f = .ok ys ↔ List.Forall₂ (fun x y => f x = .ok y) xs ys := by
  induction xs generalizing ys with
  | nil =>
    rw [List.mapM_nil, List.forall₂_nil_left_iff]
    constructor
    · intro h
      cases h
      rfl
    · rintro rfl
      rfl
  | cons x rest ih =>
    rw [List.mapM_cons]
    constructor
    · intro h
      obtain ⟨y, hy, h⟩ := bind_eq_ok h
      obtain ⟨others, hrest, h⟩ := bind_eq_ok h
      cases h
      exact .cons hy (ih.mp hrest)
    · intro h
      cases h with
      | cons hy hrest =>
        rw [hy, ih.mpr hrest]
        rfl

/-- What a list is read as comes from its items. -/
theorem exists_of_mem_mapM {f : α → Except ε β} {xs : List α} {ys : List β}
    (h : xs.mapM f = .ok ys) (hb : b ∈ ys) : ∃ x ∈ xs, f x = .ok b := by
  replace h := mapM_eq_ok_iff.mp h
  induction h with
  | nil => cases hb
  | cons hy _ ih =>
    rcases List.mem_cons.mp hb with rfl | hb
    · exact ⟨_, List.mem_cons_self, hy⟩
    · obtain ⟨x, hx, e⟩ := ih hb
      exact ⟨x, List.mem_cons_of_mem _ hx, e⟩

/-- Every item of a list that is read has been read. -/
theorem exists_mem_of_mapM {f : α → Except ε β} {xs : List α} {ys : List β}
    (h : xs.mapM f = .ok ys) {x : α} (hx : x ∈ xs) : ∃ y ∈ ys, f x = .ok y := by
  replace h := mapM_eq_ok_iff.mp h
  induction h with
  | nil => cases hx
  | cons hy _ ih =>
    rcases List.mem_cons.mp hx with rfl | hx
    · exact ⟨_, List.mem_cons_self, hy⟩
    · obtain ⟨y, hy, e⟩ := ih hx
      exact ⟨y, List.mem_cons_of_mem _ hy, e⟩

end Almanac.Results
