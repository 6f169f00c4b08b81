/-!
# Ascending lists

Lists are put in the order of a key, and of several values with one key only the first stays. This
file fixes `ascending` and its three laws:

* the keys ascend strictly (`pairwise_ascending`);
* nothing comes in that was not there (`mem_of_mem_ascending`);
* every key that was there stays (`exists_mem_ascending`).
-/

namespace Almanac

variable {α : Type}

/-- The values whose key differs from that of the value right before them. -/
def thin (key : α → Int) : List α → List α
  | [] => []
  | a :: rest =>
    match thin key rest with
    | [] => [a]
    | b :: kept => if key a = key b then a :: kept else a :: b :: kept

/-- The values in the order of their keys; of several with one key the first one stays. -/
def ascending (key : α → Int) (values : List α) : List α :=
  thin key (values.mergeSort fun a b => key a ≤ key b)

/-- Thinning keeps the front. -/
theorem thin_cons_eq (key : α → Int) (a : α) (rest : List α) :
    ∃ kept, thin key (a :: rest) = a :: kept ∧ ∀ b ∈ kept, b ∈ thin key rest := by
  simp only [thin]
  split
  · exact ⟨[], rfl, by simp⟩
  · rename_i b kept h
    split
    · exact ⟨kept, rfl, fun c hc => by rw [h]; exact List.mem_cons_of_mem _ hc⟩
    · exact ⟨b :: kept, rfl, fun c hc => by rw [h]; exact hc⟩

theorem mem_of_mem_thin {key : α → Int} {values : List α} {a : α} (h : a ∈ thin key values) :
    a ∈ values := by
  induction values with
  | nil => simp [thin] at h
  | cons b rest ih =>
    obtain ⟨kept, eq, sub⟩ := thin_cons_eq key b rest
    rw [eq] at h
    rcases List.mem_cons.1 h with rfl | h
    · simp
    · exact List.mem_cons_of_mem _ (ih (sub a h))

theorem exists_mem_thin {key : α → Int} {values : List α} {a : α} (h : a ∈ values) :
    ∃ b ∈ thin key values, key b = key a := by
  induction values with
  | nil => simp at h
  | cons c rest ih =>
    rcases List.mem_cons.1 h with rfl | h
    · obtain ⟨kept, eq, -⟩ := thin_cons_eq key a rest
      exact ⟨a, by simp [eq], rfl⟩
    · obtain ⟨b, hb, hk⟩ := ih h
      simp only [thin]
      split
      · rename_i e; simp [e] at hb
      · rename_i d kept e
        rw [e] at hb
        split
        · rename_i hcd
          rcases List.mem_cons.1 hb with rfl | hb
          · exact ⟨c, by simp, hcd.trans hk⟩
          · exact ⟨b, by simp [hb], hk⟩
        · exact ⟨b, List.mem_cons_of_mem _ hb, hk⟩

/-- Thinned values in order have keys that ascend strictly. -/
theorem pairwise_thin {key : α → Int} {values : List α}
    (h : values.Pairwise fun a b => key a ≤ key b) :
    (thin key values).Pairwise fun a b => key a < key b := by
  induction values with
  | nil => simp [thin]
  | cons a rest ih =>
    obtain ⟨least, sorted⟩ := List.pairwise_cons.1 h
    have kept := ih sorted
    simp only [thin]
    split
    · simp
    · rename_i b tail e
      rw [e] at kept
      obtain ⟨first, kept'⟩ := List.pairwise_cons.1 kept
      split
      · rename_i hab
        exact List.pairwise_cons.2 ⟨fun c hc => by have := first c hc; omega, kept'⟩
      · rename_i hab
        have hb := least b (mem_of_mem_thin (by rw [e]; simp))
        refine List.pairwise_cons.2 ⟨fun c hc => ?_, kept⟩
        rcases List.mem_cons.1 hc with rfl | hc
        · omega
        · have := first c hc; omega

/-- **The keys of an ascending list ascend strictly.** -/
theorem pairwise_ascending (key : α → Int) (values : List α) :
    (ascending key values).Pairwise fun a b => key a < key b := by
  apply pairwise_thin
  have sorted := @List.pairwise_mergeSort α (fun a b => decide (key a ≤ key b))
    (by intro a b c; simp only [decide_eq_true_eq]; omega)
    (by intro a b; simp only [Bool.or_eq_true, decide_eq_true_eq]; omega) values
  exact sorted.imp (by simp)

theorem mem_of_mem_ascending {key : α → Int} {values : List α} {a : α}
    (h : a ∈ ascending key values) : a ∈ values := by
  simpa using mem_of_mem_thin h

theorem exists_mem_ascending {key : α → Int} {values : List α} {a : α} (h : a ∈ values) :
    ∃ b ∈ ascending key values, key b = key a :=
  exists_mem_thin (by simpa using h)

end Almanac
