import Mathlib.Data.List.TakeWhile

/-! # The runs of a list between separators -/

namespace Runs

variable {α : Type*} {sep : α → Bool} {s w l : List α} {c : α}

/-- The maximal nonempty runs of elements that are not separators, in order. -/
def runs (sep : α → Bool) (l : List α) : List (List α) := (l.splitOnP sep).filter (· ≠ [])

@[simp]
theorem runs_nil (sep : α → Bool) : runs sep [] = [] := rfl

theorem runs_sep (hc : sep c = true) (l : List α) : runs sep (c :: l) = runs sep l := by
  rw [runs, List.splitOnP_cons_eq_if_modifyHead, if_pos hc, List.filter_cons_of_neg (by simp), runs]

theorem runs_seps (hs : ∀ x ∈ s, sep x = true) (l : List α) : runs sep (s ++ l) = runs sep l := by
  induction s with
  | nil => rfl
  | cons c s ih =>
    rw [List.forall_mem_cons] at hs
    rw [List.cons_append, runs_sep hs.1, ih hs.2]

theorem runs_word (hne : w ≠ []) (hw : ∀ x ∈ w, sep x = false) : runs sep w = [w] := by
  rw [runs, List.splitOnP_eq_singleton hw]
  simp [hne]

theorem runs_word_sep (hne : w ≠ []) (hw : ∀ x ∈ w, sep x = false) (hc : sep c = true) (l : List α) :
    runs sep (w ++ c :: l) = w :: runs sep l := by
  rw [runs, List.splitOnP_append_cons_of_forall_mem hw c hc, List.filter_cons_of_pos (by simp [hne]), runs]

structure First (sep : α → Bool) (l s w rest : List α) : Prop where
  eq : l = s ++ w ++ rest
  seps : ∀ x ∈ s, sep x = true
  ne_nil : w ≠ []
  word : ∀ x ∈ w, sep x = false
  stop : ∀ c ∈ rest.head?, sep c = true

theorem First.runs_eq {rest : List α} (h : First sep l s w rest) : runs sep l = w :: runs sep rest.tail := by
  rw [h.eq, List.append_assoc, runs_seps h.seps]
  cases rest with
  | nil => rw [List.append_nil, runs_word h.ne_nil h.word, List.tail_nil, runs_nil]
  | cons c rest => exact runs_word_sep h.ne_nil h.word (h.stop c rfl) rest

theorem runs_all (h : ∀ x ∈ l, sep x = true) : runs sep l = [] := by
  have := runs_seps h []
  rwa [List.append_nil] at this

theorem runs_cases (sep : α → Bool) (l : List α) : (∀ x ∈ l, sep x = true) ∨ ∃ s w rest, First sep l s w rest := by
  induction l with
  | nil => simp
  | cons c l ih =>
    by_cases hc : sep c = true
    · rcases ih with hall | ⟨s, w, rest, h⟩
      · exact .inl (List.forall_mem_cons.2 ⟨hc, hall⟩)
      · refine .inr ⟨c :: s, w, rest, ?_, List.forall_mem_cons.2 ⟨hc, h.seps⟩, h.ne_nil, h.word, h.stop⟩
        rw [h.eq]
        rfl
    · rw [Bool.not_eq_true] at hc
      refine .inr ⟨[], c :: l.takeWhile (!sep ·), l.dropWhile (!sep ·), ?_, by simp, by simp, ?_, ?_⟩
      · rw [List.nil_append, List.cons_append, List.takeWhile_append_dropWhile]
      · refine List.forall_mem_cons.2 ⟨hc, fun x hx => ?_⟩
        simpa using List.mem_takeWhile_imp hx
      · intro x hx
        have := List.head?_dropWhile_not (!sep ·) l
        rw [Option.mem_def.1 hx] at this
        simpa using this

theorem ne_nil_of_mem_runs (h : w ∈ runs sep l) : w ≠ [] := by
  simpa using (List.mem_filter.1 h).2

theorem runs_length_le (sep : α → Bool) (l : List α) : (runs sep l).length ≤ l.length + 1 := by
  have hsplit : (l.splitOnP sep).length ≤ l.length + 1 := by
    induction l with
    | nil => simp
    | cons c l ih =>
      rw [List.splitOnP_cons_eq_if_modifyHead]
      split
      · simpa using ih
      · rw [List.length_modifyHead]
        exact Nat.le_succ_of_le ih
  exact (List.length_filter_le ..).trans hsplit

end Runs
