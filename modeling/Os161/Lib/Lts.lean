import Mathlib.Tactic.Common

/-! # Machines that take step after step

A step is picked by a choice and can stop the machine. A state is reached with the list of the events
on the way to it, the last event first.
-/

/-- First states, and what a choice does. -/
structure Machine (σ α ε π : Type) where
  init : σ → Prop
  step : σ → α → Except π (σ × List ε)

namespace Machine

variable {σ α ε π : Type} {M : Machine σ α ε π} {ok : σ → α → Prop}

/-- The states reached by choices that are all `ok` where they are made. -/
inductive Reach (M : Machine σ α ε π) (ok : σ → α → Prop) : σ → List ε → Prop where
  | init {s : σ} (h : M.init s) : Reach M ok s []
  | step {s t : σ} {a : α} {tr es : List ε} (h : Reach M ok s tr) (hok : ok s a)
      (hs : M.step s a = .ok (t, es)) : Reach M ok t (es ++ tr)

def Any (_ : σ) (_ : α) : Prop := True

instance (s : σ) (a : α) : Decidable (Any s a) := inferInstanceAs (Decidable True)

theorem Reach.mono {ok' : σ → α → Prop} (himp : ∀ s a, ok s a → ok' s a) {s : σ} {tr : List ε}
    (h : Reach M ok s tr) : Reach M ok' s tr := by
  induction h with
  | init h => exact .init h
  | step _ hok hs ih => exact .step ih (himp _ _ hok) hs

theorem Reach.any {s : σ} {tr : List ε} (h : Reach M ok s tr) : Reach M Any s tr :=
  h.mono fun _ _ _ => trivial

/-- The rule of invariants: true at first, and kept by every step from a state that is reached. -/
theorem Reach.invariant {I : σ → List ε → Prop} (h0 : ∀ s, M.init s → I s [])
    (hstep : ∀ s t a tr es, Reach M ok s tr → I s tr → ok s a → M.step s a = .ok (t, es) →
      I t (es ++ tr)) {s : σ} {tr : List ε} (h : Reach M ok s tr) : I s tr := by
  induction h with
  | init h => exact h0 _ h
  | step h hok hs ih => exact hstep _ _ _ _ _ h ih hok hs

def run (M : Machine σ α ε π) : List α → σ × List ε → Except π (σ × List ε)
  | [], x => .ok x
  | a :: as, (s, tr) =>
    match M.step s a with
    | .ok (t, es) => M.run as (t, es ++ tr)
    | .error p => .error p

theorem Reach.run {as : List α} {s t : σ} {tr tr' : List ε} (h : Reach M Any s tr)
    (hr : M.run as (s, tr) = .ok (t, tr')) : Reach M Any t tr' := by
  induction as generalizing s tr with
  | nil =>
    simp only [Machine.run, Except.ok.injEq, Prod.mk.injEq] at hr
    obtain ⟨rfl, rfl⟩ := hr
    exact h
  | cons a as ih =>
    rw [Machine.run] at hr
    split at hr
    · exact ih (.step h trivial (by assumption)) hr
    · cases hr

def runOk (M : Machine σ α ε π) (ok : σ → α → Prop) [∀ s a, Decidable (ok s a)] :
    List α → σ × List ε → Option (σ × List ε)
  | [], x => some x
  | a :: as, (s, tr) =>
    if ok s a then
      match M.step s a with
      | .ok (t, es) => M.runOk ok as (t, es ++ tr)
      | .error _ => none
    else none

theorem Reach.runOk [∀ s a, Decidable (ok s a)] {as : List α} {s t : σ} {tr tr' : List ε} (h : Reach M ok s tr)
    (hr : M.runOk ok as (s, tr) = some (t, tr')) : Reach M ok t tr' := by
  induction as generalizing s tr with
  | nil =>
    cases hr
    exact h
  | cons a as ih =>
    rw [Machine.runOk] at hr
    split at hr
    · rename_i hok
      split at hr
      · exact ih (.step h hok (by assumption)) hr
      · cases hr
    · cases hr

theorem exists_runOk (ok : σ → α → Prop) [∀ s a, Decidable (ok s a)] {s : σ} (as : List α)
    (check : σ × List ε → Bool) (h0 : M.init s)
    (h : (M.runOk ok as (s, [])).any check = true) : ∃ t tr, Reach M ok t tr ∧ check (t, tr) = true := by
  cases hr : M.runOk ok as (s, []) with
  | none => rw [hr] at h; cases h
  | some x =>
    rw [hr] at h
    exact ⟨x.1, x.2, Reach.runOk (.init h0) hr, h⟩

end Machine
