import Mathlib.Algebra.BigOperators.Ring.Finset
import Mathlib.Algebra.Order.BigOperators.Group.Finset
import Mathlib.Algebra.BigOperators.Group.Finset.Piecewise
import Mathlib.Tactic.Common

/-! # Counting threads by their place

Every thread of a finite set has a place. How many of them are at places of one kind, and how that
changes when one thread moves.
-/

namespace Tally

variable {ι α : Type} [Fintype ι] [DecidableEq ι]

open Finset

def total (w : α → Int) (f : ι → α) : Int := ∑ t, w (f t)

theorem total_update (w : α → Int) (f : ι → α) (t : ι) (x : α) :
    total w (Function.update f t x) = total w f - w (f t) + w x := by
  have hcomp : (fun u => w (Function.update f t x u)) = Function.update (fun u => w (f u)) t (w x) := by
    funext u
    by_cases hu : u = t
    · subst hu; simp
    · simp [hu]
  have hsum := add_sum_erase univ (fun u => w (f u)) (mem_univ t)
  unfold total
  rw [hcomp, sum_update_of_mem (mem_univ t), sdiff_singleton_eq_erase]
  omega

omit [DecidableEq ι] in
theorem le_total {w : α → Int} (hw : ∀ a, 0 ≤ w a) (f : ι → α) (t : ι) : w (f t) ≤ total w f :=
  single_le_sum (f := fun u => w (f u)) (fun u _ => hw (f u)) (mem_univ t)

theorem add_le_total {w : α → Int} (hw : ∀ a, 0 ≤ w a) (f : ι → α) {t u : ι} (h : t ≠ u) :
    w (f t) + w (f u) ≤ total w f := by
  have hpair : ∑ x ∈ {t, u}, w (f x) = w (f t) + w (f u) := sum_pair h
  rw [← hpair]
  exact sum_le_sum_of_subset_of_nonneg (subset_univ _) fun x _ _ => hw (f x)

def tally (p : α → Bool) (f : ι → α) : Nat := (univ.filter fun t => p (f t)).card

section

variable {p q : α → Bool} {f : ι → α} {t u : ι}

omit [DecidableEq ι] in
theorem tally_eq_total (p : α → Bool) (f : ι → α) : (tally p f : Int) = total (fun a => (p a).toNat) f := by
  simp [tally, total, Bool.toNat, cond_eq_ite]

theorem tally_update (p : α → Bool) (f : ι → α) (t : ι) (x : α) :
    tally p (Function.update f t x) + (p (f t)).toNat = tally p f + (p x).toNat := by
  have h := total_update (fun a => ((p a).toNat : Int)) f t x
  rw [← tally_eq_total, ← tally_eq_total] at h
  omega

theorem tally_update_same {x : α} (h : p x = p (f t)) : tally p (Function.update f t x) = tally p f := by
  have := tally_update p f t x
  rw [h] at this
  omega

omit [DecidableEq ι] in
theorem tally_eq_zero : tally p f = 0 ↔ ∀ t, p (f t) = false := by
  simp [tally, filter_eq_empty_iff]

omit [DecidableEq ι] in
theorem exists_of_tally_ne_zero (h : tally p f ≠ 0) : ∃ t, p (f t) = true := by
  by_contra hnone
  exact h (tally_eq_zero.mpr fun t => by simpa using not_exists.mp hnone t)

omit [DecidableEq ι] in
theorem tally_pos (h : p (f t) = true) : 0 < tally p f :=
  card_pos.mpr ⟨t, by simpa using h⟩

omit [DecidableEq ι] in
theorem tally_congr (h : ∀ t, p (f t) = q (f t)) : tally p f = tally q f := by
  simp [tally, h]

omit [DecidableEq ι] in
theorem eq_of_tally_le (h : tally p f ≤ 1) (ht : p (f t) = true) (hu : p (f u) = true) : t = u :=
  card_le_one.mp h t (by simpa using ht) u (by simpa using hu)

end

omit [Fintype ι] in
theorem forall_some_update {f : ι → Option α} {t : ι} {o : Option α} {Q : ι → α → Prop}
    (hne : ∀ u a, u ≠ t → f u = some a → Q u a) (ht : ∀ a, o = some a → Q t a) :
    ∀ u a, Function.update f t o u = some a → Q u a :=
  (Function.forall_update_iff f (p := fun u b => ∀ a, b = some a → Q u a)).mpr
    ⟨ht, fun u hu a => hne u a hu⟩

end Tally
