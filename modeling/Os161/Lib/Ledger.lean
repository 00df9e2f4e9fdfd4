import Mathlib.Algebra.Group.Hom.Basic
import Mathlib.Logic.Nontrivial.Basic
import Mathlib.Tactic.Abel
import Os161.Lib.Prog

/-! # What programs add to a ledger

A ledger reads a number, or many, off the state. A program with a known entry for each of its results
changes the ledger by that entry, and entries of programs add up.
-/

namespace Prog

variable {π ε σ τ α β A : Type} [AddCommGroup A]

/-- Every run of `m` that ends with `r` adds `d r` to the ledger `μ`. -/
def Adds (μ : σ → A) (m : Prog π ε σ α) (d : Except ε α → A) : Prop :=
  ∀ s r t, m s = .ok (r, t) → μ t = μ s + d r

/-- The same of a program that never fails: nothing is said of its errors. -/
def Pays (μ : σ → A) (m : Prog π ε σ α) (d : α → A) : Prop :=
  ∀ d' : Except ε α → A, (∀ a, d' (.ok a) = d a) → Adds μ m d'

section

variable {μ : σ → A} {m : Prog π ε σ α} {d : Except ε α → A}

theorem Adds.congr {d' : Except ε α → A} (h : Adds μ m d) (hd : ∀ r, d' r = d r) : Adds μ m d' := by
  intro s r t hr
  rw [hd]
  exact h s r t hr

theorem Adds.map {B : Type} [AddCommGroup B] (g : A →+ B) (h : Adds μ m d) :
    Adds (fun s => g (μ s)) m fun r => g (d r) := by
  intro s r t hr
  simp only [h s r t hr, map_add]

theorem adds_pure {a : α} (h : d (.ok a) = 0) : Adds μ (Pure.pure a : Prog π ε σ α) d := by
  intro s r t hr
  simp only [pure_run, Except.ok.injEq, Prod.mk.injEq] at hr
  obtain ⟨rfl, rfl⟩ := hr
  rw [h, add_zero]

theorem adds_throw {e : ε} (h : d (.error e) = 0) : Adds μ (throw e : Prog π ε σ α) d := by
  intro s r t hr
  simp only [throw_run, Except.ok.injEq, Prod.mk.injEq] at hr
  obtain ⟨rfl, rfl⟩ := hr
  rw [h, add_zero]

theorem adds_finish {r : Except ε α} (h : d r = 0) : Adds μ (finish r : Prog π ε σ α) d := by
  intro s r' t hr
  simp only [finish_run, Except.ok.injEq, Prod.mk.injEq] at hr
  obtain ⟨rfl, rfl⟩ := hr
  rw [h, add_zero]

theorem adds_stop {p : π} : Adds μ (stop p : Prog π ε σ α) d := by
  intro s r t hr
  cases hr

theorem adds_get_bind {f : σ → Prog π ε σ α} (hf : ∀ s, Adds μ (f s) d) : Adds μ (get >>= f) d := by
  intro s r t hr
  rw [bind_ok (get_run s)] at hr
  exact hf s s r t hr

theorem Adds.bind {f : α → Prog π ε σ β} {d' : Except ε β → A} (hm : Adds μ m d)
    (herr : ∀ e, d' (.error e) = d (.error e)) (hf : ∀ a, Adds μ (f a) fun r => d' r - d (.ok a)) :
    Adds μ (m >>= f) d' := by
  intro s r t hr
  rw [bind_run] at hr
  split at hr
  · rename_i a u hu
    rw [hf a u r t hr, hm s _ u hu, add_assoc, add_sub_cancel]
  · rename_i e u hu
    simp only [Except.ok.injEq, Prod.mk.injEq] at hr
    obtain ⟨rfl, rfl⟩ := hr
    rw [hm s _ u hu, herr]
  · cases hr

theorem Pays.bind {f : α → Prog π ε σ β} {d : α → A} {d' : Except ε β → A} (hm : Pays μ m d)
    (hf : ∀ a, Adds μ (f a) fun r => d' r - d a) : Adds μ (m >>= f) d' :=
  (hm (fun r => match r with
    | .ok a => d a
    | .error e => d' (.error e)) fun _ => rfl).bind (fun _ => rfl) hf

theorem Pays.bind_zero {f : α → Prog π ε σ β} {d : Except ε β → A} (hm : Pays μ m fun _ => 0)
    (hf : ∀ a, Adds μ (f a) d) : Adds μ (m >>= f) d :=
  hm.bind fun a => (hf a).congr fun _ => sub_zero _

theorem Pays.adds {d : α → A} {d' : Except ε α → A} (hm : Pays μ m d) (h : ∀ a, d' (.ok a) = d a) :
    Adds μ m d' :=
  hm d' h

theorem Pays.never_fails [Nontrivial A] {d : α → A} (h : Pays μ m d) (s t : σ) (e : ε) :
    m s ≠ .ok (.error e, t) := by
  intro hr
  have hx : ∀ x : A, μ t = μ s + x := fun x => h (fun r => match r with
    | .ok a => d a
    | .error _ => x) (fun _ => rfl) s _ t hr
  obtain ⟨x, y, hxy⟩ := exists_pair_ne A
  exact hxy (add_left_cancel ((hx x).symm.trans (hx y)))

theorem Pays.map [Nontrivial A] {B : Type} [AddCommGroup B] (g : A →+ B) {d : α → A} (h : Pays μ m d) :
    Pays (fun s => g (μ s)) m fun a => g (d a) := by
  intro d' hd s r t hr
  cases r with
  | error e => exact absurd hr (h.never_fails s t e)
  | ok a =>
    have hμ : μ t = μ s + d a := h (fun r => match r with
      | .ok a => d a
      | .error _ => 0) (fun _ => rfl) s _ t hr
    simp only [hd, hμ, map_add]

theorem adds_replace {f : σ → σ} {g : σ → Prog π ε σ α} (h : ∀ s, Adds μ (g s) fun r => d r - (μ (f s) - μ s)) :
    Adds μ (get >>= fun s => set (f s) >>= fun _ => g s) d := by
  intro s r t hr
  rw [bind_ok (get_run s), bind_ok (set_run s (f s))] at hr
  calc μ t = μ (f s) + (d r - (μ (f s) - μ s)) := h s (f s) r t hr
    _ = μ s + d r := by abel

theorem pays_modify {f : σ → σ} {x : A} (h : ∀ s, μ (f s) = μ s + x) :
    Pays μ (modify f : Prog π ε σ PUnit) fun _ => x := by
  intro d' hd s r t hr
  simp only [modify_run, Except.ok.injEq, Prod.mk.injEq] at hr
  obtain ⟨rfl, rfl⟩ := hr
  rw [h, hd]

theorem Adds.bind_attempt {f : Except ε α → Prog π ε σ β} {d' : Except ε β → A} (hm : Adds μ m d)
    (hf : ∀ r, Adds μ (f r) fun r' => d' r' - d r) : Adds μ (attempt m >>= f) d' := by
  intro s r t hr
  cases hu : m s with
  | ok x =>
    obtain ⟨r', u⟩ := x
    rw [bind_ok (attempt_ok hu)] at hr
    rw [hf r' u r t hr, hm s r' u hu, add_assoc, add_sub_cancel]
  | error p =>
    rw [bind_run, Prog.attempt, hu] at hr
    cases hr

theorem adds_ensure_bind {c : Prop} [Decidable c] {p : π} {f : PUnit → Prog π ε σ α} (hf : c → Adds μ (f ⟨⟩) d) :
    Adds μ (ensure c p >>= f) d := by
  intro s r t hr
  by_cases hc : c
  · rw [bind_ok (ensure_run s c p hc)] at hr
    exact hf hc s r t hr
  · rw [bind_run, ensure_fails s c p hc] at hr
    cases hr

end

theorem Adds.first {μ : σ → A} {m : Prog π ε σ α} {d : Except ε α → A} (h : Adds μ m d) :
    Adds (fun s : σ × τ => μ s.1) (first m : Prog π ε (σ × τ) α) d := by
  rintro ⟨s, u⟩ r t hr
  simp only [Prog.first, zoom] at hr
  split at hr
  · rename_i r' s' hs
    simp only [Except.ok.injEq, Prod.mk.injEq] at hr
    obtain ⟨rfl, rfl⟩ := hr
    exact h s r' s' hs
  · cases hr

theorem Pays.first {μ : σ → A} {m : Prog π ε σ α} {d : α → A} (h : Pays μ m d) :
    Pays (fun s : σ × τ => μ s.1) (first m : Prog π ε (σ × τ) α) d :=
  fun d' hd => (h d' hd).first

theorem Adds.withVar {μ : σ → A} {m : Prog π ε (σ × τ) α} {u : τ} {d : Except ε α → A} {d' : Except ε (α × τ) → A}
    (h : Adds (fun s : σ × τ => μ s.1) m d) (hok : ∀ a t, d' (.ok (a, t)) = d (.ok a))
    (herr : ∀ e, d' (.error e) = d (.error e)) : Adds μ (withVar u m) d' := by
  intro s r t hr
  simp only [Prog.withVar] at hr
  split at hr
  · rename_i a s' t' hs
    simp only [Except.ok.injEq, Prod.mk.injEq] at hr
    obtain ⟨rfl, rfl⟩ := hr
    rw [hok]
    exact h _ _ _ hs
  · rename_i e s' t' hs
    simp only [Except.ok.injEq, Prod.mk.injEq] at hr
    obtain ⟨rfl, rfl⟩ := hr
    rw [herr]
    exact h _ _ _ hs
  · cases hr

end Prog
