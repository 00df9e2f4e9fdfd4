import Mathlib.Algebra.Order.BigOperators.Group.Multiset
import Mathlib.Data.Multiset.AddSub

/-! # Who is alive, who is dead and who is buried

Things are born, die, and are buried all at once. The record has the last event first.
-/

inductive Vital (α : Type) where
  | birth (x : α) | death (x : α) | burial (x : α)
  deriving DecidableEq

structure Census (α : Type) where
  alive : Multiset α
  dead : Multiset α

namespace Census

variable {α : Type} {first : Multiset α} {c c' : Census α} {es tr : List (Vital α)} {x : α}

inductive Step : Census α → List (Vital α) → Census α → Prop where
  | stay (c : Census α) : Step c [] c
  | birth (x : α) (a d : Multiset α) : Step ⟨a, d⟩ [.birth x] ⟨x ::ₘ a, d⟩
  | death (x : α) (a d : Multiset α) : Step ⟨x ::ₘ a, d⟩ [.death x] ⟨a, x ::ₘ d⟩
  | burial (a : Multiset α) (zs : List α) : Step ⟨a, zs⟩ (zs.map .burial) ⟨a, 0⟩

variable [DecidableEq α]

def births (first : Multiset α) (tr : List (Vital α)) (x : α) : Nat := first.count x + tr.count (.birth x)

/-- Everything that was born is alive or has died, and what has died is dead or buried. -/
structure Accounts (first : Multiset α) (c : Census α) (tr : List (Vital α)) : Prop where
  alive : ∀ x, births first tr x = c.alive.count x + tr.count (.death x)
  dead : ∀ x, tr.count (.death x) = c.dead.count x + tr.count (.burial x)

theorem Accounts.init (first : Multiset α) : Accounts first ⟨first, 0⟩ [] := ⟨fun _ => rfl, fun _ => rfl⟩

theorem Accounts.step (h : Accounts first c tr) (hs : Step c es c') : Accounts first c' (es ++ tr) := by
  have hburied : ∀ (zs : List α) (x : α), (zs.map Vital.burial).count (.birth x) = 0 ∧
      (zs.map Vital.burial).count (.death x) = 0 ∧ (zs.map Vital.burial).count (.burial x) = zs.count x := by
    intro zs x
    refine ⟨List.count_eq_zero.mpr (by simp), List.count_eq_zero.mpr (by simp), ?_⟩
    exact List.count_map_of_injective zs _ (fun _ _ heq => Vital.burial.inj heq) x
  constructor <;> intro y <;> have ha := h.alive y <;> have hd := h.dead y <;> unfold births at * <;>
    simp only [List.count_append]
  · cases hs with
    | stay => simpa using ha
    | birth x a d | death x a d =>
      by_cases hxy : x = y
      · subst hxy; simp at ha ⊢; omega
      · simp [hxy, Ne.symm hxy] at ha ⊢; omega
    | burial a zs =>
      rw [(hburied zs y).1, (hburied zs y).2.1]
      simpa using ha
  · cases hs with
    | stay => simpa using hd
    | birth x a d => simpa using hd
    | death x a d =>
      by_cases hxy : x = y
      · subst hxy; simp at hd ⊢; omega
      · simp [hxy, Ne.symm hxy] at hd ⊢; omega
    | burial a zs =>
      rw [(hburied zs y).2.1, (hburied zs y).2.2]
      simpa using hd

section Once

variable (h : Accounts first c tr) (once : births first tr x ≤ 1)

include h once

theorem Accounts.count_alive :
    c.alive.count x = if (x ∈ first ∨ .birth x ∈ tr) ∧ Vital.death x ∉ tr then 1 else 0 := by
  have ha := h.alive x
  unfold births at ha once
  have hf : x ∈ first ↔ 0 < first.count x := Multiset.count_pos.symm
  have hb : Vital.birth x ∈ tr ↔ 0 < tr.count (.birth x) := List.count_pos_iff.symm
  have hd : Vital.death x ∈ tr ↔ 0 < tr.count (.death x) := List.count_pos_iff.symm
  simp only [hf, hb, hd]
  split <;> omega

theorem Accounts.count_dead :
    c.dead.count x = if Vital.death x ∈ tr ∧ Vital.burial x ∉ tr then 1 else 0 := by
  have ha := h.alive x
  have hdead := h.dead x
  unfold births at ha once
  have hd : Vital.death x ∈ tr ↔ 0 < tr.count (.death x) := List.count_pos_iff.symm
  have hb : Vital.burial x ∈ tr ↔ 0 < tr.count (.burial x) := List.count_pos_iff.symm
  simp only [hd, hb]
  split <;> omega

theorem Accounts.buried_once : tr.count (.burial x) ≤ 1 := by
  have ha := h.alive x
  have hdead := h.dead x
  omega

theorem Accounts.not_dead (hx : x ∈ c.alive) : x ∉ c.dead := by
  have ha := h.alive x
  have hdead := h.dead x
  have : 0 < c.alive.count x := Multiset.count_pos.mpr hx
  rw [← Multiset.count_pos]
  omega

end Once

end Census
