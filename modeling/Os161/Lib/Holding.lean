import Mathlib.Data.Set.Insert

/-! # Resources held once

Holders `ι` have places `κ`, and each place holds a resource or nothing. No resource is held twice
and each one held is in use.
-/

/-- What the holders in `I` hold is in `used`, each resource in one place. `0` is nothing. -/
structure Holding {ι κ β : Type} [Zero β] (I : Set ι) (r : ι → κ → β) (used : Set β) : Prop where
  mem : ∀ i ∈ I, ∀ k, r i k ≠ 0 → r i k ∈ used
  inj : ∀ i ∈ I, ∀ j ∈ I, ∀ k l, r i k ≠ 0 → r i k = r j l → i = j ∧ k = l

namespace Holding

variable {ι κ β : Type} [Zero β] {I I' : Set ι} {r r' : ι → κ → β} {used used' : Set β}

theorem take (h : Holding I r used) {i : ι} {k : κ} {b : β} (hb : b ∉ used) (hik : r' i k = b)
    (hold : ∀ j ∈ I', ∀ l, (j, l) ≠ (i, k) → r' j l ≠ 0 → j ∈ I ∧ r' j l = r j l) :
    Holding I' r' (insert b used) := by
  have hne : ∀ j ∈ I', ∀ l, (j, l) ≠ (i, k) → r' j l ≠ 0 → r' j l ≠ b := by
    intro j hj l hjl h0 he
    obtain ⟨hjI, hr⟩ := hold j hj l hjl h0
    exact hb (he ▸ hr ▸ h.mem j hjI l (hr ▸ h0))
  constructor
  · intro j hj l h0
    by_cases hjl : (j, l) = (i, k)
    · obtain ⟨rfl, rfl⟩ := Prod.mk.inj hjl
      exact Set.mem_insert_iff.mpr (Or.inl hik)
    · obtain ⟨hjI, hr⟩ := hold j hj l hjl h0
      exact Set.mem_insert_of_mem _ (hr ▸ h.mem j hjI l (hr ▸ h0))
  · intro j hj j' hj' l l' h0 he
    by_cases hjl : (j, l) = (i, k) <;> by_cases hjl' : (j', l') = (i, k)
    · have := Prod.mk.inj (hjl.trans hjl'.symm)
      exact this
    · obtain ⟨rfl, rfl⟩ := Prod.mk.inj hjl
      exact absurd (he ▸ hik) (hne j' hj' l' hjl' (he ▸ h0))
    · obtain ⟨rfl, rfl⟩ := Prod.mk.inj hjl'
      exact absurd (he.trans hik) (hne j hj l hjl h0)
    · obtain ⟨hjI, hr⟩ := hold j hj l hjl h0
      obtain ⟨hjI', hr'⟩ := hold j' hj' l' hjl' (he ▸ h0)
      exact h.inj j hjI j' hjI' l l' (hr ▸ h0) (by rw [← hr, ← hr', he])

theorem drop (h : Holding I r used) (hI : I' ⊆ I) (hold : ∀ j ∈ I', ∀ l, r' j l ≠ 0 → r' j l = r j l)
    (hused : ∀ j ∈ I', ∀ l, r' j l ≠ 0 → r' j l ∈ used → r' j l ∈ used') : Holding I' r' used' := by
  constructor
  · intro j hj l h0
    have hr := hold j hj l h0
    exact hused j hj l h0 (hr ▸ h.mem j (hI hj) l (hr ▸ h0))
  · intro j hj j' hj' l l' h0 he
    have hr := hold j hj l h0
    have hr' := hold j' hj' l' (he ▸ h0)
    exact h.inj j (hI hj) j' (hI hj') l l' (hr ▸ h0) (by rw [← hr, ← hr', he])

theorem subset (h : Holding I r used) (hI : I' ⊆ I) : Holding I' r used :=
  h.drop hI (fun _ _ _ _ => rfl) fun _ _ _ _ => id

theorem ne (h : Holding I r used) {i j : ι} {k l : κ} (hi : i ∈ I) (hj : j ∈ I) (h0 : r i k ≠ 0)
    (hne : (i, k) ≠ (j, l)) : r i k ≠ r j l := by
  intro he
  obtain ⟨rfl, rfl⟩ := h.inj i hi j hj k l h0 he
  exact hne rfl

end Holding
