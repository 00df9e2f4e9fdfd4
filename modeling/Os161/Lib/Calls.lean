import Mathlib.Tactic.Common

/-! # Objects that answer calls

An object is a state and what each call does to it. What it is for is a relation between an abstract state, a call, the
answer and the abstract state after it.
-/

namespace Calls

variable {σ τ ι ρ : Type}

def run (call : ι → σ → Option (ρ × σ)) : List ι → σ → Option (List ρ × σ)
  | [], s => some ([], s)
  | i :: is, s => (call i s).bind fun r => (run call is r.2).map fun rs => (r.1 :: rs.1, rs.2)

def Legal (call : ι → σ → Option (ρ × σ)) (May : σ → ι → Prop) : List ι → σ → Prop
  | [], _ => True
  | i :: is, s => May s i ∧ ∀ r ∈ call i s, Legal call May is r.2

inductive Trace (Spec : τ → ι → ρ → τ → Prop) : τ → List ι → List ρ → τ → Prop
  | nil (a : τ) : Trace Spec a [] [] a
  | cons {a b c : τ} {i : ι} {r : ρ} {is : List ι} {rs : List ρ} :
      Spec a i r b → Trace Spec b is rs c → Trace Spec a (i :: is) (r :: rs) c

section Rule

variable {call : ι → σ → Option (ρ × σ)} {May : σ → ι → Prop} {Spec : τ → ι → ρ → τ → Prop}

instance decidableLegal [∀ s i, Decidable (May s i)] (is : List ι) (s : σ) : Decidable (Legal call May is s) :=
  match is with
  | [] => isTrue trivial
  | i :: is =>
    have : DecidablePred fun r : ρ × σ => Legal call May is r.2 := fun r => decidableLegal is r.2
    inferInstanceAs (Decidable (May s i ∧ ∀ r ∈ call i s, Legal call May is r.2))

/-- One call that keeps the invariant and its part of the specification is enough for every sequence. -/
theorem run_trace (Inv : σ → Prop) (abs : σ → τ)
    (step : ∀ i s, Inv s → May s i → ∃ r t, call i s = some (r, t) ∧ Inv t ∧ Spec (abs s) i r (abs t))
    (is : List ι) {s : σ} (hs : Inv s) (hl : Legal call May is s) :
    ∃ rs t, run call is s = some (rs, t) ∧ Inv t ∧ Trace Spec (abs s) is rs (abs t) := by
  induction is generalizing s with
  | nil => exact ⟨[], s, rfl, hs, .nil _⟩
  | cons i is ih =>
    obtain ⟨r, t, hcall, ht, hspec⟩ := step i s hs hl.1
    obtain ⟨rs, u, hrun, hu, htrace⟩ := ih ht (hl.2 (r, t) hcall)
    refine ⟨r :: rs, u, ?_, hu, .cons hspec htrace⟩
    rw [run, hcall, Option.bind_some, hrun]
    rfl

theorem Trace.const {a b : τ} {is : List ι} {rs : List ρ} {answer : ρ}
    (hspec : ∀ a i r b, Spec a i r b → r = answer ∧ b = a) (h : Trace Spec a is rs b) :
    rs = is.map (fun _ => answer) ∧ b = a := by
  induction h with
  | nil => exact ⟨rfl, rfl⟩
  | cons hcall _ ih =>
    obtain ⟨rfl, rfl⟩ := hspec _ _ _ _ hcall
    obtain ⟨rfl, rfl⟩ := ih
    exact ⟨rfl, rfl⟩

end Rule

end Calls
