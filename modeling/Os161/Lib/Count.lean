import Mathlib.Logic.Function.Basic
import Mathlib.Data.List.Basic

/-! # Counting in a table

How many of the first `n` slots of a table hold a value, and how a change of one slot changes it.
-/

namespace Table

variable {α : Type} [DecidableEq α]

def count (n : Nat) (f : Nat → Option α) (a : α) : Nat := (List.range n).countP fun k => f k = some a

theorem count_le (n : Nat) (f : Nat → Option α) (a : α) : count n f a ≤ n := by
  have := List.countP_le_length (p := fun k => decide (f k = some a)) (l := List.range n)
  simpa [count] using this

theorem count_congr {n : Nat} {f g : Nat → Option α} {a : α} (h : ∀ k < n, f k = g k) :
    count n f a = count n g a :=
  List.countP_congr fun k hk => by rw [h k (List.mem_range.mp hk)]

theorem count_pos_iff {n : Nat} {f : Nat → Option α} {a : α} :
    0 < count n f a ↔ ∃ k < n, f k = some a := by
  simp [count, List.countP_pos_iff]

theorem count_succ (n : Nat) (f : Nat → Option α) (a : α) :
    count (n + 1) f a = count n f a + if f n = some a then 1 else 0 := by
  simp [count, List.range_succ, List.countP_append, List.countP_singleton]

theorem count_of_le {m n : Nat} {f : Nat → Option α} {a : α} (h : m ≤ n) (hf : ∀ k, m ≤ k → f k ≠ some a) :
    count n f a = count m f a := by
  induction h with
  | refl => rfl
  | @step n hmn ih => rw [count_succ, if_neg (hf n hmn), ih, Nat.add_zero]

theorem count_update (n : Nat) (f : Nat → Option α) {k : Nat} (hk : k < n) (x : Option α) (a : α) :
    (count n (Function.update f k x) a : Int) =
      count n f a + (if x = some a then 1 else 0) - (if f k = some a then 1 else 0) := by
  induction n with
  | zero => omega
  | succ n ih =>
    rw [count_succ, count_succ]
    rcases Nat.lt_or_ge k n with h | h
    · have := ih h
      rw [Function.update_of_ne (by omega)]
      omega
    · obtain rfl : k = n := by omega
      have : count k (Function.update f k x) a = count k f a :=
        count_congr fun j hj => Function.update_of_ne (by omega) _ _
      rw [this, Function.update_self]
      split <;> split <;> omega

end Table
