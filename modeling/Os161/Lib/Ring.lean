import Mathlib.Data.Nat.ModEq
import Mathlib.Logic.Function.Basic

/-! # The contents of a circular buffer -/

namespace Ring

variable {α : Type} {size read write len : Nat} {data : Nat → α}

def window (size read len : Nat) (data : Nat → α) : List α :=
  (List.range len).map fun i => data ((read + i) % size)

def gap (size read write : Nat) : Nat := (write + size - read) % size

@[simp] theorem length_window : (window size read len data).length = len := by simp [window]

theorem gap_lt (h : 0 < size) : gap size read write < size := Nat.mod_lt _ h

theorem read_add_gap (hr : read < size) (hw : write < size) :
    (read + gap size read write) % size = write := by
  rw [gap, Nat.add_mod_mod, show read + (write + size - read) = write + size by omega,
    Nat.add_mod_right, Nat.mod_eq_of_lt hw]

theorem gap_eq (hr : read < size) (hlen : len < size) : gap size read ((read + len) % size) = len := by
  rcases Nat.lt_or_ge (read + len) size with h | h
  · rw [gap, Nat.mod_eq_of_lt h, show read + len + size - read = len + size by omega, Nat.add_mod_right,
      Nat.mod_eq_of_lt hlen]
  · have hm : (read + len) % size = read + len - size := by
      rw [Nat.mod_eq_sub_mod h, Nat.mod_eq_of_lt (by omega)]
    rw [gap, hm, show read + len - size + size - read = len by omega, Nat.mod_eq_of_lt hlen]

theorem slot_ne (read : Nat) {i j : Nat} (hi : i < size) (hj : j < size) (hij : i ≠ j) :
    (read + i) % size ≠ (read + j) % size := fun h =>
  hij ((Nat.ModEq.add_left_cancel' read h).eq_of_lt_of_lt hi hj)

theorem window_succ : window size read (len + 1) data =
    window size read len data ++ [data ((read + len) % size)] := by
  simp [window, List.range_succ]

theorem window_cons (hr : read < size) : window size read (len + 1) data =
    data read :: window size ((read + 1) % size) len data := by
  simp only [window, List.range_succ_eq_map, List.map_cons, List.map_map, Nat.add_zero,
    Nat.mod_eq_of_lt hr, List.cons.injEq, true_and]
  apply List.map_congr_left
  intro i _
  simp only [Function.comp_apply, Nat.mod_add_mod]
  rw [show read + i.succ = read + 1 + i by omega]

theorem window_write (read : Nat) (data : Nat → α) (x : α) (hlen : len < size) :
    window size read (len + 1) (Function.update data ((read + len) % size) x) =
      window size read len data ++ [x] := by
  rw [window_succ, Function.update_self]
  congr 1
  apply List.map_congr_left
  intro i hi
  have : i < len := List.mem_range.mp hi
  exact Function.update_of_ne (slot_ne read (by omega) hlen (by omega)) _ _

end Ring
