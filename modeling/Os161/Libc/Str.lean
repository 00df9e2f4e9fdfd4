import Os161.Lib.Words

/-! # Strings in memory -/

namespace Os161.Libc

def str (m : Mem) (n : Nat) : List Byte := ((List.range n).map m).takeWhile (· ≠ 0)

def strchr (s : List Byte) (c : Byte) : Option Nat := (s ++ [0]).findIdx? (· == c)

def Begins (m : Mem) (text : List Byte) : Prop := ∀ i c, text[i]? = some c → m i = c

section

variable {m : Mem} {text t : List Byte} {c : Byte}

theorem begins_nil (m : Mem) : Begins m [] := by
  intro i c h
  cases h

theorem begins_snoc : Begins m (text ++ [c]) ↔ Begins m text ∧ m text.length = c := by
  constructor
  · intro h
    refine ⟨fun i x hx => h i x ?_, h _ _ (by simp)⟩
    rw [List.getElem?_append_left (List.getElem?_eq_some_iff.mp hx).1, hx]
  · rintro ⟨h, hc⟩ i x hx
    rcases Nat.lt_or_ge i text.length with hi | hi
    · rw [List.getElem?_append_left hi] at hx
      exact h i x hx
    · rw [List.getElem?_append_right hi, List.getElem?_singleton] at hx
      split at hx
      · obtain rfl : i = text.length := by omega
        rw [hc]
        exact Option.some.inj hx
      · cases hx

theorem Begins.of_isPrefix (h : Begins m text) (ht : t <+: text) : Begins m t := by
  obtain ⟨r, rfl⟩ := ht
  intro i c hc
  exact h i c (by rw [List.getElem?_append_left (List.getElem?_eq_some_iff.mp hc).1, hc])

theorem Begins.update (h : Begins m text) {i : Nat} (hi : text.length ≤ i) (b : Byte) :
    Begins (Function.update m i b) text := by
  intro j c hc
  have hj := (List.getElem?_eq_some_iff.mp hc).1
  rw [Function.update_of_ne (by omega)]
  exact h j c hc

theorem Begins.map_range (h : Begins m text) : (List.range text.length).map m = text := by
  apply List.ext_getElem?
  intro i
  rw [List.getElem?_map]
  rcases Nat.lt_or_ge i text.length with hi | hi
  · rw [List.getElem?_range hi, List.getElem?_eq_getElem hi, Option.map_some,
      h i _ (List.getElem?_eq_getElem hi)]
  · rw [List.getElem?_eq_none (by simpa using hi), List.getElem?_eq_none hi]
    rfl

theorem Begins.str_eq (h : Begins m text) (hz : m text.length = 0) (hne : ∀ c ∈ text, c ≠ 0) {n : Nat}
    (hn : text.length < n) : str m n = text := by
  have hsplit : (List.range n).map m =
      text ++ 0 :: ((List.range (n - text.length - 1)).map fun i => m (text.length + 1 + i)) := by
    rw [show n = text.length + (1 + (n - text.length - 1)) by omega, List.range_add, List.map_append, h.map_range,
      List.range_add, List.map_append, List.map_append]
    simp [hz]
  rw [str, hsplit, List.takeWhile_append_of_pos (by simpa using hne)]
  simp

theorem strchr_isSome {s : List Byte} (hc : c ≠ 0) : (strchr s c).isSome = true ↔ c ∈ s := by
  have hzero : 0#8 ≠ c := Ne.symm hc
  rw [strchr, List.findIdx?_isSome, List.any_append, Bool.or_eq_true]
  simp [hzero]

end

end Os161.Libc
