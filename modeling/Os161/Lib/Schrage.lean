import Mathlib.Tactic.LinearCombination
import Mathlib.Tactic.Positivity
import Mathlib.Data.Int.GCD

/-! # A product modulo `m` from two small products

With `q = m / a` and `r = m % a`, the number `a * (x % q) - r * (x / q)` is `a * x` modulo `m`. If `r ≤ q`, both of
its products are less than `m`.
-/

namespace Schrage

variable {a m x : Int}

def split (a m x : Int) : Int := a * (x % (m / a)) - m % a * (x / (m / a))

def reduce (a m x : Int) : Int := if split a m x ≤ 0 then split a m x + m else split a m x

theorem split_eq (a m x : Int) : split a m x = a * x - m * (x / (m / a)) := by
  have hx := Int.emod_add_mul_ediv x (m / a)
  have hm := Int.emod_add_mul_ediv m a
  rw [split]
  linear_combination a * hx - (x / (m / a)) * hm

theorem split_emod (a m x : Int) : split a m x % m = a * x % m := by
  rw [split_eq, Int.sub_mul_emod_self_left]

/-! ## The two products -/

theorem quotient_pos (ha : 0 < a) (ham : a ≤ m) : 0 < m / a :=
  (Int.le_ediv_iff_mul_le ha).mpr (by omega)

theorem low_nonneg (ha : 0 < a) (ham : a ≤ m) : 0 ≤ a * (x % (m / a)) :=
  Int.mul_nonneg ha.le (Int.emod_nonneg x (quotient_pos ha ham).ne')

theorem low_lt (ha : 0 < a) (ham : a ≤ m) : a * (x % (m / a)) < m := by
  have hlt : x % (m / a) < m / a := Int.emod_lt_of_pos x (quotient_pos ha ham)
  calc a * (x % (m / a)) < a * (m / a) := Int.mul_lt_mul_of_pos_left hlt ha
    _ ≤ m := Int.mul_ediv_self_le ha.ne'

theorem high_nonneg (ha : 0 < a) (ham : a ≤ m) (h0 : 0 ≤ x) : 0 ≤ m % a * (x / (m / a)) :=
  Int.mul_nonneg (Int.emod_nonneg m ha.ne') (Int.ediv_nonneg h0 (quotient_pos ha ham).le)

theorem high_le (ha : 0 < a) (ham : a ≤ m) (hr : m % a ≤ m / a) (h0 : 0 ≤ x) : m % a * (x / (m / a)) ≤ x := by
  have hq := quotient_pos ha ham
  calc m % a * (x / (m / a)) ≤ m / a * (x / (m / a)) := Int.mul_le_mul_of_nonneg_right hr (Int.ediv_nonneg h0 hq.le)
    _ ≤ x := Int.mul_ediv_self_le hq.ne'

/-! ## The residue -/

theorem emod_pos (hco : Int.gcd a m = 1) (h0 : 0 < x) (hx : x < m) : 0 < a * x % m := by
  have hm : 0 < m := by omega
  refine lt_of_le_of_ne (Int.emod_nonneg _ hm.ne') fun hzero => ?_
  have hdvd : m ∣ a * x := Int.dvd_of_emod_eq_zero hzero.symm
  have hdvd : m ∣ x := Int.dvd_of_dvd_mul_right_of_gcd_one hdvd (by rwa [Int.gcd_comm])
  have := Int.le_of_dvd h0 hdvd
  omega

theorem reduce_eq (ha : 0 < a) (ham : a ≤ m) (hr : m % a ≤ m / a) (hco : Int.gcd a m = 1) (h0 : 0 < x) (hx : x < m) :
    reduce a m x = a * x % m := by
  have hlow := low_nonneg (x := x) ha ham
  have hlow' := low_lt (x := x) ha ham
  have hhigh := high_nonneg ha ham h0.le
  have hhigh' := high_le ha ham hr h0.le
  have hmod := split_emod a m x
  have hpos := emod_pos hco h0 hx
  rw [reduce]
  by_cases hneg : split a m x ≤ 0
  · rw [if_pos hneg, ← hmod]
    rw [← hmod] at hpos
    -- a value of 0 would be a residue of 0
    have hne : split a m x ≠ 0 := by
      intro hzero
      rw [hzero] at hpos
      simp at hpos
    have hbound : -m < split a m x := by
      rw [split]
      omega
    rw [← Int.add_emod_right, Int.emod_eq_of_lt (by omega) (by omega)]
  · have hbound : split a m x < m := by
      rw [split]
      omega
    rw [if_neg hneg, ← hmod, Int.emod_eq_of_lt (by omega) hbound]

end Schrage
