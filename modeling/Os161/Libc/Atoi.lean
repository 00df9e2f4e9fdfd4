import Os161.Libc.Field
import Os161.Libc.Snprintf

/-! # `atoi.c`, and numbers printed with `%d` -/

namespace Os161.Printf

open Words

/-! ## The code -/

def decimalDigits : List Byte := ['0', '1', '2', '3', '4', '5', '6', '7', '8', '9'].map ch

def atoi_skip (s : List Byte) : List Byte := s.dropWhile fun c => c = ch ' ' ∨ c = ch '\t'

def atoi_sign : List Byte → Bool × List Byte
  | [] => (false, [])
  | c :: s => if c = ch '-' then (true, s) else if c = ch '+' then (false, s) else (false, c :: s)

def atoi_loop : List Byte → Nat → Nat
  | [], val => val
  | c :: s, val =>
    if c = 0 then val
    else if (Libc.strchr decimalDigits c).isNone then val
    else atoi_loop s ((val * 10 + (Libc.strchr decimalDigits c).getD 0) % 2 ^ 32)

def atoi (s : List Byte) : Int :=
  let (neg, s) := atoi_sign (atoi_skip s)
  let val := atoi_loop s 0
  if neg then toI32 (-val) else toI32 val

/-! ## Digits -/

def NoDigit (rest : List Byte) : Prop := ∀ c ∈ rest.head?, c ∉ decimalDigits

theorem strchr_digit : ∀ d < 10, digits.getD d 0 ≠ 0 ∧ Libc.strchr decimalDigits (digits.getD d 0) = some d := by
  decide

theorem atoi_loop_digit {d : Nat} (hd : d < 10) (rest : List Byte) (val : Nat) :
    atoi_loop (digits.getD d 0 :: rest) val = atoi_loop rest ((val * 10 + d) % 2 ^ 32) := by
  obtain ⟨hne, hchr⟩ := strchr_digit d hd
  rw [atoi_loop, if_neg hne, hchr]
  rfl

theorem atoi_loop_stops {rest : List Byte} (h : NoDigit rest) (val : Nat) : atoi_loop rest val = val := by
  cases rest with
  | nil => rfl
  | cons c rest =>
    rw [atoi_loop]
    split
    · rfl
    rename_i hne
    have hnone : ¬ (Libc.strchr decimalDigits c).isSome = true := by
      rw [Libc.strchr_isSome hne]
      exact h c rfl
    rw [if_pos (by simpa using hnone)]

theorem atoi_loop_numeral (n : Nat) (rest : List Byte) :
    atoi_loop (numeral digits 10 n ++ rest) 0 = atoi_loop rest (n % 2 ^ 32) := by
  induction n using Nat.strong_induction_on generalizing rest with
  | _ n ih =>
    by_cases hlt : n < 10
    · rw [numeral_of_lt hlt, List.singleton_append, atoi_loop_digit hlt, Nat.zero_mul, Nat.zero_add]
    · have hval : (n / 10 % 2 ^ 32 * 10 + n % 10) % 2 ^ 32 = n % 2 ^ 32 := by omega
      rw [numeral_of_le (by decide) (by omega), List.append_assoc, List.singleton_append, ih (n / 10) (by omega),
        atoi_loop_digit (Nat.mod_lt n (by decide)), hval]

theorem digit_plain : ∀ d < 10, digits.getD d 0 ≠ ch ' ' ∧ digits.getD d 0 ≠ ch '\t' ∧ digits.getD d 0 ≠ ch '-' ∧
    digits.getD d 0 ≠ ch '+' := by
  decide

/-! ## The round trip -/

def signed (n : Int) : List Byte := (if n < 0 then [ch '-'] else []) ++ numeral digits 10 n.natAbs

theorem atoi_skip_blanks (k : Nat) {s : List Byte} (h : ∀ c ∈ s.head?, c ≠ ch ' ' ∧ c ≠ ch '\t') :
    atoi_skip (List.replicate k (ch ' ') ++ s) = s := by
  rw [atoi_skip, List.dropWhile_append_of_pos (by simp)]
  cases s with
  | nil => rfl
  | cons c s =>
    obtain ⟨h1, h2⟩ := h c rfl
    rw [List.dropWhile_cons_of_neg (by simp [h1, h2])]

theorem atoi_signed (k : Nat) {n : Int} (hlo : -2 ^ 31 ≤ n) (hhi : n < 2 ^ 31) {rest : List Byte} (hrest : NoDigit rest) :
    atoi (List.replicate k (ch ' ') ++ (signed n ++ rest)) = n := by
  obtain ⟨d, hd, text, htext, -⟩ := numeral_cons digits (show 2 ≤ 10 by decide) n.natAbs
  obtain ⟨hblank, htab, hminus, hplus⟩ := digit_plain d hd
  have hloop : ∀ neg s, atoi_sign (atoi_skip (List.replicate k (ch ' ') ++ (signed n ++ rest))) = (neg, s) →
      s = numeral digits 10 n.natAbs ++ rest →
      atoi (List.replicate k (ch ' ') ++ (signed n ++ rest)) = if neg then toI32 (-n.natAbs) else toI32 n.natAbs := by
    intro neg s hsign hs
    rw [atoi, hsign, hs]
    dsimp only
    rw [atoi_loop_numeral, atoi_loop_stops hrest, Nat.mod_eq_of_lt (by omega)]
  by_cases hneg : n < 0
  · have hsigned : signed n = ch '-' :: numeral digits 10 n.natAbs := by rw [signed, if_pos hneg]; rfl
    have hskip := atoi_skip_blanks k (s := signed n ++ rest) (by rw [hsigned]; rintro c ⟨⟩; decide)
    have := hloop true (numeral digits 10 n.natAbs ++ rest) (by
      rw [hskip, hsigned, List.cons_append, atoi_sign, if_pos rfl]) rfl
    rw [this, if_pos rfl, toI32_of_small (by omega) (by omega)]
    omega
  · have hsigned : signed n = numeral digits 10 n.natAbs := by rw [signed, if_neg hneg]; rfl
    have hskip := atoi_skip_blanks k (s := signed n ++ rest) (by rw [hsigned, htext]; rintro c ⟨⟩; exact ⟨hblank, htab⟩)
    have := hloop false (numeral digits 10 n.natAbs ++ rest) (by
      rw [hskip, hsigned, htext, List.cons_append, atoi_sign, if_neg hminus, if_neg hplus]) rfl
    rw [this, if_neg (by decide), toI32_of_small (by omega) (by omega)]
    omega

def widthMods (ds : List (Fin 10)) : List Modifier := ds.map .digit

theorem widthDigits_widthMods (ds : List (Fin 10)) : widthDigits (widthMods ds) = ds := by
  rw [widthDigits, widthMods, List.filterMap_map]
  exact List.filterMap_some

theorem width_widthMods (ds : List (Fin 10)) : width (widthMods ds) = decimal ds := by
  rw [width, widthDigits_widthMods]

theorem field_signed (str : UInt32 → List Byte) (alt : Bool) {ds : List (Fin 10)} (hpad : ds.head? ≠ some 0) (w : UInt32) :
    ∃ k, field (widthMods ds) ((Conversion.d w).shown str alt) = List.replicate k (ch ' ') ++ signed (toI32 w.toNat) ∧
      k + (signed (toI32 w.toNat)).length = max (decimal ds) (signed (toI32 w.toNat)).length := by
  have hleft : .left ∉ widthMods ds := by simp [widthMods]
  have hblank : padChar (widthMods ds) = ch ' ' := by rw [padChar, widthDigits_widthMods, if_neg hpad]
  have hshown : (Conversion.d w).shown str alt =
      ⟨if toI32 w.toNat < 0 then [ch '-'] else [], [], numeral digits 10 (toI32 w.toNat).natAbs⟩ := rfl
  refine ⟨decimal ds - (signed (toI32 w.toNat)).length, ?_, by omega⟩
  rw [hshown, field, if_neg hleft, hblank, if_neg blank_ne_zero, width_widthMods]
  simp [signed, List.append_assoc]

theorem signed_ne_zero {n : Int} {c : Byte} (hc : c ∈ signed n) : c ≠ 0 := by
  rw [signed, List.mem_append] at hc
  rcases hc with hc | hc
  · split at hc
    · rw [List.mem_singleton] at hc
      subst hc
      decide
    · cases hc
  · obtain ⟨d, hd, rfl⟩ := mem_numeral (by decide) hc
    exact (digit_char d (by omega)).2.2.2

/-- `atoi` brings back what `%d` printed, in a field of any width with blanks on the left and before any text that does
not start with a digit. -/
theorem atoi_undoes_snprintf (str : UInt32 → List Byte) (buf : Mem) (len : Nat) (ds : List (Fin 10))
    (hpad : ds.head? ≠ some 0) (hwidth : decimal ds < 2 ^ 31) (w : UInt32)
    (hlen : max (decimal ds) (signed (toI32 w.toNat)).length < len) :
    ∃ n m, vsnprintf str buf len (ch '%' :: (widthMods ds).map Modifier.char ++ [ch 'd']) [w] = .ok (n, m) ∧
      ∀ rest, NoDigit rest → atoi (Libc.str m len ++ rest) = toI32 w.toNat := by
  obtain ⟨pf, hrun, htext, hsmall⟩ := vprintf_integer str (show (Conversion.d w).Integer from trivial)
    (show width (widthMods ds) < 2 ^ 31 by rwa [width_widthMods])
  obtain ⟨k, hfield, hk⟩ := field_signed str (decide (.alt ∈ widthMods ds)) hpad w
  rw [hfield] at htext
  obtain ⟨m, hret, -, hbegins⟩ := vsnprintf_spec str buf len hrun hsmall
  obtain ⟨htake, hzero⟩ := hbegins (by omega)
  have hlength : pf.clientdata.length < len := by
    rw [htext, List.length_append, List.length_replicate]
    omega
  rw [List.take_of_length_le (by omega)] at htake
  rw [Nat.min_eq_left (by omega)] at hzero
  refine ⟨_, m, hret, ?_⟩
  intro rest hrest
  have hnonzero : ∀ c ∈ pf.clientdata, c ≠ 0 := by
    intro c hc
    rw [htext, List.mem_append] at hc
    rcases hc with hc | hc
    · rw [List.eq_of_mem_replicate hc]
      decide
    · exact signed_ne_zero hc
  rw [htake.str_eq hzero hnonzero hlength, htext, List.append_assoc]
  exact atoi_signed k (toI32_range _).1 (toI32_range _).2 hrest

theorem atoi_undoes_snprintf_min : ∃ n m,
    vsnprintf (fun _ => []) (fun _ => 7) 20 (['%', '1', '4', 'd'].map ch) [0x80000000] = .ok (n, m) ∧
      atoi (Libc.str m 20 ++ ['a', '1'].map ch) = -2147483648 := by
  have hn : toI32 (0x80000000 : UInt32).toNat = -2147483648 := by decide
  obtain ⟨n, m, hrun, hatoi⟩ := atoi_undoes_snprintf (fun _ => []) (fun _ => 7) 20 [1, 4] (by decide) (by decide)
    0x80000000 (by rw [hn]; decide)
  rw [hn] at hatoi
  exact ⟨n, m, hrun, hatoi _ (by rintro c ⟨⟩; decide)⟩

end Os161.Printf
