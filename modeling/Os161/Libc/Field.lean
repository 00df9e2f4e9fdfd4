import Os161.Libc.PrintfPage
import Os161.Libc.Str
import Mathlib.Data.List.DropRight

/-! # Integer fields read back -/

namespace Os161.Printf

open Words

/-! ## Numerals -/

section Numeral

variable {table : List Byte} {base n : Nat}

theorem mem_numeral (hb : 2 ≤ base) {c : Byte} (hc : c ∈ numeral table base n) : ∃ d < base, c = table.getD d 0 := by
  induction n using Nat.strong_induction_on with
  | _ n ih =>
    by_cases hlt : n < base
    · rw [numeral_of_lt hlt, List.mem_singleton] at hc
      exact ⟨n, hlt, hc⟩
    · rw [numeral_of_le hb (Nat.le_of_not_lt hlt), List.mem_append, List.mem_singleton] at hc
      rcases hc with hc | hc
      · exact ih (n / base) (Nat.div_lt_self (by omega) (by omega)) hc
      · exact ⟨n % base, Nat.mod_lt n (by omega), hc⟩

theorem numeral_cons (table : List Byte) (hb : 2 ≤ base) (n : Nat) :
    ∃ d < base, ∃ text, numeral table base n = table.getD d 0 :: text ∧ (d = 0 → n = 0 ∧ text = []) := by
  induction n using Nat.strong_induction_on with
  | _ n ih =>
    by_cases hlt : n < base
    · exact ⟨n, hlt, [], numeral_of_lt hlt, fun h => ⟨h, rfl⟩⟩
    · obtain ⟨d, hd, text, htext, hzero⟩ := ih (n / base) (Nat.div_lt_self (by omega) (by omega))
      refine ⟨d, hd, text ++ [table.getD (n % base) 0], ?_, fun h => ?_⟩
      · rw [numeral_of_le hb (Nat.le_of_not_lt hlt), htext]
        rfl
      · have := Nat.div_pos (Nat.le_of_not_lt hlt) (by omega)
        have := (hzero h).1
        omega

end Numeral

/-! ## Reading -/

def digitValue (base : Nat) (c : Byte) : Option Nat := (digits.take base).findIdx? (· == c)

def readDigit (base : Nat) (v : Option Nat) (c : Byte) : Option Nat :=
  v.bind fun n => (digitValue base c).map fun d => n * base + d

def readDigits (base : Nat) (text : List Byte) : Option Nat := text.foldl (readDigit base) (some 0)

def readSign (text : List Byte) : Bool × List Byte :=
  if text.head? = some (ch '-') then (true, text.tail) else (false, text)

def readPrefix (base : Nat) (text : List Byte) : List Byte :=
  if base = 16 ∧ text.take 2 = [ch '0', ch 'x'] then text.drop 2 else text

def trim (text : List Byte) : List Byte := (text.dropWhile (· == ch ' ')).rdropWhile (· == ch ' ')

def readNumber (base : Nat) (text : List Byte) : Option Int :=
  let (neg, text) := readSign (trim text)
  let text := readPrefix base text
  if text = [] then none else (readDigits base text).map fun n : Nat => if neg then -(n : Int) else n

section Reading

variable {base : Nat}

theorem digitValue_digit : ∀ base ∈ [8, 10, 16], ∀ d < base, digitValue base (digits.getD d 0) = some d := by
  decide

theorem readDigits_append (a b : List Byte) : readDigits base (a ++ b) = b.foldl (readDigit base) (readDigits base a) :=
  List.foldl_append ..

theorem readDigits_snoc (a : List Byte) (c : Byte) : readDigits base (a ++ [c]) = readDigit base (readDigits base a) c :=
  readDigits_append a [c]

theorem readDigits_zeros (hbase : base ∈ [8, 10, 16]) (k : Nat) (v : Nat) :
    (List.replicate k (ch '0')).foldl (readDigit base) (some v) = some (v * base ^ k) := by
  have hzero : digitValue base (ch '0') = some 0 := by
    revert base
    decide
  induction k generalizing v with
  | zero => simp
  | succ k ih =>
    rw [List.replicate_succ, List.foldl_cons, readDigit, hzero]
    change List.foldl _ (some (v * base + 0)) _ = _
    rw [ih, Nat.add_zero, Nat.mul_assoc, ← Nat.pow_succ']

theorem readDigits_numeral (hbase : base ∈ [8, 10, 16]) (k n : Nat) :
    readDigits base (List.replicate k (ch '0') ++ numeral digits base n) = some n := by
  have hb : 2 ≤ base := by
    revert base
    decide
  induction n using Nat.strong_induction_on with
  | _ n ih =>
    by_cases hlt : n < base
    · rw [numeral_of_lt hlt, readDigits_snoc, readDigits, readDigits_zeros hbase, readDigit,
        digitValue_digit base hbase n hlt]
      simp
    · have hval : n / base * base + n % base = n := Nat.div_add_mod' n base
      rw [numeral_of_le hb (Nat.le_of_not_lt hlt), ← List.append_assoc, readDigits_snoc,
        ih (n / base) (Nat.div_lt_self (by omega) (by omega)), readDigit,
        digitValue_digit base hbase _ (Nat.mod_lt n (by omega))]
      simp [hval]

structure DigitText (base : Nat) (text : List Byte) : Prop where
  digit : ∀ c ∈ text, ∃ d < base, c = digits.getD d 0
  ne_nil : text ≠ []

theorem digit_char : ∀ d < 16, digits.getD d 0 ≠ ch ' ' ∧ digits.getD d 0 ≠ ch '-' ∧ digits.getD d 0 ≠ ch 'x' ∧
    digits.getD d 0 ≠ 0 := by
  decide

theorem digit_zero : ∀ d < 16, digits.getD d 0 = ch '0' → d = 0 := by
  decide

theorem DigitText.char {text : List Byte} (h : DigitText base text) (hb : base ≤ 16) {c : Byte} (hc : c ∈ text) :
    c ≠ ch ' ' ∧ c ≠ ch '-' ∧ c ≠ ch 'x' := by
  obtain ⟨d, hd, rfl⟩ := h.digit c hc
  obtain ⟨h1, h2, h3, -⟩ := digit_char d (by omega)
  exact ⟨h1, h2, h3⟩

theorem trim_blanks (a b : Nat) {text : List Byte} (hne : text ≠ []) (h : ∀ c ∈ text, c ≠ ch ' ') :
    trim (List.replicate a (ch ' ') ++ text ++ List.replicate b (ch ' ')) = text := by
  have hback : (text ++ List.replicate b (ch ' ')).rdropWhile (· == ch ' ') = text := by
    induction b with
    | zero =>
      rw [List.replicate_zero, List.append_nil, List.rdropWhile_eq_self_iff]
      intro hl
      simpa using h _ (List.getLast_mem hl)
    | succ b ih => rw [List.replicate_succ', ← List.append_assoc, List.rdropWhile_concat_pos _ _ _ (by simp), ih]
  have hfront : (List.replicate a (ch ' ') ++ text ++ List.replicate b (ch ' ')).dropWhile (· == ch ' ') =
      text ++ List.replicate b (ch ' ') := by
    rw [List.append_assoc, List.dropWhile_append_of_pos (by simp)]
    cases text with
    | nil => exact absurd rfl hne
    | cons c text => rw [List.cons_append, List.dropWhile_cons_of_neg (by simpa using h c List.mem_cons_self)]
  rw [trim, hfront, hback]

def signText (neg : Bool) : List Byte := if neg then [ch '-'] else []

theorem signText_decide (p : Prop) [Decidable p] : signText (decide p) = if p then [ch '-'] else [] := by
  by_cases h : p <;> simp [signText, h]

def hexText (hex : Bool) : List Byte := if hex then [ch '0', ch 'x'] else []

theorem readSign_signText (neg : Bool) {text : List Byte} (h : text.head? ≠ some (ch '-')) :
    readSign (signText neg ++ text) = (neg, text) := by
  cases neg with
  | true => rfl
  | false => exact if_neg h

theorem readPrefix_hexText {hex : Bool} (hhex : hex = true → base = 16) (hb : base ≤ 16) {text : List Byte}
    (h : DigitText base text) : readPrefix base (hexText hex ++ text) = text := by
  cases hex with
  | true => exact if_pos ⟨hhex rfl, rfl⟩
  | false =>
    apply if_neg
    rintro ⟨-, htake⟩
    -- no digit is an `x`
    have hx : ch 'x' ∈ text := by
      apply List.mem_of_mem_take (i := 2)
      change List.take 2 text = _ at htake
      rw [htake]
      decide
    exact (h.char hb hx).2.2 rfl

theorem readNumber_parts (hb : base ≤ 16) (a b : Nat) (neg : Bool) {hex : Bool} (hhex : hex = true → base = 16)
    {text : List Byte} (h : DigitText base text) :
    readNumber base (List.replicate a (ch ' ') ++ (signText neg ++ (hexText hex ++ text)) ++ List.replicate b (ch ' ')) =
      (readDigits base text).map fun n : Nat => if neg then -(n : Int) else n := by
  have hchars : ∀ c ∈ hexText hex ++ text, c ≠ ch ' ' ∧ c ≠ ch '-' := by
    intro c hc
    rw [List.mem_append] at hc
    rcases hc with hc | hc
    · cases hex with
      | true =>
        revert c
        decide
      | false => cases hc
    · exact ⟨(h.char hb hc).1, (h.char hb hc).2.1⟩
  have hblank : ∀ c ∈ signText neg ++ (hexText hex ++ text), c ≠ ch ' ' := by
    intro c hc
    rw [List.mem_append] at hc
    rcases hc with hc | hc
    · cases neg with
      | true =>
        revert c
        decide
      | false => cases hc
    · exact (hchars c hc).1
  have hhead : (hexText hex ++ text).head? ≠ some (ch '-') := by
    intro hh
    exact (hchars _ (List.mem_of_mem_head? hh)).2 rfl
  have hne : signText neg ++ (hexText hex ++ text) ≠ [] := by
    simp [h.ne_nil]
  rw [readNumber, trim_blanks a b hne hblank, readSign_signText neg hhead]
  dsimp only
  rw [readPrefix_hexText hhex hb h, if_neg h.ne_nil]

end Reading

/-! ## Fields -/

def Conversion.Integer : Conversion → Prop
  | .d _ | .o _ | .u _ | .x _ | .p _ => True
  | _ => False

def Conversion.base : Conversion → Nat
  | .d _ | .u _ => 10
  | .o _ => 8
  | _ => 16

def Conversion.value : Conversion → Int
  | .d w => toI32 w.toNat
  | .o w | .u w | .x w | .p w => w.toNat
  | _ => 0

section Fields

variable {str : UInt32 → List Byte} {alt : Bool} {mods : List Modifier} {conv : Conversion}

theorem base_mem (h : conv.Integer) : conv.base ∈ [8, 10, 16] := by
  cases conv <;> first | exact h.elim | simp [Conversion.base]

theorem base_range (h : conv.Integer) : 8 ≤ conv.base ∧ conv.base ≤ 16 := by
  have hrange : ∀ b ∈ [8, 10, 16], 8 ≤ b ∧ b ≤ 16 := by decide
  exact hrange _ (base_mem h)

theorem shown_integer (str : UInt32 → List Byte) (alt : Bool) (h : conv.Integer) :
    ∃ (hex : Bool) (oct : Nat), (hex = true → conv.base = 16) ∧ oct ≤ 1 ∧
      conv.shown str alt = ⟨signText (decide (conv.value < 0)), hexText hex ++ List.replicate oct (ch '0'),
        numeral digits conv.base conv.value.natAbs⟩ := by
  rw [signText_decide]
  have hnat : ∀ w : UInt32, ¬ (w.toNat : Int) < 0 := by
    intro w
    omega
  cases conv with
  | d w => exact ⟨false, 0, by simp, by decide, rfl⟩
  | o w =>
    refine ⟨false, if alt then 1 else 0, by simp, by split <;> omega, ?_⟩
    rw [Conversion.value, if_neg (hnat w)]
    cases alt <;> rfl
  | p w => exact ⟨true, 0, fun _ => rfl, by decide, by rw [Conversion.value, if_neg (hnat w)]; rfl⟩
  | u w => exact ⟨false, 0, by simp, by decide, by rw [Conversion.value, if_neg (hnat w)]; rfl⟩
  | x w =>
    refine ⟨alt, 0, fun _ => rfl, by decide, ?_⟩
    rw [Conversion.value, if_neg (hnat w)]
    cases alt <;> rfl
  | percent => exact h.elim
  | c w => exact h.elim
  | s w => exact h.elim
  | X w => exact h.elim

theorem blank_ne_zero : ch ' ' ≠ ch '0' := by decide

def zerosBehind (mods : List Modifier) (v : Shown) : Nat :=
  if .left ∈ mods ∧ padChar mods = ch '0' then width mods - v.length else 0

theorem field_parts (mods : List Modifier) (neg hex : Bool) (oct : Nat) (body : List Byte) {v : Shown}
    (hv : v = ⟨signText neg, hexText hex ++ List.replicate oct (ch '0'), body⟩) :
    ∃ a z b, field mods v = List.replicate a (ch ' ') ++ (signText neg ++ (hexText hex ++
      (List.replicate z (ch '0') ++ body ++ List.replicate (zerosBehind mods v) (ch '0')))) ++
        List.replicate b (ch ' ') := by
  subst hv
  have hpad : padChar mods ≠ ch '0' → padChar mods = ch ' ' := by
    intro h
    rw [padChar] at h ⊢
    split at h
    · exact absurd rfl h
    · rename_i hdigit
      rw [if_neg hdigit]
  rw [field, zerosBehind, Shown.length]
  dsimp only
  generalize width mods - _ = k
  by_cases hl : .left ∈ mods <;> by_cases hz : padChar mods = ch '0'
  · exact ⟨0, oct, 0, by simp [hl, hz]⟩
  · exact ⟨0, oct, k, by rw [hpad hz]; simp [hl, blank_ne_zero]⟩
  · refine ⟨0, oct + k, 0, ?_⟩
    rw [if_neg hl, if_pos hz, hz, List.replicate_add]
    simp [hl]
  · exact ⟨k, oct, 0, by rw [hpad hz]; simp [hl, blank_ne_zero]⟩

theorem numeral_digitText {base : Nat} (hb : 2 ≤ base) (a n c : Nat) :
    DigitText base (List.replicate a (ch '0') ++ numeral digits base n ++ List.replicate c (ch '0')) := by
  have hzero : ∃ d < base, ch '0' = digits.getD d 0 := ⟨0, by omega, rfl⟩
  constructor
  · intro x hx
    simp only [List.mem_append, List.mem_replicate] at hx
    rcases hx with (⟨-, rfl⟩ | hx) | ⟨-, rfl⟩
    · exact hzero
    · exact mem_numeral hb hx
    · exact hzero
  · obtain ⟨d, -, text, htext, -⟩ := numeral_cons digits hb n
    simp [htext]

theorem field_reads (mods : List Modifier) (str : UInt32 → List Byte) (alt : Bool) (h : conv.Integer) :
    readNumber conv.base (field mods (conv.shown str alt)) =
      some (conv.value * (conv.base : Int) ^ zerosBehind mods (conv.shown str alt)) := by
  have hbase := base_mem h
  obtain ⟨hb, hb'⟩ := base_range h
  obtain ⟨hex, oct, hhex, -, hshown⟩ := shown_integer str alt h
  obtain ⟨a, z, b, hfield⟩ := field_parts mods _ hex oct _ hshown
  rw [hfield]
  generalize zerosBehind mods _ = c
  rw [readNumber_parts hb' a b _ hhex (numeral_digitText (by omega) z _ c), readDigits_append, readDigits_numeral hbase,
    readDigits_zeros hbase, Option.map_some]
  congr 1
  by_cases hneg : conv.value < 0
  · have hvalue : conv.value = -conv.value.natAbs := by omega
    rw [if_pos (decide_eq_true hneg), Nat.cast_mul, Nat.cast_pow, ← Int.neg_mul, ← hvalue]
  · have hvalue : conv.value = conv.value.natAbs := by omega
    rw [if_neg (by simpa using hneg), Nat.cast_mul, Nat.cast_pow, ← hvalue]

theorem magnitude_lt (h : conv.Integer) : conv.value.natAbs < 2 ^ 32 := by
  cases conv with
  | d w =>
    have := toI32_range w.toNat
    rw [Conversion.value]
    omega
  | o w => exact w.toNat_lt
  | p w => exact w.toNat_lt
  | u w => exact w.toNat_lt
  | x w => exact w.toNat_lt
  | percent => exact h.elim
  | c w => exact h.elim
  | s w => exact h.elim
  | X w => exact h.elim

theorem pf_printnum_loop_length {base x n : Nat} {text t : List Byte} (h : pf_printnum_loop base x n text = .ok t) :
    t.length ≤ x + text.length := by
  induction x generalizing n text with
  | zero => cases h
  | succ x ih =>
    rw [pf_printnum_loop] at h
    split at h
    · have := ih h
      rw [List.length_cons] at this
      omega
    · obtain ⟨⟩ := h
      rw [List.length_cons]
      omega

theorem pf_printnum_loop_integer (h : conv.Integer) :
    pf_printnum_loop conv.base (NUMBER_BUF_SIZE - 1) conv.value.natAbs [] =
      .ok (numeral digits conv.base conv.value.natAbs) := by
  have hnum : (UInt32.ofNat conv.value.natAbs).toNat = conv.value.natAbs :=
    UInt32.toNat_ofNat_of_lt' (magnitude_lt h)
  have := pf_printnum_text (base_range h).1 (UInt32.ofNat conv.value.natAbs)
  rwa [hnum] at this

theorem shown_length (str : UInt32 → List Byte) (alt : Bool) (h : conv.Integer) :
    (conv.shown str alt).length ≤ 15 := by
  obtain ⟨hex, oct, -, hoct, hshown⟩ := shown_integer str alt h
  have hbody : (numeral digits conv.base conv.value.natAbs).length ≤ 11 :=
    pf_printnum_loop_length (pf_printnum_loop_integer h)
  have hsign : ∀ neg, (signText neg).length ≤ 1 := by decide
  have hhex : ∀ hex, (hexText hex).length ≤ 2 := by decide
  have := hsign (decide (conv.value < 0))
  have := hhex hex
  rw [hshown, Shown.length]
  dsimp only
  rw [List.length_append, List.length_replicate]
  omega

theorem zerosBehind_eq_zero (v : Shown) :
    zerosBehind mods v = 0 ↔ ¬ (.left ∈ mods ∧ padChar mods = ch '0' ∧ v.length < width mods) := by
  rw [zerosBehind]
  by_cases hz : .left ∈ mods ∧ padChar mods = ch '0'
  · simp [hz]
    omega
  · rw [if_neg hz]
    simp only [true_iff]
    rintro ⟨hl, hp, -⟩
    exact hz ⟨hl, hp⟩

theorem field_reads_iff (mods : List Modifier) (str : UInt32 → List Byte) (alt : Bool) (h : conv.Integer) :
    readNumber conv.base (field mods (conv.shown str alt)) = some conv.value ↔
      conv.value = 0 ∨ ¬ (.left ∈ mods ∧ padChar mods = ch '0' ∧ (conv.shown str alt).length < width mods) := by
  rw [field_reads mods str alt h, ← zerosBehind_eq_zero, Option.some_inj]
  generalize zerosBehind mods _ = c
  have hb := (base_range h).1
  have hpow : (conv.base : Int) ^ c = 1 ↔ c = 0 := by
    rw [← Nat.cast_pow, Nat.cast_eq_one, Nat.pow_eq_one]
    omega
  rw [mul_right_eq_self₀, hpow, or_comm]

end Fields

/-! ## The run -/

theorem vprintf_collects (str : UInt32 → List Byte) (items : List Item) (hs : ∀ item ∈ items, item.Supported)
    (h : (textOf str items).length < 2 ^ 31) :
    ∃ pf, vprintf (· ++ ·) str [] (formatOf items) (argsOf items) = .ok ((textOf str items).length, pf) ∧
      pf.clientdata = textOf str items := by
  have hsend : Sends (· ++ ·) str (formatOf items) (argsOf items) (textOf str items) := items_send items hs h
  obtain ⟨texts, hflat, hrun⟩ := hsend [] [] 0 rfl
  have hcount : toI32 (0 + (textOf str items).length) = (textOf str items).length := by
    rw [Int.zero_add, toI32_of_small (by omega) (by omega)]
  have hfold : texts.foldl (fun text t => text ++ id t) [] = [] ++ (texts.map id).flatten :=
    List.foldl_append_eq_append
  rw [List.map_id, List.nil_append] at hfold
  change _ = Except.ok (start (texts.foldl (fun text t => text ++ id t) []) _ _) at hrun
  rw [List.append_nil, hcount, hfold, hflat] at hrun
  exact ⟨start (textOf str items) [] (textOf str items).length, by rw [vprintf, hrun]; rfl, rfl⟩

theorem vprintf_integer (str : UInt32 → List Byte) {mods : List Modifier} {conv : Conversion} (hint : conv.Integer)
    (hwidth : width mods < 2 ^ 31) : ∃ pf : PF (List Byte),
    vprintf (· ++ ·) str [] (ch '%' :: mods.map Modifier.char ++ [conv.type]) conv.args =
      .ok (pf.clientdata.length, pf) ∧
    pf.clientdata = field mods (conv.shown str (decide (.alt ∈ mods))) ∧ pf.clientdata.length < 2 ^ 31 := by
  have hitem : textOf str [.conversion mods conv] = field mods (conv.shown str (decide (.alt ∈ mods))) :=
    List.flatMap_singleton ..
  have hsmall : (field mods (conv.shown str (decide (.alt ∈ mods)))).length < 2 ^ 31 := by
    have := shown_length str (decide (.alt ∈ mods)) hint
    rw [field_length]
    omega
  have hsupported : ∀ item ∈ [Item.conversion mods conv], item.Supported := by
    intro item hitem
    rw [List.mem_singleton] at hitem
    subst hitem
    cases conv <;> first | exact hint.elim | trivial
  obtain ⟨pf, hrun, htext⟩ := vprintf_collects str [.conversion mods conv] hsupported (by rwa [hitem])
  have hformat : formatOf [.conversion mods conv] = ch '%' :: mods.map Modifier.char ++ [conv.type] :=
    List.flatMap_singleton ..
  have hargs : argsOf [.conversion mods conv] = conv.args := List.flatMap_singleton ..
  rw [hformat, hargs, ← htext] at hrun
  rw [hitem] at htext
  exact ⟨pf, hrun, htext, by rwa [htext]⟩

/-- The text of an integer has canonical digits that fit in `buf`, and reads as the argument unless zeros stand behind
the digits of a number that is not 0. -/
theorem vprintf_integer_reads (str : UInt32 → List Byte) (mods : List Modifier) (conv : Conversion) (hint : conv.Integer)
    (hwidth : width mods < 2 ^ 31) :
    ∃ (pf : PF (List Byte)) (v : Shown), v = conv.shown str (decide (.alt ∈ mods)) ∧
      vprintf (· ++ ·) str [] (ch '%' :: mods.map Modifier.char ++ [conv.type]) conv.args =
        .ok (pf.clientdata.length, pf) ∧
      pf.clientdata = field mods v ∧
      pf.clientdata.length = max (width mods) (v.sign.length + v.pre.length + v.body.length) ∧
      pf_printnum_loop conv.base (NUMBER_BUF_SIZE - 1) conv.value.natAbs [] = .ok v.body ∧
      readDigits conv.base v.body = some conv.value.natAbs ∧ (v.body.head? = some (ch '0') → v.body = [ch '0']) ∧
      (readNumber conv.base pf.clientdata = some conv.value ↔
        conv.value = 0 ∨ ¬ (.left ∈ mods ∧ padChar mods = ch '0' ∧ v.length < width mods)) := by
  obtain ⟨v, hv⟩ : ∃ v, v = conv.shown str (decide (.alt ∈ mods)) := ⟨_, rfl⟩
  obtain ⟨pf, hrun, htext, -⟩ := vprintf_integer str hint hwidth
  rw [← hv] at htext
  have hbody : v.body = numeral digits conv.base conv.value.natAbs := by
    obtain ⟨hex, oct, -, -, hparts⟩ := shown_integer str (decide (.alt ∈ mods)) hint
    rw [hv, hparts]
  refine ⟨pf, v, hv, hrun, htext, by rw [htext, field_length, Shown.length], ?_, ?_, ?_, ?_⟩
  · rw [hbody]
    exact pf_printnum_loop_integer hint
  · rw [hbody]
    exact readDigits_numeral (base_mem hint) 0 _
  · intro hhead
    have hrange := base_range hint
    obtain ⟨d, hd, text, hnum, hzero⟩ := numeral_cons digits (show 2 ≤ conv.base by omega) conv.value.natAbs
    rw [hbody, hnum, List.head?_cons, Option.some_inj] at hhead
    have hd0 := digit_zero d (by omega) hhead
    rw [hbody, hnum, (hzero hd0).2, hd0]
    rfl
  · rw [htext, hv]
    exact field_reads_iff mods str _ hint

theorem vprintf_integer_reads_min : ∃ pf : PF (List Byte),
    vprintf (· ++ ·) (fun _ => []) [] (['%', '0', '1', '2', 'd'].map ch) [0x80000000] = .ok (pf.clientdata.length, pf) ∧
      pf.clientdata = ['-', '0', '2', '1', '4', '7', '4', '8', '3', '6', '4', '8'].map ch ∧
      readNumber 10 pf.clientdata = some (-2147483648) := by
  obtain ⟨pf, v, hv, hrun, htext, -, -, -, -, hreads⟩ := vprintf_integer_reads (fun _ => [])
    [.digit 0, .digit 1, .digit 2] (.d 0x80000000) trivial (by decide)
  have hvalue : (Conversion.d 0x80000000).value = -2147483648 := by decide
  rw [hvalue] at hreads
  exact ⟨pf, hrun, by rw [htext, hv]; rfl, hreads.2 (.inr (by simp))⟩

/-- `"%-05d"` with 42. -/
theorem vprintf_zeros_behind : ∃ pf : PF (List Byte),
    vprintf (· ++ ·) (fun _ => []) [] (['%', '-', '0', '5', 'd'].map ch) [42] = .ok (5, pf) ∧
      pf.clientdata = ['4', '2', '0', '0', '0'].map ch ∧ readNumber 10 pf.clientdata = some 42000 :=
  ⟨_, rfl, rfl, rfl⟩

end Os161.Printf
