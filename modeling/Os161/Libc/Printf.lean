import Mathlib.Data.Nat.Digits.Defs
import Os161.Lib.Words

/-! # The guts of `printf`

`__printf.c`, without `long long`. A `va_list` is a list of words: `int`, `long` and pointers all have
32 bits. `sendfunc` is any function on the client's data.
-/

namespace Os161.Printf

open Words

def ch (c : Char) : Byte := BitVec.ofNat 8 c.toNat

/-- Where a run stops: a failed assertion, an argument that is not there, a digit outside `buf`. -/
inductive Stop where
  | assertion | va_arg | buf
  deriving DecidableEq, Repr

inductive Size where
  | INTSZ | LONGSZ
  deriving DecidableEq, Repr

def NUMBER_BUF_SIZE : Nat := 4 * 8 / 3 + 2

structure PF (σ : Type) where
  clientdata : σ
  ap : List UInt32
  charcount : Int
  in_pct : Bool
  size : Size
  num : UInt32
  sign : Int
  spacing : Int
  rightspc : Bool
  fillchar : Byte
  base : Nat
  baseprefix : Bool
  altformat : Bool

section Code

variable {σ : Type} (sendfunc : σ → List Byte → σ) (str : UInt32 → List Byte)

def pf_print (pf : PF σ) (txt : List Byte) : PF σ :=
  { pf with clientdata := sendfunc pf.clientdata txt, charcount := toI32 (pf.charcount + txt.length) }

def pf_endfield (pf : PF σ) : PF σ :=
  { pf with
    in_pct := false
    size := .INTSZ
    num := 0
    sign := 0
    spacing := 0
    rightspc := false
    fillchar := ch ' '
    base := 0
    baseprefix := false
    altformat := false }

def pf_modifier (pf : PF σ) (c : Byte) : Except Stop (PF σ) :=
  if c = ch '#' then
    .ok { pf with altformat := true }
  else if c = ch '-' then
    .ok { pf with rightspc := true }
  else if c = ch 'l' then
    if pf.size = .LONGSZ then .ok pf else .ok { pf with size := .LONGSZ }
  else if c = ch 'q' then
    .ok { pf with size := .LONGSZ }
  else if c = ch '0' then
    if pf.spacing > 0 then
      .ok { pf with spacing := toI32 (pf.spacing * 10) }
    else
      .ok { pf with fillchar := ch '0' }
  else if (ch '0').toNat < c.toNat ∧ c.toNat ≤ (ch '9').toNat then
    .ok { pf with spacing := toI32 (pf.spacing * 10 + (c.toNat - (ch '0').toNat : Int)) }
  else
    .error .assertion

def va_arg (pf : PF σ) : Except Stop (UInt32 × PF σ) :=
  match pf.ap with
  | [] => .error .va_arg
  | w :: ap => .ok (w, { pf with ap := ap })

def pf_setnum (pf : PF σ) (c : Byte) (w : UInt32) : PF σ :=
  if c = ch 'p' then
    { pf with num := w }
  else if c = ch 'd' then
    if toI32 w.toNat < 0 then
      { pf with sign := -1, num := -w }
    else
      { pf with num := w }
  else
    { pf with num := w }

def pf_getnum (pf : PF σ) (c : Byte) : Except Stop (PF σ) := do
  let (w, pf) ← va_arg pf
  return pf_setnum pf c w

def pf_setbase (pf : PF σ) (c : Byte) : PF σ :=
  let pf :=
    if c = ch 'd' ∨ c = ch 'u' then { pf with base := 10 }
    else if c = ch 'x' ∨ c = ch 'p' then { pf with base := 16 }
    else if c = ch 'o' then { pf with base := 8 }
    else pf
  if pf.altformat = true ∨ c = ch 'p' then { pf with baseprefix := true } else pf

def pf_fill_loop (pf : PF σ) : Nat → PF σ
  | 0 => pf
  | n + 1 => pf_fill_loop (pf_print sendfunc pf [pf.fillchar]) n

def pf_fill (pf : PF σ) (spc : Int) : PF σ := pf_fill_loop sendfunc pf spc.toNat

def pf_printstuff (pf : PF σ) (pre pre2 stuff : List Byte) : PF σ :=
  let len := toI32 (pre.length + pre2.length + stuff.length)
  let spc := if pf.spacing > len then toI32 (pf.spacing - len) else 0
  let pf := if spc > 0 ∧ pf.rightspc = false ∧ pf.fillchar ≠ ch '0' then pf_fill sendfunc pf spc else pf
  let pf := pf_print sendfunc pf pre
  let pf := pf_print sendfunc pf pre2
  let pf := if spc > 0 ∧ pf.rightspc = false ∧ pf.fillchar = ch '0' then pf_fill sendfunc pf spc else pf
  let pf := pf_print sendfunc pf stuff
  if spc > 0 ∧ pf.rightspc = true then pf_fill sendfunc pf spc else pf

def digits : List Byte := ['0', '1', '2', '3', '4', '5', '6', '7', '8', '9', 'a', 'b', 'c', 'd', 'e', 'f'].map ch

/-- The loop of `__pf_printnum` with the slots of `buf` to the left, the one at `x` included, and the
text to the right of `x`. -/
def pf_printnum_loop (base : Nat) : Nat → Nat → List Byte → Except Stop (List Byte)
  | 0, _, _ => .error .buf
  | x + 1, xnum, text =>
    let text := digits.getD (xnum % base) 0 :: text
    if xnum / base > 0 then pf_printnum_loop base x (xnum / base) text else .ok text

def pf_printnum (pf : PF σ) : Except Stop (PF σ) := do
  let x ← pf_printnum_loop pf.base (NUMBER_BUF_SIZE - 1) pf.num.toNat []
  let bprefix :=
    if pf.baseprefix = true ∧ pf.base = 16 then [ch '0', ch 'x']
    else if pf.baseprefix = true ∧ pf.base = 8 then [ch '0']
    else []
  let sprefix := if pf.sign ≠ 0 then [ch '-'] else []
  return pf_printstuff sendfunc pf sprefix bprefix x

def modifiers : List Byte := ['#', '-', 'q', 'l', '0', '1', '2', '3', '4', '5', '6', '7', '8', '9'].map ch

def intTypes : List Byte := ['d', 'o', 'u', 'p', 'x'].map ch

def nullText : List Byte := ['(', 'n', 'u', 'l', 'l', ')'].map ch

def oneChar (x : Byte) : List Byte := if x = 0 then [] else [x]

def pf_send (pf : PF σ) (c : Byte) : Except Stop (PF σ) := do
  if c = 0 then
    .error .assertion
  else if pf.in_pct = false ∧ c ≠ ch '%' then
    return pf_print sendfunc pf [c]
  else if pf.in_pct = false then
    return { pf with in_pct := true }
  else if c ∈ modifiers then
    pf_modifier pf c
  else if c ∈ intTypes then
    let pf ← pf_getnum pf c
    let pf ← pf_printnum sendfunc (pf_setbase pf c)
    return pf_endfield pf
  else if c = ch 's' then
    let (p, pf) ← va_arg pf
    let text := if p = 0 then nullText else str p
    return pf_endfield (pf_printstuff sendfunc pf [] [] text)
  else if c = ch 'c' then
    let (w, pf) ← va_arg pf
    return pf_endfield (pf_printstuff sendfunc pf [] [] (oneChar (BitVec.ofNat 8 w.toNat)))
  else
    return pf_endfield (pf_printstuff sendfunc pf [] [] (oneChar c))

def start (clientdata : σ) (ap : List UInt32) (charcount : Int) : PF σ :=
  ⟨clientdata, ap, charcount, false, .INTSZ, 0, 0, 0, false, ch ' ', 0, false, false⟩

def vprintf (clientdata : σ) (format : List Byte) (ap : List UInt32) : Except Stop (Int × PF σ) := do
  let pf ← format.foldlM (pf_send sendfunc str) (start clientdata ap 0)
  return (pf.charcount, pf)

end Code

/-! ## What is sent -/

theorem toI32_toI32 (n : Int) : toI32 (toI32 n) = toI32 n := by
  have := toI32_toI32_add n 0
  rwa [Int.add_zero, Int.add_zero] at this

section Sent

variable {σ : Type} (sendfunc : σ → List Byte → σ)

def PF.sent (pf : PF σ) (texts : List (List Byte)) : PF σ :=
  { pf with
    clientdata := texts.foldl sendfunc pf.clientdata
    charcount := toI32 (pf.charcount + texts.flatten.length) }

variable {sendfunc} {pf : PF σ}

theorem sent_nil (h : toI32 pf.charcount = pf.charcount) : pf.sent sendfunc [] = pf := by
  rw [PF.sent, List.flatten_nil, List.length_nil, Nat.cast_zero, Int.add_zero, h]
  rfl

theorem sent_sent (a b : List (List Byte)) : (pf.sent sendfunc a).sent sendfunc b = pf.sent sendfunc (a ++ b) := by
  have hcount : toI32 (toI32 (pf.charcount + a.flatten.length) + b.flatten.length) =
      toI32 (pf.charcount + (a ++ b).flatten.length) := by
    rw [toI32_toI32_add, List.flatten_append, List.length_append, Nat.cast_add, Int.add_assoc]
  simp only [PF.sent, hcount, List.foldl_append]

theorem pf_print_eq (txt : List Byte) : pf_print sendfunc pf txt = pf.sent sendfunc [txt] := by
  simp [pf_print, PF.sent]

theorem pf_fill_eq (a : List (List Byte)) (spc : Int) :
    pf_fill sendfunc (pf.sent sendfunc a) spc =
      pf.sent sendfunc (a ++ List.replicate spc.toNat [pf.fillchar]) := by
  rw [pf_fill]
  induction spc.toNat generalizing a with
  | zero => rw [List.replicate_zero, List.append_nil, pf_fill_loop]
  | succ n ih =>
    rw [pf_fill_loop, pf_print_eq, sent_sent, ih, List.append_assoc]
    rfl

def stuffTexts (spacing : Int) (rightspc : Bool) (fillchar : Byte) (pre pre2 stuff : List Byte) : List (List Byte) :=
  let len := toI32 (pre.length + pre2.length + stuff.length)
  let spc := if spacing > len then toI32 (spacing - len) else 0
  let pad := List.replicate spc.toNat [fillchar]
  (if spc > 0 ∧ rightspc = false ∧ fillchar ≠ ch '0' then pad else []) ++ [pre, pre2] ++
    (if spc > 0 ∧ rightspc = false ∧ fillchar = ch '0' then pad else []) ++ [stuff] ++
    (if spc > 0 ∧ rightspc = true then pad else [])

theorem pf_fill_if (c : Prop) [Decidable c] (a : List (List Byte)) (spc : Int) :
    (if c then pf_fill sendfunc (pf.sent sendfunc a) spc else pf.sent sendfunc a) =
      pf.sent sendfunc (a ++ if c then List.replicate spc.toNat [pf.fillchar] else []) := by
  split
  · exact pf_fill_eq a spc
  · rw [List.append_nil]

theorem pf_printstuff_eq (pf : PF σ) (h : toI32 pf.charcount = pf.charcount) (pre pre2 stuff : List Byte) :
    pf_printstuff sendfunc pf pre pre2 stuff =
      pf.sent sendfunc (stuffTexts pf.spacing pf.rightspc pf.fillchar pre pre2 stuff) := by
  have hfirst : ∀ (c : Prop) [Decidable c] (spc : Int), (if c then pf_fill sendfunc pf spc else pf) =
      pf.sent sendfunc (if c then List.replicate spc.toNat [pf.fillchar] else []) := fun c _ spc => by
    have := @pf_fill_if σ sendfunc pf c _ [] spc
    rwa [sent_nil h, List.nil_append] at this
  have hright : ∀ a, (pf.sent sendfunc a).rightspc = pf.rightspc := fun _ => rfl
  have hfill : ∀ a, (pf.sent sendfunc a).fillchar = pf.fillchar := fun _ => rfl
  simp only [pf_printstuff, hfirst, pf_print_eq, sent_sent, hright, hfill, pf_fill_if, stuffTexts]
  simp only [List.append_assoc, List.cons_append, List.nil_append]

end Sent

/-! ## Numbers -/

def numeral (table : List Byte) (base n : Nat) : List Byte :=
  (if n = 0 then [0] else (Nat.digits base n).reverse).map fun d => table.getD d 0

section Numbers

variable {table : List Byte} {base n : Nat}

theorem numeral_of_lt (h : n < base) : numeral table base n = [table.getD n 0] := by
  rw [numeral]
  by_cases h0 : n = 0
  · subst h0; rfl
  · rw [if_neg h0, Nat.digits_of_lt base n h0 h]
    rfl

theorem numeral_of_le (hb : 2 ≤ base) (h : base ≤ n) :
    numeral table base n = numeral table base (n / base) ++ [table.getD (n % base) 0] := by
  have hdiv : 0 < n / base := Nat.div_pos h (by omega)
  rw [numeral, numeral, if_neg (by omega), if_neg (by omega), Nat.digits_of_two_le_of_pos hb (by omega),
    List.reverse_cons, List.map_append]
  rfl

theorem pf_printnum_loop_eq (hb : 2 ≤ base) (x : Nat) (text : List Byte) (h : n < base ^ (x + 1)) :
    pf_printnum_loop base (x + 1) n text = .ok (numeral digits base n ++ text) := by
  induction x generalizing n text with
  | zero =>
    have hlt : n < base := by simpa using h
    rw [pf_printnum_loop, Nat.div_eq_of_lt hlt, if_neg (by omega), numeral_of_lt hlt, Nat.mod_eq_of_lt hlt]
    rfl
  | succ x ih =>
    rw [pf_printnum_loop]
    by_cases hlt : n < base
    · rw [Nat.div_eq_of_lt hlt, if_neg (by omega), numeral_of_lt hlt, Nat.mod_eq_of_lt hlt]
      rfl
    · have hdiv : 0 < n / base := Nat.div_pos (by omega) (by omega)
      have hsmall : n / base < base ^ (x + 1) := Nat.div_lt_of_lt_mul (by rwa [← Nat.pow_succ'])
      rw [if_pos hdiv, ih _ hsmall, numeral_of_le hb (Nat.le_of_not_lt hlt), List.append_assoc]
      rfl

theorem pf_printnum_text {base : Nat} (hb : 8 ≤ base) (num : UInt32) :
    pf_printnum_loop base (NUMBER_BUF_SIZE - 1) num.toNat [] = .ok (numeral digits base num.toNat) := by
  have hlt : num.toNat < base ^ (10 + 1) := by
    have := num.toNat_lt
    have := Nat.pow_le_pow_left hb (10 + 1)
    omega
  have hloop := pf_printnum_loop_eq (by omega) 10 [] hlt
  rwa [List.append_nil] at hloop

variable {σ : Type} {sendfunc : σ → List Byte → σ} {pf : PF σ}

theorem pf_printnum_eq (h : toI32 pf.charcount = pf.charcount) (hb : 8 ≤ pf.base) :
    pf_printnum sendfunc pf = .ok (pf.sent sendfunc (stuffTexts pf.spacing pf.rightspc pf.fillchar
      (if pf.sign ≠ 0 then [ch '-'] else [])
      (if pf.baseprefix = true ∧ pf.base = 16 then [ch '0', ch 'x']
        else if pf.baseprefix = true ∧ pf.base = 8 then [ch '0'] else [])
      (numeral digits pf.base pf.num.toNat))) := by
  rw [pf_printnum, pf_printnum_text hb, ← pf_printstuff_eq pf h]
  rfl

end Numbers

end Os161.Printf
