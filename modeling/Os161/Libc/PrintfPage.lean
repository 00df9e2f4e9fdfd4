import Mathlib.Data.List.Induction
import Os161.Libc.Printf

/-! # `printf` and its manual page -/

namespace Os161.Printf

open Words

/-! ## The manual page -/

inductive Modifier where
  | alt | long | left | digit (d : Fin 10)
  deriving DecidableEq, Repr

def Modifier.char : Modifier → Byte
  | .alt => ch '#'
  | .long => ch 'l'
  | .left => ch '-'
  | .digit d => BitVec.ofNat 8 (48 + d)

inductive Conversion where
  | percent
  | c (w : UInt32) | d (w : UInt32) | o (w : UInt32) | p (w : UInt32) | s (w : UInt32)
  | u (w : UInt32) | x (w : UInt32) | X (w : UInt32)
  deriving DecidableEq, Repr

def Conversion.type : Conversion → Byte
  | .percent => ch '%'
  | .c _ => ch 'c'
  | .d _ => ch 'd'
  | .o _ => ch 'o'
  | .p _ => ch 'p'
  | .s _ => ch 's'
  | .u _ => ch 'u'
  | .x _ => ch 'x'
  | .X _ => ch 'X'

def Conversion.args : Conversion → List UInt32
  | .percent => []
  | .c w | .d w | .o w | .p w | .s w | .u w | .x w | .X w => [w]

inductive Item where
  | ordinary (c : Byte) (h : c ≠ 0 ∧ c ≠ ch '%')
  | conversion (mods : List Modifier) (conv : Conversion)

def Item.format : Item → List Byte
  | .ordinary c _ => [c]
  | .conversion mods conv => ch '%' :: mods.map Modifier.char ++ [conv.type]

def Item.args : Item → List UInt32
  | .ordinary _ _ => []
  | .conversion _ conv => conv.args

def Modifier.digit? : Modifier → Option (Fin 10)
  | .digit d => some d
  | _ => none

def widthDigits (mods : List Modifier) : List (Fin 10) := mods.filterMap Modifier.digit?

def decimal (ds : List (Fin 10)) : Nat := ds.foldl (fun w d => 10 * w + d.val) 0

def width (mods : List Modifier) : Nat := decimal (widthDigits mods)

def padChar (mods : List Modifier) : Byte := if (widthDigits mods).head? = some 0 then ch '0' else ch ' '

structure Shown where
  sign : List Byte
  pre : List Byte
  body : List Byte

def upperDigits : List Byte :=
  ['0', '1', '2', '3', '4', '5', '6', '7', '8', '9', 'A', 'B', 'C', 'D', 'E', 'F'].map ch

def Conversion.shown (str : UInt32 → List Byte) (alt : Bool) : Conversion → Shown
  | .percent => ⟨[], [], [ch '%']⟩
  | .c w => ⟨[], [], [BitVec.ofNat 8 w.toNat]⟩
  | .d w => ⟨if toI32 w.toNat < 0 then [ch '-'] else [], [], numeral digits 10 (toI32 w.toNat).natAbs⟩
  | .o w => ⟨[], if alt then [ch '0'] else [], numeral digits 8 w.toNat⟩
  | .p w => ⟨[], [ch '0', ch 'x'], numeral digits 16 w.toNat⟩
  | .s w => ⟨[], [], if w = 0 then nullText else str w⟩
  | .u w => ⟨[], [], numeral digits 10 w.toNat⟩
  | .x w => ⟨[], if alt then [ch '0', ch 'x'] else [], numeral digits 16 w.toNat⟩
  | .X w => ⟨[], if alt then [ch '0', ch 'X'] else [], numeral upperDigits 16 w.toNat⟩

def field (mods : List Modifier) (v : Shown) : List Byte :=
  let pad := List.replicate (width mods - (v.sign.length + v.pre.length + v.body.length)) (padChar mods)
  if .left ∈ mods then v.sign ++ v.pre ++ v.body ++ pad
  else if padChar mods = ch '0' then v.sign ++ v.pre ++ pad ++ v.body
  else pad ++ v.sign ++ v.pre ++ v.body

def Item.text (str : UInt32 → List Byte) : Item → List Byte
  | .ordinary c _ => [c]
  | .conversion mods conv => field mods (conv.shown str (decide (.alt ∈ mods)))

def formatOf (items : List Item) : List Byte := items.flatMap Item.format

def argsOf (items : List Item) : List UInt32 := items.flatMap Item.args

def textOf (str : UInt32 → List Byte) (items : List Item) : List Byte := items.flatMap (Item.text str)

/-! ## Modifiers -/

section Modifiers

variable {mods : List Modifier}

theorem decimal_snoc (ds : List (Fin 10)) (d : Fin 10) : decimal (ds ++ [d]) = 10 * decimal ds + d.val := by
  rw [decimal, List.foldl_append]
  rfl

theorem head_of_decimal_zero {ds : List (Fin 10)} (h : decimal ds = 0) (hne : ds ≠ []) : ds.head? = some 0 := by
  induction ds using List.reverseRecOn with
  | nil => exact absurd rfl hne
  | append_singleton ds d ih =>
    rw [decimal_snoc] at h
    by_cases hds : ds = []
    · subst hds
      obtain rfl : d = 0 := Fin.ext (by simpa using Nat.eq_zero_of_add_eq_zero_left h)
      rfl
    · rw [List.head?_append, ih (by omega) hds]
      rfl

theorem widthDigits_digit (mods : List Modifier) (d : Fin 10) :
    widthDigits (mods ++ [.digit d]) = widthDigits mods ++ [d] := by
  rw [widthDigits, List.filterMap_append]
  rfl

theorem widthDigits_other {m : Modifier} (hm : m.digit? = none) (mods : List Modifier) :
    widthDigits (mods ++ [m]) = widthDigits mods := by
  rw [widthDigits, List.filterMap_append]
  simp [hm, widthDigits]

theorem padChar_digit (mods : List Modifier) (d : Fin 10) :
    padChar (mods ++ [.digit d]) = if d = 0 ∧ width mods = 0 then ch '0' else padChar mods := by
  rw [padChar, widthDigits_digit]
  by_cases hds : widthDigits mods = []
  · have hw : width mods = 0 := by rw [width, hds]; rfl
    rw [padChar, hds, hw]
    simp
  · have hhead : (widthDigits mods ++ [d]).head? = (widthDigits mods).head? := by
      rw [List.head?_append, List.head?_eq_some_head hds, Option.some_or]
    rw [hhead]
    by_cases hc : d = 0 ∧ width mods = 0
    · rw [if_pos hc, if_pos (head_of_decimal_zero hc.2 hds)]
    · rw [if_neg hc, padChar]

def PF.inField {σ : Type} (pf : PF σ) (mods : List Modifier) : PF σ :=
  { pf with
    in_pct := true
    size := if .long ∈ mods then .LONGSZ else .INTSZ
    spacing := width mods
    rightspc := decide (.left ∈ mods)
    fillchar := padChar mods
    altformat := decide (.alt ∈ mods) }

variable {σ : Type} {sendfunc : σ → List Byte → σ} {str : UInt32 → List Byte} {pf : PF σ}

theorem pf_send_modifier (h : pf.in_pct = true) (m : Modifier) :
    pf_send sendfunc str pf m.char = pf_modifier pf m.char := by
  have hmem : m.char ∈ modifiers ∧ m.char ≠ 0 := by
    cases m with
    | digit d => revert d; decide
    | _ => decide
  rw [pf_send, if_neg hmem.2, if_neg (by simp [h]), if_neg (by simp [h]), if_pos hmem.1]

theorem pf_modifier_zero :
    pf_modifier pf (ch '0') = .ok (if pf.spacing > 0 then { pf with spacing := toI32 (pf.spacing * 10) }
      else { pf with fillchar := ch '0' }) := by
  rw [pf_modifier, if_neg (by decide), if_neg (by decide), if_neg (by decide), if_neg (by decide), if_pos rfl]
  split <;> rfl

theorem pf_modifier_digit {d : Fin 10} (hd : d ≠ 0) :
    pf_modifier pf (BitVec.ofNat 8 (48 + d)) = .ok { pf with spacing := toI32 (pf.spacing * 10 + d.val) } := by
  have hchar : ∀ d : Fin 10, d ≠ 0 → BitVec.ofNat 8 (48 + d) ∉ ['#', '-', 'l', 'q', '0'].map ch ∧
      (ch '0').toNat < (BitVec.ofNat 8 (48 + d)).toNat ∧ (BitVec.ofNat 8 (48 + d)).toNat ≤ (ch '9').toNat ∧
      (BitVec.ofNat 8 (48 + d)).toNat = (ch '0').toNat + d.val := by decide
  obtain ⟨hno, hlo, hhi, hval⟩ := hchar d hd
  simp only [List.map_cons, List.map_nil, List.mem_cons, List.not_mem_nil, or_false, not_or] at hno
  rw [pf_modifier, if_neg hno.1, if_neg hno.2.1, if_neg hno.2.2.1, if_neg hno.2.2.2.1, if_neg hno.2.2.2.2,
    if_pos ⟨hlo, hhi⟩, hval, Nat.cast_add, add_sub_cancel_left]

theorem pf_modifier_inField (m : Modifier) (h : width (mods ++ [m]) < 2 ^ 31) :
    pf_modifier (pf.inField mods) m.char = .ok (pf.inField (mods ++ [m])) := by
  cases m with
  | alt =>
    have hd := widthDigits_other (m := .alt) rfl mods
    rw [Modifier.char, pf_modifier, if_pos rfl]
    simp [PF.inField, width, padChar, hd]
  | left =>
    have hd := widthDigits_other (m := .left) rfl mods
    rw [Modifier.char, pf_modifier, if_neg (by decide), if_pos rfl]
    simp [PF.inField, width, padChar, hd]
  | long =>
    have hd := widthDigits_other (m := .long) rfl mods
    rw [Modifier.char, pf_modifier, if_neg (by decide), if_neg (by decide), if_pos rfl]
    by_cases hl : .long ∈ mods
    · rw [if_pos (by simp [PF.inField, hl])]
      simp [PF.inField, width, padChar, hd, hl]
    · rw [if_neg (by simp [PF.inField, hl])]
      simp [PF.inField, width, padChar, hd]
  | digit d =>
    have hw : width (mods ++ [.digit d]) = 10 * width mods + d.val := by
      rw [width, widthDigits_digit, decimal_snoc, width]
    have hpad := padChar_digit mods d
    have hfield : pf.inField (mods ++ [.digit d]) =
        { pf.inField mods with
          spacing := 10 * width mods + d.val
          fillchar := if d = 0 ∧ width mods = 0 then ch '0' else padChar mods } := by
      simp [PF.inField, hw, hpad]
    rw [hfield]
    rw [hw] at h
    by_cases hd : d = 0
    · subst hd
      rw [show Modifier.char (.digit 0) = ch '0' from rfl, pf_modifier_zero]
      by_cases hpos : width mods = 0
      · rw [if_neg (by simp [PF.inField, hpos]), if_pos ⟨rfl, hpos⟩]
        simp [PF.inField, hpos]
      · rw [if_pos (by simp [PF.inField]; omega), if_neg (fun hc => hpos hc.2)]
        simp only [PF.inField]
        rw [toI32_of_small (by omega) (by simp at h; omega)]
        simp [Int.mul_comm]
    · rw [Modifier.char, pf_modifier_digit hd, if_neg (fun hc => hd hc.1)]
      simp only [PF.inField]
      rw [toI32_of_small (by omega) (by omega), Int.mul_comm]

theorem width_snoc_le (m : Modifier) : width mods ≤ width (mods ++ [m]) := by
  cases hm : m.digit? with
  | none => rw [width, width, widthDigits_other hm]
  | some d =>
    obtain rfl : m = .digit d := by cases m <;> simp_all [Modifier.digit?]
    rw [width, width, widthDigits_digit, decimal_snoc]
    omega

/-- The start of a conversion: the induction is on the modifiers from the left. -/
theorem modifiers_run (out : σ) (ap : List UInt32) (n : Int) (h : width mods < 2 ^ 31) :
    (ch '%' :: mods.map Modifier.char).foldlM (pf_send sendfunc str) (start out ap n) =
      .ok ((start out ap n).inField mods) := by
  induction mods using List.reverseRecOn with
  | nil => rfl
  | append_singleton mods m ih =>
    rw [List.map_append, ← List.cons_append, List.foldlM_append, ih (Nat.lt_of_le_of_lt (width_snoc_le m) h)]
    change (pf_send sendfunc str ((start out ap n).inField mods) m.char >>= pure) = _
    rw [bind_pure, pf_send_modifier rfl, pf_modifier_inField m h]

end Modifiers

/-! ## Fields -/

section Fields

variable {mods : List Modifier}

def Shown.length (v : Shown) : Nat := v.sign.length + v.pre.length + v.body.length

theorem field_length (v : Shown) : (field mods v).length = max (width mods) v.length := by
  rw [field, Shown.length]
  split_ifs <;> simp only [List.length_append, List.length_replicate] <;> omega

theorem stuffTexts_eq {spacing len : Nat} {left : Bool} {fill : Byte} {pre pre2 stuff : List Byte}
    (hlen : pre.length + pre2.length + stuff.length = len) (hs : spacing < 2 ^ 31) (hl : len < 2 ^ 31) :
    stuffTexts spacing left fill pre pre2 stuff =
      (if left = false ∧ fill ≠ ch '0' then List.replicate (spacing - len) [fill] else []) ++ [pre, pre2] ++
        (if left = false ∧ fill = ch '0' then List.replicate (spacing - len) [fill] else []) ++ [stuff] ++
        (if left = true then List.replicate (spacing - len) [fill] else []) := by
  have hint : toI32 (pre.length + pre2.length + stuff.length) = len := by
    rw [toI32_of_small (by omega) (by omega)]
    omega
  have hspc : (if (spacing : Int) > len then toI32 (spacing - len) else 0) = ((spacing - len : Nat) : Int) := by
    split
    · rw [toI32_of_small (by omega) (by omega)]
      omega
    · omega
  rw [stuffTexts, hint, hspc]
  rw [Int.toNat_natCast]
  rcases Nat.eq_zero_or_pos (spacing - len) with h0 | hpos
  · simp [h0]
  · have : ((spacing - len : Nat) : Int) > 0 := by omega
    simp only [this, true_and]

theorem stuffTexts_flatten (v : Shown) (h : (field mods v).length < 2 ^ 31) :
    (stuffTexts (width mods) (decide (.left ∈ mods)) (padChar mods) v.sign v.pre v.body).flatten = field mods v := by
  rw [field_length] at h
  rw [stuffTexts_eq (show _ = v.length from rfl) (by omega) (by omega), field, Shown.length]
  by_cases hl : .left ∈ mods
  · simp [hl]
  by_cases hz : padChar mods = ch '0'
  · simp [hl, hz]
  · simp [hl, hz]

end Fields

/-! ## Conversions -/

section Conversions

variable {mods : List Modifier} {σ : Type} {sendfunc : σ → List Byte → σ} {str : UInt32 → List Byte} {pf : PF σ}

theorem endfield_sent (texts : List (List Byte)) :
    pf_endfield (pf.sent sendfunc texts) =
      start (texts.foldl sendfunc pf.clientdata) pf.ap (toI32 (pf.charcount + texts.flatten.length)) := rfl

theorem field_end (sendfunc : σ → List Byte → σ) (pf : PF σ) (hs : pf.spacing = width mods) (hr : pf.rightspc = decide (.left ∈ mods))
    (hf : pf.fillchar = padChar mods) (v : Shown) (h : (field mods v).length < 2 ^ 31) :
    ∃ texts : List (List Byte), texts.flatten = field mods v ∧
      pf_endfield (pf.sent sendfunc (stuffTexts pf.spacing pf.rightspc pf.fillchar v.sign v.pre v.body)) =
        start (texts.foldl sendfunc pf.clientdata) pf.ap (toI32 (pf.charcount + (field mods v).length)) := by
  have hflat := stuffTexts_flatten v h
  rw [← hs, ← hr, ← hf] at hflat
  exact ⟨_, hflat, by rw [endfield_sent, hflat]⟩

theorem pf_send_int (h : pf.in_pct = true) {c : Byte} (hc : c ∈ intTypes) :
    pf_send sendfunc str pf c = (pf_getnum pf c >>= fun pf =>
      pf_printnum sendfunc (pf_setbase pf c) >>= fun pf => .ok (pf_endfield pf)) := by
  have hchars : ∀ c ∈ intTypes, c ≠ 0 ∧ c ∉ modifiers := by decide
  rw [pf_send, if_neg (hchars c hc).1, if_neg (by simp [h]), if_neg (by simp [h]), if_neg (hchars c hc).2, if_pos hc]
  rfl

theorem pf_send_other (h : pf.in_pct = true) {c : Byte} (hc : c ∈ ['s', 'c', '%', 'X'].map ch) :
    pf_send sendfunc str pf c =
      if c = ch 's' then va_arg pf >>= fun a =>
        .ok (pf_endfield (pf_printstuff sendfunc a.2 [] [] (if a.1 = 0 then nullText else str a.1)))
      else if c = ch 'c' then va_arg pf >>= fun a =>
        .ok (pf_endfield (pf_printstuff sendfunc a.2 [] [] (oneChar (BitVec.ofNat 8 a.1.toNat))))
      else .ok (pf_endfield (pf_printstuff sendfunc pf [] [] (oneChar c))) := by
  have hchars : ∀ c ∈ ['s', 'c', '%', 'X'].map ch, c ≠ 0 ∧ c ∉ modifiers ∧ c ∉ intTypes := by decide
  obtain ⟨h0, hm, hi⟩ := hchars c hc
  rw [pf_send, if_neg h0, if_neg (by simp [h]), if_neg (by simp [h]), if_neg hm, if_neg hi]
  rfl

theorem va_arg_cons {w : UInt32} {rest : List UInt32} (hap : pf.ap = w :: rest) :
    va_arg pf = .ok (w, { pf with ap := rest }) := by
  rw [va_arg, hap]

theorem pf_getnum_cons {c : Byte} {w : UInt32} {rest : List UInt32} (hap : pf.ap = w :: rest) :
    pf_getnum pf c = .ok (pf_setnum { pf with ap := rest } c w) := by
  rw [pf_getnum, va_arg_cons hap]
  rfl

theorem pf_setnum_unsigned {c : Byte} (hc : c ≠ ch 'd') (w : UInt32) : pf_setnum pf c w = { pf with num := w } := by
  rw [pf_setnum, if_neg hc, ite_self]

theorem pf_setnum_signed (w : UInt32) :
    pf_setnum pf (ch 'd') w = if toI32 w.toNat < 0 then { pf with sign := -1, num := -w } else { pf with num := w } := by
  rw [pf_setnum, if_neg (by decide), if_pos rfl]

def baseOf (c : Byte) : Nat := if c = ch 'o' then 8 else if c = ch 'd' ∨ c = ch 'u' then 10 else 16

theorem pf_setbase_eq {c : Byte} (hc : c ∈ intTypes) :
    pf_setbase pf c =
      { pf with base := baseOf c, baseprefix := if pf.altformat = true ∨ c = ch 'p' then true else pf.baseprefix } := by
  have hbase : (if c = ch 'd' ∨ c = ch 'u' then { pf with base := 10 }
      else if c = ch 'x' ∨ c = ch 'p' then { pf with base := 16 }
      else if c = ch 'o' then { pf with base := 8 } else pf) = { pf with base := baseOf c } := by
    simp only [intTypes, List.map_cons, List.map_nil, List.mem_cons, List.not_mem_nil, or_false] at hc
    rcases hc with rfl | rfl | rfl | rfl | rfl <;> rfl
  rw [pf_setbase, hbase]
  dsimp only
  split <;> rfl

structure InField (pf : PF σ) (mods : List Modifier) : Prop where
  in_pct : pf.in_pct = true
  charcount : toI32 pf.charcount = pf.charcount
  sign : pf.sign = 0
  baseprefix : pf.baseprefix = false
  altformat : pf.altformat = decide (.alt ∈ mods)
  spacing : pf.spacing = width mods
  rightspc : pf.rightspc = decide (.left ∈ mods)
  fillchar : pf.fillchar = padChar mods

def EndsField (sendfunc : σ → List Byte → σ) (str : UInt32 → List Byte) (pf : PF σ) (c : Byte) (rest : List UInt32)
    (text : List Byte) : Prop :=
  ∃ texts : List (List Byte), texts.flatten = text ∧
    pf_send sendfunc str pf c = .ok (start (texts.foldl sendfunc pf.clientdata) rest (toI32 (pf.charcount + text.length)))

theorem number_ends {c : Byte} {w : UInt32} {rest : List UInt32} (hpf : InField pf mods) (hc : c ∈ intTypes)
    (hap : pf.ap = w :: rest) (sign : Int) (num : UInt32)
    (hset : pf_setnum { pf with ap := rest } c w = { pf with ap := rest, sign := sign, num := num }) {v : Shown}
    (hv : v = ⟨if sign ≠ 0 then [ch '-'] else [],
      if .alt ∈ mods ∨ c = ch 'p' then (if baseOf c = 16 then [ch '0', ch 'x'] else if baseOf c = 8 then [ch '0'] else [])
        else [],
      numeral digits (baseOf c) num.toNat⟩) (h : (field mods v).length < 2 ^ 31) :
    EndsField sendfunc str pf c rest (field mods v) := by
  have hb : 8 ≤ baseOf c := by
    rw [baseOf]
    split_ifs <;> omega
  have hprefix : (if pf.altformat = true ∨ c = ch 'p' then true else pf.baseprefix) =
      decide (.alt ∈ mods ∨ c = ch 'p') := by
    rw [hpf.altformat, hpf.baseprefix]
    simp
  obtain ⟨q, hq⟩ : ∃ q : PF σ, q = { pf with
      ap := rest, sign := sign, num := num, base := baseOf c, baseprefix := decide (.alt ∈ mods ∨ c = ch 'p') } :=
    ⟨_, rfl⟩
  have hbase : pf_setbase (pf_setnum { pf with ap := rest } c w) c = q := by
    rw [hset, pf_setbase_eq hc, hq, ← hprefix]
  have hnum : pf_printnum sendfunc q =
      .ok (q.sent sendfunc (stuffTexts q.spacing q.rightspc q.fillchar v.sign v.pre v.body)) := by
    rw [pf_printnum_eq (by rw [hq, hpf.charcount]) (by rw [hq]; exact hb), hv, hq]
    by_cases hp : .alt ∈ mods ∨ c = ch 'p' <;> simp [hp]
  obtain ⟨texts, hflat, hend⟩ := field_end sendfunc q (by rw [hq, hpf.spacing])
    (by rw [hq, hpf.rightspc]) (by rw [hq, hpf.fillchar]) v h
  refine ⟨texts, hflat, ?_⟩
  rw [pf_send_int hpf.in_pct hc, pf_getnum_cons hap]
  change (pf_printnum sendfunc (pf_setbase (pf_setnum { pf with ap := rest } c w) c) >>= _) = _
  rw [hbase, hnum]
  change Except.ok _ = _
  rw [hend, hq]

theorem text_ends {c : Byte} {rest : List UInt32} {text : List Byte} (hpf : InField pf mods)
    (hrun : pf_send sendfunc str pf c = .ok (pf_endfield (pf_printstuff sendfunc { pf with ap := rest } [] [] text)))
    (h : (field mods ⟨[], [], text⟩).length < 2 ^ 31) :
    EndsField sendfunc str pf c rest (field mods ⟨[], [], text⟩) := by
  obtain ⟨texts, hflat, hend⟩ := field_end sendfunc { pf with ap := rest } hpf.spacing hpf.rightspc
    hpf.fillchar ⟨[], [], text⟩ h
  refine ⟨texts, hflat, ?_⟩
  rw [hrun, pf_printstuff_eq { pf with ap := rest } hpf.charcount]
  exact congrArg Except.ok hend

theorem neg_toNat {w : UInt32} (h : toI32 w.toNat < 0) : (-w).toNat = (toI32 w.toNat).natAbs := by
  have := w.toNat_lt
  rw [UInt32.toNat_neg]
  simp only [toI32, Int.bmod_def, UInt32.size] at h ⊢
  omega

theorem natAbs_toNat {w : UInt32} (h : ¬ toI32 w.toNat < 0) : w.toNat = (toI32 w.toNat).natAbs := by
  have := w.toNat_lt
  simp only [toI32, Int.bmod_def] at h ⊢
  omega

theorem unsigned_ends {c : Byte} {w : UInt32} {rest : List UInt32} (hpf : InField pf mods) (hc : c ∈ intTypes)
    (hd : c ≠ ch 'd') (hap : pf.ap = w :: rest) {v : Shown}
    (hv : v = ⟨[],
      if .alt ∈ mods ∨ c = ch 'p' then (if baseOf c = 16 then [ch '0', ch 'x'] else if baseOf c = 8 then [ch '0'] else [])
        else [],
      numeral digits (baseOf c) w.toNat⟩) (h : (field mods v).length < 2 ^ 31) :
    EndsField sendfunc str pf c rest (field mods v) := by
  refine number_ends hpf hc hap 0 w ?_ hv h
  rw [pf_setnum_unsigned hd, ← hpf.sign]

theorem conversion_ends (conv : Conversion) {rest : List UInt32} (hpf : InField pf mods) (hap : pf.ap = conv.args ++ rest)
    (hX : ∀ w, conv ≠ .X w) (hc : ∀ w, conv = .c w → BitVec.ofNat 8 w.toNat ≠ 0)
    (h : (field mods (conv.shown str (decide (.alt ∈ mods)))).length < 2 ^ 31) :
    EndsField sendfunc str pf conv.type rest (field mods (conv.shown str (decide (.alt ∈ mods)))) := by
  cases conv with
  | percent =>
    refine text_ends hpf ?_ h
    rw [Conversion.type, pf_send_other hpf.in_pct (by decide), if_neg (by decide), if_neg (by decide)]
    rw [Conversion.args, List.nil_append] at hap
    rw [← hap]
    rfl
  | c w =>
    refine text_ends hpf ?_ h
    rw [Conversion.type, pf_send_other hpf.in_pct (by decide), if_neg (by decide), if_pos rfl, va_arg_cons hap]
    change Except.ok _ = _
    rw [oneChar, if_neg (hc w rfl)]
    rfl
  | s w =>
    refine text_ends hpf ?_ h
    rw [Conversion.type, pf_send_other hpf.in_pct (by decide), if_pos rfl, va_arg_cons hap]
    rfl
  | d w =>
    by_cases hneg : toI32 w.toNat < 0
    · refine number_ends hpf (show ch 'd' ∈ intTypes by decide) hap (-1) (-w) ?_ ?_ h
      · rw [pf_setnum_signed, if_pos hneg]
      · simp [Conversion.shown, hneg, neg_toNat hneg, show baseOf (ch 'd') = 10 by decide]
    · refine number_ends hpf (show ch 'd' ∈ intTypes by decide) hap 0 w ?_ ?_ h
      · rw [pf_setnum_signed, if_neg hneg, ← hpf.sign]
      · simp [Conversion.shown, hneg, ← natAbs_toNat hneg, show baseOf (ch 'd') = 10 by decide]
  | o w =>
    refine unsigned_ends hpf (show ch 'o' ∈ intTypes by decide) (by decide) hap ?_ h
    simp [Conversion.shown, show ch 'o' ≠ ch 'p' by decide, show baseOf (ch 'o') = 8 by decide]
  | p w =>
    refine unsigned_ends hpf (show ch 'p' ∈ intTypes by decide) (by decide) hap ?_ h
    simp [Conversion.shown, show baseOf (ch 'p') = 16 by decide]
  | u w =>
    refine unsigned_ends hpf (show ch 'u' ∈ intTypes by decide) (by decide) hap ?_ h
    simp [Conversion.shown, show baseOf (ch 'u') = 10 by decide]
  | x w =>
    refine unsigned_ends hpf (show ch 'x' ∈ intTypes by decide) (by decide) hap ?_ h
    simp [Conversion.shown, show ch 'x' ≠ ch 'p' by decide, show baseOf (ch 'x') = 16 by decide]
  | X w => exact absurd rfl (hX w)

end Conversions

/-! ## The whole format -/

def Item.Supported : Item → Prop
  | .conversion _ (.X _) => False
  | .conversion _ (.c w) => BitVec.ofNat 8 w.toNat ≠ 0
  | _ => True

section Format

variable {σ : Type} (sendfunc : σ → List Byte → σ) (str : UInt32 → List Byte)

def Sends (format : List Byte) (args : List UInt32) (text : List Byte) : Prop :=
  ∀ (out : σ) (rest : List UInt32) (n : Int), toI32 n = n → ∃ texts : List (List Byte), texts.flatten = text ∧
    format.foldlM (pf_send sendfunc str) (start out (args ++ rest) n) =
      .ok (start (texts.foldl sendfunc out) rest (toI32 (n + text.length)))

variable {sendfunc str}

theorem Sends.append {f f' t t' : List Byte} {a a' : List UInt32} (h : Sends sendfunc str f a t)
    (h' : Sends sendfunc str f' a' t') : Sends sendfunc str (f ++ f') (a ++ a') (t ++ t') := by
  intro out rest n hn
  obtain ⟨texts, hflat, hrun⟩ := h out (a' ++ rest) n hn
  obtain ⟨texts', hflat', hrun'⟩ := h' (texts.foldl sendfunc out) rest _ (toI32_toI32 (n + t.length))
  refine ⟨texts ++ texts', by rw [List.flatten_append, hflat, hflat'], ?_⟩
  rw [List.append_assoc, List.foldlM_append, hrun, List.foldl_append, List.length_append, Nat.cast_add, ← Int.add_assoc,
    ← toI32_toI32_add (n + t.length), ← hrun']
  rfl

theorem Item.sends (item : Item) (hs : item.Supported) (h : (item.text str).length < 2 ^ 31) :
    Sends sendfunc str item.format item.args (item.text str) := by
  intro out rest n hn
  cases item with
  | ordinary c hc =>
    refine ⟨[[c]], rfl, ?_⟩
    change (pf_send sendfunc str (start out rest n) c >>= pure) = _
    rw [bind_pure, pf_send, if_neg hc.1, if_pos ⟨rfl, hc.2⟩]
    rfl
  | conversion mods conv =>
    have hw : width mods < 2 ^ 31 := by
      rw [Item.text, field_length] at h
      omega
    have hpf : InField ((start out (conv.args ++ rest) n).inField mods) mods := ⟨rfl, hn, rfl, rfl, rfl, rfl, rfl, rfl⟩
    have hend : EndsField sendfunc str _ conv.type rest _ := conversion_ends conv hpf rfl
      (fun w hw => by subst hw; exact hs) (fun w hw => by subst hw; exact hs) h
    obtain ⟨texts, hflat, hrun⟩ := hend
    refine ⟨texts, hflat, ?_⟩
    rw [Item.format, List.foldlM_append, Item.args, modifiers_run _ _ _ hw]
    change (pf_send sendfunc str _ conv.type >>= pure) = _
    rw [bind_pure, hrun]
    rfl

theorem items_send (items : List Item) (hs : ∀ item ∈ items, item.Supported) (h : (textOf str items).length < 2 ^ 31) :
    Sends sendfunc str (formatOf items) (argsOf items) (textOf str items) := by
  induction items with
  | nil =>
    intro out rest n hn
    exact ⟨[], rfl, by rw [textOf, List.flatMap_nil, List.length_nil, Nat.cast_zero, Int.add_zero, hn]; rfl⟩
  | cons item items ih =>
    rw [textOf, List.flatMap_cons, List.length_append] at h
    have hitem : Sends sendfunc str item.format item.args (item.text str) :=
      item.sends (hs item List.mem_cons_self) (by omega)
    have hrest : Sends sendfunc str (formatOf items) (argsOf items) (textOf str items) :=
      ih (fun i hi => hs i (List.mem_cons_of_mem item hi)) (by rw [textOf]; omega)
    exact hitem.append hrest

end Format

end Os161.Printf
