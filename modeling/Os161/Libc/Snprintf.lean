import Mathlib.Data.List.Induction
import Os161.Libc.Printf
import Os161.Libc.Str

/-! # `snprintf.c`

What `__vprintf` sends does not depend on what the client does with it. So a run with `__snprintf_send` goes along with
a run that only collects the text.
-/

namespace Os161.Printf

open Words

/-! ## Two clients -/

section Clients

variable {σ τ : Type}

def PF.put (pf : PF σ) (c : τ) : PF τ :=
  ⟨c, pf.ap, pf.charcount, pf.in_pct, pf.size, pf.num, pf.sign, pf.spacing, pf.rightspc, pf.fillchar, pf.base,
    pf.baseprefix, pf.altformat⟩

def Linked (R : σ → τ → Int → Prop) (pf : PF σ) (q : PF τ) : Prop :=
  ∃ c, q = pf.put c ∧ R pf.clientdata c pf.charcount

inductive Ends (R : σ → τ → Int → Prop) : Except Stop (PF σ) → Except Stop (PF τ) → Prop
  | stop (e : Stop) : Ends R (.error e) (.error e)
  | ok {pf : PF σ} {q : PF τ} : Linked R pf q → Ends R (.ok pf) (.ok q)

variable {R : σ → τ → Int → Prop} {send : σ → List Byte → σ} {record : τ → List Byte → τ} {pf : PF σ} {q : PF τ}

theorem Ends.bind {x : Except Stop (PF σ)} {y : Except Stop (PF τ)} {f : PF σ → Except Stop (PF σ)}
    {g : PF τ → Except Stop (PF τ)} (h : Ends R x y) (hf : ∀ pf q, Linked R pf q → Ends R (f pf) (g q)) :
    Ends R (x >>= f) (y >>= g) := by
  cases h with
  | stop e => exact .stop e
  | ok h => exact hf _ _ h

theorem Linked.endfield (h : Linked R pf q) : Linked R (pf_endfield pf) (pf_endfield q) := by
  obtain ⟨c, rfl, hr⟩ := h
  exact ⟨c, rfl, hr⟩

theorem Linked.modifier (h : Linked R pf q) (ch : Byte) : Ends R (pf_modifier pf ch) (pf_modifier q ch) := by
  obtain ⟨c, rfl, hr⟩ := h
  have hsize : (pf.put c).size = pf.size := rfl
  have hspacing : (pf.put c).spacing = pf.spacing := rfl
  unfold pf_modifier
  rw [hsize, hspacing]
  split_ifs
  all_goals first | exact .stop _ | exact .ok ⟨c, rfl, hr⟩

theorem Linked.setnum (h : Linked R pf q) (ch : Byte) (w : UInt32) : Linked R (pf_setnum pf ch w) (pf_setnum q ch w) := by
  obtain ⟨c, rfl, hr⟩ := h
  unfold pf_setnum
  split_ifs
  all_goals exact ⟨c, rfl, hr⟩

theorem Linked.setbase (h : Linked R pf q) (ch : Byte) : Linked R (pf_setbase pf ch) (pf_setbase q ch) := by
  obtain ⟨c, rfl, hr⟩ := h
  have halt : (pf.put c).altformat = pf.altformat := rfl
  unfold pf_setbase
  dsimp only
  split_ifs
  all_goals first | exact ⟨c, rfl, hr⟩ | simp_all

theorem Linked.va_arg_bind (h : Linked R pf q) {f : UInt32 × PF σ → Except Stop (PF σ)}
    {g : UInt32 × PF τ → Except Stop (PF τ)} (hf : ∀ w pf q, Linked R pf q → Ends R (f (w, pf)) (g (w, q))) :
    Ends R (va_arg pf >>= f) (va_arg q >>= g) := by
  obtain ⟨c, rfl, hr⟩ := h
  have hap : (pf.put c).ap = pf.ap := rfl
  unfold va_arg
  rw [hap]
  cases pf.ap with
  | nil => exact .stop _
  | cons w rest => exact hf w _ _ ⟨c, rfl, hr⟩

section Print

variable (hcount : ∀ c d n, R c d n → toI32 n = n)
  (hsend : ∀ c d n text, R c d n → R (send c text) (record d text) (toI32 (n + text.length)))
include hcount hsend

theorem Linked.sent (h : Linked R pf q) (texts : List (List Byte)) :
    Linked R (pf.sent send texts) (q.sent record texts) := by
  obtain ⟨c, rfl, hr⟩ := h
  refine ⟨texts.foldl record c, rfl, ?_⟩
  change R (texts.foldl send pf.clientdata) _ (toI32 (pf.charcount + texts.flatten.length))
  generalize pf.clientdata = a, pf.charcount = n at hr
  induction texts generalizing a c n with
  | nil =>
    rw [List.flatten_nil, List.length_nil, Nat.cast_zero, Int.add_zero, hcount _ _ _ hr]
    exact hr
  | cons t texts ih =>
    have := ih _ _ _ (hsend a c n t hr)
    rwa [toI32_toI32_add, Int.add_assoc, ← Nat.cast_add, ← List.length_append] at this

theorem Linked.printstuff (h : Linked R pf q) (pre pre2 stuff : List Byte) :
    Linked R (pf_printstuff send pf pre pre2 stuff) (pf_printstuff record q pre pre2 stuff) := by
  have hsent := h.sent hcount hsend (stuffTexts pf.spacing pf.rightspc pf.fillchar pre pre2 stuff)
  obtain ⟨c, rfl, hr⟩ := h
  have hn := hcount _ _ _ hr
  rw [pf_printstuff_eq pf hn, pf_printstuff_eq (pf.put c) hn]
  exact hsent

theorem Linked.printnum (h : Linked R pf q) : Ends R (pf_printnum send pf) (pf_printnum record q) := by
  have hfields : q.base = pf.base ∧ q.num = pf.num ∧ q.baseprefix = pf.baseprefix ∧ q.sign = pf.sign := by
    obtain ⟨c, rfl, -⟩ := h
    exact ⟨rfl, rfl, rfl, rfl⟩
  obtain ⟨h1, h2, h3, h4⟩ := hfields
  unfold pf_printnum
  rw [h1, h2, h3, h4]
  cases pf_printnum_loop pf.base (NUMBER_BUF_SIZE - 1) pf.num.toNat [] with
  | error e => exact .stop e
  | ok x => exact .ok (h.printstuff hcount hsend _ _ _)

theorem Linked.char (str : UInt32 → List Byte) (h : Linked R pf q) (ch : Byte) :
    Ends R (pf_send send str pf ch) (pf_send record str q ch) := by
  have hpct : q.in_pct = pf.in_pct := by
    obtain ⟨c, rfl, -⟩ := h
    rfl
  unfold pf_send
  rw [hpct]
  split_ifs
  · exact .stop _
  · rw [pf_print_eq, pf_print_eq]
    exact .ok (h.sent hcount hsend _)
  · obtain ⟨c, rfl, hr⟩ := h
    exact .ok ⟨c, rfl, hr⟩
  · exact h.modifier ch
  · refine (h.va_arg_bind fun w pf q hw => .ok (hw.setnum ch w)).bind fun pf q hn => ?_
    exact ((hn.setbase ch).printnum hcount hsend).bind fun pf q hp => .ok hp.endfield
  · exact h.va_arg_bind fun w pf q hw => .ok (hw.printstuff hcount hsend _ _ _).endfield
  · exact h.va_arg_bind fun w pf q hw => .ok (hw.printstuff hcount hsend _ _ _).endfield
  · exact .ok (h.printstuff hcount hsend _ _ _).endfield

/-- Every character of the format; the induction is on the format. -/
theorem Linked.format (str : UInt32 → List Byte) (h : Linked R pf q) (format : List Byte) :
    Ends R (format.foldlM (pf_send send str) pf) (format.foldlM (pf_send record str) q) := by
  induction format generalizing pf q with
  | nil => exact .ok h
  | cons ch format ih =>
    rw [List.foldlM_cons, List.foldlM_cons]
    exact (h.char hcount hsend str ch).bind fun pf q hq => ih hq

end Print

end Clients

/-! ## The code -/

structure SNP where
  buf : Mem
  buflen : Nat
  bufpos : Nat

def snprintf_put (snp : SNP) (c : Byte) : SNP :=
  if snp.bufpos < snp.buflen then
    { snp with buf := Function.update snp.buf snp.bufpos c, bufpos := snp.bufpos + 1 }
  else snp

def snprintf_send (snp : SNP) (data : List Byte) : SNP := data.foldl snprintf_put snp

def vsnprintf (str : UInt32 → List Byte) (buf : Mem) (len : Nat) (fmt : List Byte) (ap : List UInt32) :
    Except Stop (Int × Mem) := do
  let (chars, pf) ← vprintf snprintf_send str ⟨buf, if len = 0 then 0 else len - 1, 0⟩ fmt ap
  let snp := pf.clientdata
  return (chars, if len > 0 then Function.update snp.buf snp.bufpos 0 else snp.buf)

/-! ## The buffer -/

section Buffer

variable {snp : SNP}

theorem snprintf_send_append (a b : List Byte) : snprintf_send (snprintf_send snp a) b = snprintf_send snp (a ++ b) :=
  (List.foldl_append ..).symm

theorem snprintf_send_flatten (texts : List (List Byte)) :
    texts.foldl snprintf_send snp = snprintf_send snp texts.flatten := by
  induction texts generalizing snp with
  | nil => rfl
  | cons t texts ih => rw [List.foldl_cons, ih, snprintf_send_append, List.flatten_cons]

theorem snprintf_send_spec (buf : Mem) (buflen : Nat) (text : List Byte) :
    ∃ m, snprintf_send ⟨buf, buflen, 0⟩ text = ⟨m, buflen, min text.length buflen⟩ ∧
      Libc.Begins m (text.take buflen) ∧ ∀ i, min text.length buflen ≤ i → m i = buf i := by
  induction text using List.reverseRecOn with
  | nil => exact ⟨buf, by rw [List.length_nil, Nat.zero_min]; rfl, by simpa using Libc.begins_nil buf, fun _ _ => rfl⟩
  | append_singleton text c ih =>
    obtain ⟨m, hrun, hbegins, hrest⟩ := ih
    rw [← snprintf_send_append, hrun, List.length_append, List.length_singleton]
    by_cases hroom : text.length < buflen
    · have hput : snprintf_send ⟨m, buflen, min text.length buflen⟩ [c] =
          ⟨Function.update m text.length c, buflen, text.length + 1⟩ := by
        rw [snprintf_send, List.foldl_cons, List.foldl_nil, snprintf_put, Nat.min_eq_left hroom.le, if_pos hroom]
      rw [List.take_of_length_le hroom.le] at hbegins
      rw [hput, Nat.min_eq_left (by omega), List.take_of_length_le (by simp; omega)]
      refine ⟨_, rfl, ?_, ?_⟩
      · rw [Libc.begins_snoc]
        exact ⟨hbegins.update (Nat.le_refl _) c, Function.update_self ..⟩
      · intro i hi
        rw [Function.update_of_ne (by omega)]
        exact hrest i (by omega)
    · have hput : snprintf_send ⟨m, buflen, min text.length buflen⟩ [c] = ⟨m, buflen, min text.length buflen⟩ := by
        rw [snprintf_send, List.foldl_cons, List.foldl_nil, snprintf_put, if_neg (by simp only; omega)]
      have hmin : min (text.length + 1) buflen = min text.length buflen := by omega
      rw [hput, hmin, List.take_append_of_le_length (by omega)]
      exact ⟨m, rfl, hbegins, hrest⟩

def Buffered (snp snp' : SNP) (text : List Byte) (n : Int) : Prop :=
  snp' = snprintf_send snp text ∧ n = toI32 text.length

theorem toI32_zero : toI32 0 = 0 := toI32_of_small (by decide) (by decide)

theorem vprintf_snprintf_send (str : UInt32 → List Byte) (snp : SNP) {fmt : List Byte} {ap : List UInt32} {n : Int}
    {pf : PF (List Byte)} (hrun : vprintf (· ++ ·) str [] fmt ap = .ok (n, pf)) :
    ∃ q, vprintf snprintf_send str snp fmt ap = .ok (n, q) ∧ q.clientdata = snprintf_send snp pf.clientdata ∧
      n = toI32 pf.clientdata.length := by
  have hlink : Ends (Buffered snp)
      (fmt.foldlM (pf_send snprintf_send str) (start snp ap 0)) (fmt.foldlM (pf_send (· ++ ·) str) (start [] ap 0)) := by
    refine Linked.format ?_ ?_ str ⟨[], rfl, rfl, toI32_zero.symm⟩ fmt
    · intro c text n hb
      rw [hb.2, toI32_toI32]
    · intro c text n more hb
      refine ⟨by rw [hb.1, snprintf_send_append], ?_⟩
      rw [hb.2, toI32_toI32_add, List.length_append, Nat.cast_add]
  unfold vprintf at hrun ⊢
  generalize fmt.foldlM (pf_send snprintf_send str) (start snp ap 0) = x at hlink ⊢
  generalize fmt.foldlM (pf_send (· ++ ·) str) (start [] ap 0) = y at hlink hrun
  cases hlink with
  | stop e => cases hrun
  | ok h =>
    cases hrun
    obtain ⟨c, rfl, hc, hn⟩ := h
    exact ⟨_, rfl, hc, hn⟩

theorem vsnprintf_spec (str : UInt32 → List Byte) (buf : Mem) (len : Nat) {fmt : List Byte} {ap : List UInt32} {n : Int}
    {pf : PF (List Byte)} (hrun : vprintf (· ++ ·) str [] fmt ap = .ok (n, pf)) (hlen : pf.clientdata.length < 2 ^ 31) :
    ∃ m, vsnprintf str buf len fmt ap = .ok (pf.clientdata.length, m) ∧ (∀ i, len ≤ i → m i = buf i) ∧
      (0 < len → Libc.Begins m (pf.clientdata.take (len - 1)) ∧ m (min pf.clientdata.length (len - 1)) = 0) := by
  obtain ⟨q, hq, hdata, hn⟩ := vprintf_snprintf_send str ⟨buf, if len = 0 then 0 else len - 1, 0⟩ hrun
  obtain ⟨m, hsend, hbegins, hrest⟩ := snprintf_send_spec buf (if len = 0 then 0 else len - 1) pf.clientdata
  rw [hsend] at hdata
  rw [toI32_of_small (by omega) (by omega)] at hn
  subst hn
  have hret : vsnprintf str buf len fmt ap = .ok (pf.clientdata.length,
      if len > 0 then Function.update q.clientdata.buf q.clientdata.bufpos 0 else q.clientdata.buf) := by
    rw [vsnprintf, hq]
    rfl
  rw [hdata] at hret
  by_cases hpos : 0 < len
  · rw [if_pos hpos] at hret
    rw [if_neg (by omega)] at hret hbegins hrest
    refine ⟨_, hret, ?_, fun _ => ⟨?_, Function.update_self ..⟩⟩
    · intro i hi
      dsimp only
      rw [Function.update_of_ne (by omega)]
      exact hrest i (by omega)
    · exact hbegins.update (by rw [List.length_take, Nat.min_comm]) 0
  · rw [if_neg hpos] at hret
    rw [if_pos (by omega), Nat.min_zero] at hrest
    exact ⟨_, hret, fun i _ => hrest i (Nat.zero_le i), fun h => absurd h hpos⟩

end Buffer

/-- `vsnprintf` returns the length of the text that `__vprintf` generates, leaves as much of it as fits with a NUL
behind it, and writes only there, however the text is cut. -/
theorem vsnprintf_truncates (str : UInt32 → List Byte) (buf : Mem) (len : Nat) {fmt : List Byte} {ap : List UInt32}
    {n : Int} {pf : PF (List Byte)} (hrun : vprintf (· ++ ·) str [] fmt ap = .ok (n, pf))
    (hlen : pf.clientdata.length < 2 ^ 31) :
    ∃ m, vsnprintf str buf len fmt ap = .ok (pf.clientdata.length, m) ∧ (∀ i, len ≤ i → m i = buf i) ∧
      (0 < len → Libc.Begins m (pf.clientdata.take (min pf.clientdata.length (len - 1))) ∧
        m (min pf.clientdata.length (len - 1)) = 0) ∧
      ∀ snp (texts : List (List Byte)), texts.flatten = pf.clientdata →
        texts.foldl snprintf_send snp = snprintf_send snp pf.clientdata := by
  obtain ⟨m, hret, houtside, hinside⟩ := vsnprintf_spec str buf len hrun hlen
  have htake : pf.clientdata.take (min pf.clientdata.length (len - 1)) = pf.clientdata.take (len - 1) := by
    rw [← List.take_take, List.take_of_length_le (List.length_take_le' _ _)]
  refine ⟨m, hret, houtside, ?_, ?_⟩
  · rwa [htake]
  · intro snp texts ht
    rw [snprintf_send_flatten, ht]

theorem vsnprintf_truncates_number : ∃ m,
    vsnprintf (fun _ => []) (fun _ => 7) 4 (['%', 'd', '%', '%'].map ch) [1234] = .ok (5, m) ∧ (∀ i, 4 ≤ i → m i = 7) ∧
      (0 < 4 → Libc.Begins m ((['1', '2', '3', '4', '%'].map ch).take (min 5 (4 - 1))) ∧ m (min 5 (4 - 1)) = 0) ∧
      ∀ snp (texts : List (List Byte)), texts.flatten = ['1', '2', '3', '4', '%'].map ch →
        texts.foldl snprintf_send snp = snprintf_send snp (['1', '2', '3', '4', '%'].map ch) := by
  have hrun : vprintf (· ++ ·) (fun _ => []) [] (['%', 'd', '%', '%'].map ch) [1234] =
      .ok (5, start (['1', '2', '3', '4', '%'].map ch) [] 5) := rfl
  exact vsnprintf_truncates (fun _ => []) (fun _ => 7) 4 hrun (by decide)

end Os161.Printf
