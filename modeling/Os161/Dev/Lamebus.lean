import Mathlib.Algebra.BigOperators.Group.Finset.Basic
import Mathlib.Algebra.Order.BigOperators.Group.Finset
import Os161.Lib.Lts
import Os161.Lib.Words

/-! # `dev/lamebus/lamebus.c`: interrupts of the bus

`lamebus_interrupt` runs with interrupts off, but a handler can be `hardclock`, which yields: between the call
of a handler and its return, other threads can take interrupts of their own. The counter of dud interrupts is
shared by all these calls.
-/

namespace Os161.Lamebus

open Words
open Machine (Any)

abbrev LB_NSLOTS : Nat := 32

structure Frame where
  slot : Nat
  duds_this_time : Nat
  deriving DecidableEq, Repr

structure Bus (n : Nat) where
  ls_slotsinuse : BitVec 32
  /-- The slots with a handler installed. -/
  ls_irqfuncs : Nat → Bool
  duds : Int
  calls : Fin n → Option Frame

inductive Event (n : Nat) where
  | dud
  | stray
  /-- "lamebus: %d dud interrupts", and the counter is cleared. -/
  | cleared
  | handler (slot : Nat)
  | returned (t : Fin n) (duds_this_time : Nat)
  deriving DecidableEq, Repr

inductive Stop where
  | too_many_duds
  /-- Not a stop of the machine: the choice is not possible. -/
  | disabled
  deriving DecidableEq, Repr

inductive Choice (n : Nat) where
  | interrupt (t : Fin n) (irqs : BitVec 32)
  | handled (t : Fin n) (irqs : BitVec 32)
  | drivers (ls_slotsinuse : BitVec 32) (ls_irqfuncs : Nat → Bool)

/-- The loop from `slot` to the next call of a handler or to its end: the slot of the handler, with
`duds_this_time` and `duds`. -/
def scan {n : Nat} (b : Bus n) (irqs : BitVec 32) : Nat → Nat → Nat → Int → Option Nat × Nat × Int
  | 0, _, duds_this_time, duds => (none, duds_this_time, duds)
  | fuel + 1, slot, duds_this_time, duds =>
    let mask := 1#32 <<< slot
    if slot < LB_NSLOTS then
      if irqs &&& mask = 0 then scan b irqs fuel (slot + 1) duds_this_time duds
      else if b.ls_slotsinuse &&& mask = 0 then
        scan b irqs fuel (slot + 1) (duds_this_time + 1) (toI32 (duds + 1))
      else if b.ls_irqfuncs slot = false then
        scan b irqs fuel (slot + 1) (duds_this_time + 1) (toI32 (duds + 1))
      else (some slot, duds_this_time, duds)
    else (none, duds_this_time, duds)

section Code

variable {n : Nat}

def check_duds (t : Fin n) (duds_this_time : Nat) (b : Bus n) : Except Stop (Bus n × List (Event n)) :=
  let clears := duds_this_time = 0 ∧ b.duds > 0
  let duds := if clears then 0 else b.duds
  if duds > 10000 then .error .too_many_duds
  else .ok ({ b with duds := duds }, .returned t duds_this_time :: if clears then [.cleared] else [])

def resume (t : Fin n) (irqs : BitVec 32) (slot k : Nat) (b : Bus n) : Except Stop (Bus n × List (Event n)) :=
  match scan b irqs LB_NSLOTS slot k b.duds with
  | (some slot, k', duds) =>
    .ok ({ b with duds := duds, calls := Function.update b.calls t (some ⟨slot, k'⟩) },
      .handler slot :: List.replicate (k' - k) .dud)
  | (none, k', duds) =>
    match check_duds t k' { b with duds := duds, calls := Function.update b.calls t none } with
    | .ok (b', es) => .ok (b', es ++ List.replicate (k' - k) .dud)
    | .error e => .error e

def lamebus_interrupt (t : Fin n) (irqs : BitVec 32) (b : Bus n) : Except Stop (Bus n × List (Event n)) :=
  if irqs = 0 then .ok ({ b with duds := toI32 (b.duds + 1) }, [.returned t 1, .dud, .stray])
  else resume t irqs 0 0 b

def step (b : Bus n) : Choice n → Except Stop (Bus n × List (Event n))
  | .interrupt t irqs =>
    match b.calls t with
    | none => lamebus_interrupt t irqs b
    | some _ => .error .disabled
  | .handled t irqs =>
    match b.calls t with
    | none => .error .disabled
    | some f => resume t irqs (f.slot + 1) f.duds_this_time b
  | .drivers inuse funcs => .ok ({ b with ls_slotsinuse := inuse, ls_irqfuncs := funcs }, [])

def lamebus (n : Nat) : Machine (Bus n) (Choice n) (Event n) Stop where
  init b := b.duds = 0 ∧ ∀ t, b.calls t = none
  step := step

def NoStray (_ : Bus n) : Choice n → Prop
  | .interrupt _ irqs => irqs ≠ 0
  | _ => True

instance NoStray.decidable (b : Bus n) : (c : Choice n) → Decidable (NoStray b c)
  | .interrupt _ irqs => inferInstanceAs (Decidable (irqs ≠ 0))
  | .handled _ _ => .isTrue trivial
  | .drivers _ _ => .isTrue trivial

def dudsSince (tr : List (Event n)) : Nat := (tr.takeWhile (· ≠ .cleared)).count .dud

end Code

/-! ## One step -/

section Steps

variable {n : Nat} {b : Bus n} {t : Fin n} {irqs : BitVec 32}

theorem scan_spec (irqs : BitVec 32) {fuel : Nat} (slot k : Nat) {d : Int} (h0 : 0 ≤ d) (h31 : d + fuel < 2 ^ 31) :
    ∃ m : Nat, m ≤ fuel ∧ (scan b irqs fuel slot k d).2 = (k + m, d + m) ∧
      ∀ slot', (scan b irqs fuel slot k d).1 = some slot' → slot' < LB_NSLOTS ∧ m + slot ≤ slot' := by
  have hdone : ∃ m : Nat, m ≤ fuel ∧ (k, d) = (k + m, d + (m : Int)) ∧
      ∀ slot', none = some slot' → slot' < LB_NSLOTS ∧ m + slot ≤ slot' := ⟨0, by simp⟩
  induction fuel generalizing slot k d with
  | zero => exact hdone
  | succ fuel ih =>
    have hskip := ih (slot + 1) k h0 (by omega) ⟨0, by simp⟩
    have hdud := ih (slot + 1) (k + 1) (d := d + 1) (by omega) (by omega) ⟨0, by simp⟩
    have hwrap : toI32 (d + 1) = d + 1 := toI32_of_small (by omega) (by omega)
    have hcount : ∃ m : Nat, m ≤ fuel + 1 ∧
        (scan b irqs fuel (slot + 1) (k + 1) (toI32 (d + 1))).2 = (k + m, d + m) ∧
        ∀ slot', (scan b irqs fuel (slot + 1) (k + 1) (toI32 (d + 1))).1 = some slot' →
          slot' < LB_NSLOTS ∧ m + slot ≤ slot' := by
      obtain ⟨m, hm, heq, hslot⟩ := hdud
      rw [hwrap]
      refine ⟨m + 1, by omega, heq.trans ?_, fun slot' hs => ?_⟩
      · rw [Prod.mk.injEq]
        constructor
        · omega
        · push_cast
          omega
      · have := hslot slot' hs
        omega
    simp only [scan]
    split
    · split
      · obtain ⟨m, hm, heq, hslot⟩ := hskip
        refine ⟨m, by omega, heq, fun slot' hs => ?_⟩
        have := hslot slot' hs
        omega
      split
      · exact hcount
      split
      · exact hcount
      · refine ⟨0, by omega, by simp, ?_⟩
        rintro _ ⟨⟩
        omega
    · exact hdone

theorem check_duds_clean (h0 : 0 ≤ b.duds) :
    check_duds t 0 b = .ok ({ b with duds := 0 }, .returned t 0 :: if b.duds > 0 then [.cleared] else []) := by
  by_cases hpos : b.duds > 0
  · simp [check_duds, hpos]
  · have hzero : b.duds = 0 := by omega
    simp [check_duds, hzero]

theorem check_duds_seen {k : Nat} (hk : 0 < k) :
    check_duds t k b = if b.duds > 10000 then .error .too_many_duds else .ok (b, [.returned t k]) := by
  have : ¬ (k = 0 ∧ b.duds > 0) := by omega
  simp only [check_duds, this, if_false]

inductive Resumed (b : Bus n) (t : Fin n) (slot k : Nat) : Except Stop (Bus n × List (Event n)) → Prop where
  | suspends {slot' m : Nat} (hlt : slot' < LB_NSLOTS) (hm : m + slot ≤ slot') :
      Resumed b t slot k (.ok ({ b with duds := b.duds + m, calls := Function.update b.calls t (some ⟨slot', k + m⟩) },
        .handler slot' :: List.replicate m .dud))
  | clean (hk : k = 0) (es : List (Event n)) (hes : es = if b.duds > 0 then [.cleared] else []) :
      Resumed b t slot k (.ok ({ b with duds := 0, calls := Function.update b.calls t none }, .returned t 0 :: es))
  | counted {m : Nat} (hm : 0 < k + m) (hduds : b.duds + m ≤ 10000) :
      Resumed b t slot k (.ok ({ b with duds := b.duds + m, calls := Function.update b.calls t none },
        .returned t (k + m) :: List.replicate m .dud))
  | panics {m : Nat} (hm : 0 < k + m) (hduds : 10000 < b.duds + m) : Resumed b t slot k (.error .too_many_duds)

theorem resume_cases {slot k : Nat} (h0 : 0 ≤ b.duds) (h31 : b.duds + LB_NSLOTS < 2 ^ 31) :
    Resumed b t slot k (resume t irqs slot k b) := by
  obtain ⟨m, -, heq, hslot⟩ := scan_spec (b := b) irqs slot k h0 h31
  unfold resume
  generalize scan b irqs LB_NSLOTS slot k b.duds = r at heq hslot
  obtain ⟨o, k', d'⟩ := r
  obtain ⟨rfl, rfl⟩ : k' = k + m ∧ d' = b.duds + m := Prod.mk.inj heq
  cases o with
  | some slot' =>
    obtain ⟨hlt, hm⟩ := hslot slot' rfl
    dsimp only
    rw [Nat.add_sub_cancel_left]
    exact .suspends hlt hm
  | none =>
    dsimp only
    rw [Nat.add_sub_cancel_left]
    rcases Nat.eq_zero_or_pos (k + m) with hk | hk
    · obtain ⟨rfl, rfl⟩ : k = 0 ∧ m = 0 := by omega
      rw [check_duds_clean (by simpa using h0)]
      simp only [List.replicate_zero, List.append_nil, Nat.cast_zero, add_zero]
      exact .clean rfl _ rfl
    · rw [check_duds_seen hk]
      by_cases hmany : b.duds + m > 10000
      · rw [if_pos hmany]
        exact .panics hk hmany
      · rw [if_neg hmany]
        exact .counted hk (by omega)

end Steps

/-! ## Runs -/

section Runs

variable {n : Nat} {b b' : Bus n} {tr es : List (Event n)}

theorem dudsSince_append (h : .cleared ∉ es) : dudsSince (es ++ tr) = es.count .dud + dudsSince tr := by
  have hall : ∀ e ∈ es, decide (e ≠ .cleared) = true := by
    intro e he
    rw [decide_eq_true_eq]
    rintro rfl
    exact h he
  rw [dudsSince, List.takeWhile_append_of_pos hall, List.count_append]
  rfl

def seen (calls : Fin n → Option Frame) (t : Fin n) : Nat := (calls t).elim 0 Frame.duds_this_time

structure Counted (b : Bus n) (tr : List (Event n)) : Prop where
  duds : b.duds = dudsSince tr
  le : b.duds ≤ 10000 + ∑ t, seen b.calls t
  frame : ∀ t f, b.calls t = some f → f.slot < LB_NSLOTS ∧ f.duds_this_time ≤ f.slot

theorem Counted.bounds (h : Counted b tr) (hn : n ≤ 2 ^ 20) : 0 ≤ b.duds ∧ b.duds + LB_NSLOTS < 2 ^ 31 := by
  have hseen : ∀ t ∈ Finset.univ, seen b.calls t ≤ 32 := by
    intro t _
    unfold seen
    cases hc : b.calls t with
    | none => exact Nat.zero_le _
    | some f =>
      have := h.frame t f hc
      simp only [LB_NSLOTS, Option.elim_some] at *
      omega
  have hsum : ∑ t, seen b.calls t ≤ Finset.univ.card • 32 := Finset.sum_le_card_nsmul _ _ 32 hseen
  rw [Finset.card_univ, Fintype.card_fin, Nat.nsmul_eq_mul] at hsum
  have := h.le
  have := h.duds
  simp only [LB_NSLOTS]
  omega

inductive Moves (b : Bus n) : Except Stop (Bus n × List (Event n)) → Prop where
  | disabled : Moves b (.error .disabled)
  | drivers (inuse : BitVec 32) (funcs : Nat → Bool) :
      Moves b (.ok ({ b with ls_slotsinuse := inuse, ls_irqfuncs := funcs }, []))
  | resumed {t : Fin n} {slot : Nat} {r : Except Stop (Bus n × List (Event n))} (hslot : seen b.calls t ≤ slot)
      (h : Resumed b t slot (seen b.calls t) r) : Moves b r

theorem Counted.moves (h : Counted b tr) (hn : n ≤ 2 ^ 20) {c : Choice n} (hc : NoStray b c) : Moves b (step b c) := by
  obtain ⟨h0, h31⟩ := h.bounds hn
  cases c with
  | interrupt t irqs =>
    cases hcall : b.calls t with
    | some f =>
      simp only [step, hcall]
      exact .disabled
    | none =>
      have hseen : seen b.calls t = 0 := by rw [seen, hcall]; rfl
      simp only [step, hcall, lamebus_interrupt]
      rw [if_neg hc]
      refine .resumed (show seen b.calls t ≤ 0 by omega) ?_
      rw [hseen]
      exact resume_cases h0 h31
  | handled t irqs =>
    cases hcall : b.calls t with
    | none =>
      simp only [step, hcall]
      exact .disabled
    | some f =>
      have hseen : seen b.calls t = f.duds_this_time := by rw [seen, hcall]; rfl
      have := h.frame t f hcall
      simp only [step, hcall]
      refine .resumed (show seen b.calls t ≤ f.slot + 1 by omega) ?_
      rw [hseen]
      exact resume_cases h0 h31
  | drivers inuse funcs => exact .drivers inuse funcs

theorem sum_seen_update (calls : Fin n → Option Frame) (t : Fin n) (f : Frame) :
    ∑ t', seen (Function.update calls t (some f)) t' + seen calls t = ∑ t', seen calls t' + f.duds_this_time := by
  have hself : seen (Function.update calls t (some f)) t = f.duds_this_time := by
    rw [seen, Function.update_self]
    rfl
  have hrest : ∑ t' ∈ Finset.univ.erase t, seen (Function.update calls t (some f)) t' =
      ∑ t' ∈ Finset.univ.erase t, seen calls t' := by
    refine Finset.sum_congr rfl fun t' ht' => ?_
    rw [seen, seen, Function.update_of_ne (Finset.ne_of_mem_erase ht')]
  rw [← Finset.add_sum_erase Finset.univ _ (Finset.mem_univ t), ← Finset.add_sum_erase Finset.univ (seen calls)
    (Finset.mem_univ t), hself, hrest]
  omega

theorem Counted.update_none (h : Counted b tr) {t t' : Fin n} {f : Frame}
    (hf : Function.update b.calls t none t' = some f) : f.slot < LB_NSLOTS ∧ f.duds_this_time ≤ f.slot := by
  by_cases ht : t' = t
  · rw [ht, Function.update_self] at hf
    cases hf
  · rw [Function.update_of_ne ht] at hf
    exact h.frame t' f hf

theorem Moves.counted (h : Counted b tr) (hm : Moves b (.ok (b', es))) : Counted b' (es ++ tr) := by
  generalize hr : (Except.ok (b', es) : Except Stop (Bus n × List (Event n))) = r at hm
  cases hm with
  | disabled => cases hr
  | drivers inuse funcs =>
    cases hr
    exact ⟨h.duds, h.le, h.frame⟩
  | @resumed t slot _ hslot hres =>
    cases hres with
    | panics => cases hr
    | @suspends slot' m hlt hm =>
      cases hr
      have hsum := sum_seen_update b.calls t ⟨slot', seen b.calls t + m⟩
      have hle := h.le
      refine ⟨?_, ?_, fun t' f hf => ?_⟩
      · rw [List.cons_append, ← List.cons_append, dudsSince_append (by simp)]
        have := h.duds
        simp
        omega
      · dsimp only at hsum ⊢
        omega
      · dsimp only at hf
        by_cases ht : t' = t
        · rw [ht, Function.update_self, Option.some.injEq] at hf
          subst hf
          dsimp only
          omega
        · rw [Function.update_of_ne ht] at hf
          exact h.frame t' f hf
    | clean hk es hes =>
      cases hr
      refine ⟨?_, by dsimp only; omega, fun t' f hf => h.update_none hf⟩
      rw [hes]
      split
      · simp [dudsSince]
      · have := h.duds
        rw [dudsSince_append (by simp)]
        simp
        omega
    | @counted m hm hduds =>
      cases hr
      refine ⟨?_, by dsimp only; omega, fun t' f hf => h.update_none hf⟩
      rw [dudsSince_append (by simp)]
      have := h.duds
      simp
      omega

theorem Moves.clean (hm : Moves b (.ok (b', es))) {i : Fin n} (hi : .returned i 0 ∈ es) : b'.duds = 0 := by
  generalize hr : (Except.ok (b', es) : Except Stop (Bus n × List (Event n))) = r at hm
  cases hm with
  | disabled => cases hr
  | drivers inuse funcs =>
    cases hr
    cases hi
  | resumed hslot hres =>
    cases hres with
    | panics => cases hr
    | suspends hlt hm =>
      cases hr
      simp at hi
    | clean hk es hes =>
      cases hr
      rfl
    | counted hm hduds =>
      cases hr
      simp at hi
      omega

theorem reach_counted (hn : n ≤ 2 ^ 20) (h : Machine.Reach (lamebus n) NoStray b tr) : Counted b tr := by
  refine Machine.Reach.invariant (I := Counted) ?_ ?_ h
  · rintro b ⟨hduds, hcalls⟩
    refine ⟨by rw [hduds]; rfl, by omega, fun t f hf => ?_⟩
    rw [hcalls t] at hf
    cases hf
  · intro b b' c tr es _ hb hc hs
    have hm := hb.moves hn hc
    rw [show step b c = _ from hs] at hm
    exact hm.counted hb

theorem check_duds_le {t : Fin n} {k : Nat} (hr : check_duds t k b = .ok (b', es)) : b'.duds ≤ 10000 := by
  dsimp only [check_duds] at hr
  generalize (if k = 0 ∧ b.duds > 0 then 0 else b.duds) = d at hr
  split at hr
  · cases hr
  · cases hr
    dsimp only
    omega

theorem resume_returned {t : Fin n} {irqs : BitVec 32} {slot k : Nat} (hr : resume t irqs slot k b = .ok (b', es))
    {i : Fin n} {d : Nat} (hi : .returned i d ∈ es) : b'.duds ≤ 10000 := by
  unfold resume at hr
  generalize scan b irqs LB_NSLOTS slot k b.duds = x at hr
  obtain ⟨o, k', d'⟩ := x
  cases o with
  | some slot' =>
    cases hr
    simp at hi
  | none =>
    dsimp only at hr
    split at hr
    · rename_i hcheck
      cases hr
      exact check_duds_le hcheck
    · cases hr

def Ends (b : Bus n) (k : Nat) (d : Int) : Choice n → Prop
  | .interrupt t irqs => b.calls t = none ∧ irqs ≠ 0 ∧ scan b irqs LB_NSLOTS 0 0 b.duds = (none, k, d)
  | .handled t irqs => ∃ f, b.calls t = some f ∧
      scan b irqs LB_NSLOTS (f.slot + 1) f.duds_this_time b.duds = (none, k, d)
  | .drivers _ _ => False

theorem resume_panics {t : Fin n} {irqs : BitVec 32} {slot k k' : Nat} {d : Int}
    (hs : scan b irqs LB_NSLOTS slot k b.duds = (none, k', d)) (hk : 0 < k') (hd : 10000 < d) :
    resume t irqs slot k b = .error .too_many_duds := by
  simp only [resume, hs, check_duds_seen hk, if_pos hd]

/-- A call that some slot was pending for returns with the counter at 10000 at most. Where no
interrupt is stray, the counter is the number of duds since it was cleared. -/
theorem pending_duds_caught (n : Nat) (hn : n ≤ 2 ^ 20) :
    (∀ b tr, Machine.Reach (lamebus n) Any b tr → ∀ c, NoStray b c →
      (∀ b' es, step b c = .ok (b', es) → ∀ i d, .returned i d ∈ es → b'.duds ≤ 10000) ∧
      ∀ k d, Ends b k d c → 0 < k → 10000 < d → step b c = .error .too_many_duds) ∧
    ∀ b tr, Machine.Reach (lamebus n) NoStray b tr → b.duds = dudsSince tr ∧
      ∀ c, NoStray b c → ∀ b' es, step b c = .ok (b', es) → ∀ i d, .returned i d ∈ es →
        dudsSince (es ++ tr) ≤ 10000 ∧ (d = 0 → b'.duds = 0) := by
  have hle : ∀ (b : Bus n) c, NoStray b c → ∀ b' es, step b c = .ok (b', es) → ∀ i d, .returned i d ∈ es →
      b'.duds ≤ 10000 := by
    intro b c hc b' es hs i d hi
    cases c with
    | interrupt t irqs =>
      simp only [step, lamebus_interrupt, if_neg (show irqs ≠ 0 from hc)] at hs
      split at hs
      · exact resume_returned hs hi
      · cases hs
    | handled t irqs =>
      simp only [step] at hs
      split at hs
      · cases hs
      · exact resume_returned hs hi
    | drivers inuse funcs =>
      cases hs
      cases hi
  refine ⟨fun b tr _ c hc => ⟨hle b c hc, fun k d he hk hd => ?_⟩, fun b tr h => ?_⟩
  · cases c with
    | interrupt t irqs =>
      obtain ⟨hcall, hne, hs⟩ := he
      simp only [step, hcall, lamebus_interrupt, if_neg hne]
      exact resume_panics hs hk hd
    | handled t irqs =>
      obtain ⟨f, hcall, hs⟩ := he
      simp only [step, hcall]
      exact resume_panics hs hk hd
    | drivers inuse funcs => cases he
  · have hcount := reach_counted hn h
    refine ⟨hcount.duds, fun c hc b' es hs i d hi => ?_⟩
    have hm := hcount.moves hn hc
    rw [hs] at hm
    have hb' := hm.counted hcount
    have := hle b c hc b' es hs i d hi
    refine ⟨by have := hb'.duds; omega, fun hd => ?_⟩
    subst hd
    exact hm.clean hi

end Runs

def bareBus (duds : Int) : Bus 1 := ⟨0, fun _ => false, duds, fun _ => none⟩

theorem pending_duds_caught_two : ∃ b tr, Machine.Reach (lamebus 1) NoStray b tr ∧ b.duds = 2 ∧ b.duds = dudsSince tr ∧
    ∀ c, NoStray b c → ∀ b' es, step b c = .ok (b', es) → ∀ i d, .returned i d ∈ es → b'.duds ≤ 10000 := by
  obtain ⟨b, tr, hreach, hcheck⟩ := Machine.exists_runOk (M := lamebus 1) (s := bareBus 0) NoStray
    [.interrupt 0 1, .interrupt 0 1] (fun x => decide (x.1.duds = 2)) ⟨rfl, fun _ => rfl⟩ (by decide +kernel)
  obtain ⟨hall, hcount⟩ := pending_duds_caught 1 (by decide)
  exact ⟨b, tr, hreach, of_decide_eq_true hcheck, (hcount b tr hreach).1, fun c hc => (hall b tr hreach.any c hc).1⟩

theorem strays_reach (m : Nat) (hm : m < 2 ^ 31) :
    Machine.Reach (lamebus 1) Any (bareBus m) (List.replicate m [.returned 0 1, .dud, .stray]).flatten := by
  induction m with
  | zero => exact .init ⟨rfl, fun _ => rfl⟩
  | succ m ih =>
    rw [List.replicate_succ, List.flatten_cons]
    refine .step (ih (by omega)) (a := .interrupt 0 0) trivial ?_
    have hwrap : toI32 ((m : Int) + 1) = ((m + 1 : Nat) : Int) := by
      rw [toI32_of_small (by omega) (by omega)]
      rfl
    show lamebus_interrupt 0 0 (bareBus m) = _
    rw [lamebus_interrupt, if_pos rfl]
    simp only [bareBus, hwrap]

/-- The last of 10001 stray interrupts returns like the others. -/
theorem strays_not_caught : ∃ b tr, Machine.Reach (lamebus 1) Any b tr ∧ tr.head? = some (.returned 0 1) ∧
    b.duds = 10001 := by
  refine ⟨bareBus (10001 : Nat), _, strays_reach 10001 (by decide), ?_, rfl⟩
  rw [List.replicate_succ]
  rfl

end Os161.Lamebus
