import Mathlib.Algebra.Group.Nat.Defs
import Mathlib.Data.List.Basic

/-! # A MIPS-I processor

A jump takes effect after the instruction in its delay slot. An access that is not aligned, a signed overflow of `addi`,
the use of a register that the last instruction is still fetching and a system call have no next state.
-/

namespace Mips

abbrev Word := BitVec 32

inductive Reg where
  | z0 | AT | v0 | v1 | a0 | a1 | a2 | a3 | t0 | t1 | t2 | t3 | t4 | t5 | t6 | t7
  | s0 | s1 | s2 | s3 | s4 | s5 | s6 | s7 | t8 | t9 | k0 | k1 | gp | sp | s8 | ra
  deriving DecidableEq, Repr

inductive Cop0 where
  | vaddr | status | cause | epc
  deriving DecidableEq, Repr

/-- Branches count instructions from the one in their delay slot. -/
inductive Instr where
  | nop
  | lw (rt : Reg) (off : Word) (base : Reg)
  | sw (rt : Reg) (off : Word) (base : Reg)
  | addi (rt rs : Reg) (imm : Word)
  | addiu (rt rs : Reg) (imm : Word)
  | andi (rt rs : Reg) (imm : Word)
  | ori (rt rs : Reg) (imm : Word)
  | move (rd rs : Reg)
  | li (rt : Reg) (imm : Word)
  | mfhi (rd : Reg)
  | mflo (rd : Reg)
  | mthi (rs : Reg)
  | mtlo (rs : Reg)
  | mfc0 (rt : Reg) (cop : Cop0)
  | mtc0 (rt : Reg) (cop : Cop0)
  | rfe
  | beq (rs rt : Reg) (off : Word)
  | j (addr : Word)
  | jal (addr : Word)
  | jr (rs : Reg)
  | syscall
  deriving DecidableEq, Repr

/-- What is not about the next instruction; `late` is the register that the last one is fetching. -/
structure Core where
  reg : Reg → Word
  hi : Word
  lo : Word
  cop0 : Cop0 → Word
  mem : Word → Word
  late : Option Reg

structure Cpu where
  pc : Word
  npc : Word
  core : Core

def Aligned (a : Word) : Prop := a.toNat % 4 = 0

instance (a : Word) : Decidable (Aligned a) := inferInstanceAs (Decidable (_ = _))

namespace Core

def get (k : Core) (r : Reg) : Word := if r = .z0 then 0 else k.reg r

def set (k : Core) (r : Reg) (v : Word) : Core := { k with reg := Function.update k.reg r v }

end Core

/-- The two mode bits of the context before come back. -/
def popMode (status : Word) : Word := (status &&& ~~~0xf#32) ||| ((status >>> 2) &&& 0xf#32)

namespace Instr

def reads : Instr → List Reg
  | lw _ _ base => [base]
  | sw rt _ base => [rt, base]
  | addi _ rs _ | addiu _ rs _ | andi _ rs _ | ori _ rs _ | move _ rs => [rs]
  | beq rs rt _ => [rs, rt]
  | mthi rs | mtlo rs | mtc0 rs _ | jr rs => [rs]
  | nop | li _ _ | mfhi _ | mflo _ | mfc0 _ _ | rfe | j _ | jal _ | syscall => []

def run (k : Core) : Instr → Option Core
  | lw rt off base =>
    if Aligned (k.get base + off) then some { k.set rt (k.mem (k.get base + off)) with late := some rt } else none
  | sw rt off base =>
    if Aligned (k.get base + off) then some { k with mem := Function.update k.mem (k.get base + off) (k.get rt) }
    else none
  | addi rt rs imm => if (k.get rs).saddOverflow imm then none else some (k.set rt (k.get rs + imm))
  | addiu rt rs imm => some (k.set rt (k.get rs + imm))
  | andi rt rs imm => some (k.set rt (k.get rs &&& imm))
  | ori rt rs imm => some (k.set rt (k.get rs ||| imm))
  | move rd rs => some (k.set rd (k.get rs))
  | li rt imm => some (k.set rt imm)
  | mfhi rd => some (k.set rd k.hi)
  | mflo rd => some (k.set rd k.lo)
  | mthi rs => some { k with hi := k.get rs }
  | mtlo rs => some { k with lo := k.get rs }
  | mfc0 rt cop => some (k.set rt (k.cop0 cop))
  | mtc0 rt cop => some { k with cop0 := Function.update k.cop0 cop (k.get rt) }
  | rfe => some { k with cop0 := Function.update k.cop0 .status (popMode (k.cop0 .status)) }
  | nop | beq _ _ _ | j _ | jal _ | jr _ => some k
  | syscall => none

def exec (i : Instr) (k : Core) : Option Core :=
  if ∃ r ∈ i.reads, k.late = some r then none else i.run { k with late := none }

/-- Where it goes on behind the instruction at `npc`. -/
def target (k : Core) (npc : Word) : Instr → Word
  | beq rs rt off => if k.get rs = k.get rt then npc + 4 * off else npc + 4
  | j addr | jal addr => addr
  | jr rs => k.get rs
  | _ => npc + 4

def link (npc : Word) (k : Core) : Instr → Core
  | jal _ => k.set .ra (npc + 4)
  | _ => k

def plain : Instr → Bool
  | beq _ _ _ | j _ | jal _ | jr _ => false
  | _ => true

end Instr

abbrev Text := Word → Option Instr

def step (text : Text) (c : Cpu) : Option Cpu := do
  let i ← text c.pc
  let k ← i.exec c.core
  some ⟨c.npc, i.target c.core c.npc, i.link c.npc k⟩

def steps (text : Text) : Nat → Cpu → Option Cpu
  | 0, c => some c
  | n + 1, c => (step text c).bind (steps text n)

def At (text : Text) : Word → List Instr → Prop
  | _, [] => True
  | a, i :: is => text a = some i ∧ At text (a + 4) is

instance decidableAt (text : Text) : (a : Word) → (is : List Instr) → Decidable (At text a is)
  | _, [] => .isTrue trivial
  | a, i :: is =>
    have := decidableAt text (a + 4) is
    inferInstanceAs (Decidable (text a = some i ∧ At text (a + 4) is))

def place (l : List (Word × List Instr)) : Text := fun a =>
  l.findSome? fun e => if Aligned (a - e.1) then e.2[(a - e.1).toNat / 4]? else none

structure Ready (text : Text) (c : Cpu) (is : List Instr) : Prop where
  code : At text c.pc is
  next : c.npc = c.pc + 4

def line (is : List Instr) (k : Core) : Option Core := is.foldlM (fun k i => i.exec k) k

variable {text : Text} {c : Cpu} {k k' : Core} {i : Instr} {is rest : List Instr}

theorem line_append {is' : List Instr} (h : line is k = some k') : line (is ++ is') k = line is' k' := by
  simp only [line, List.foldlM_append] at h ⊢
  rw [h]
  rfl

theorem line_cons (h : i.exec k = some k') : line (i :: is) k = line is k' := by
  rw [line, List.foldlM_cons, h]
  rfl

theorem line_single (h : i.exec k = some k') : line [i] k = some k' := line_cons h

theorem exec_of_reads (h : ∀ r ∈ i.reads, k.late ≠ some r) : i.exec k = i.run { k with late := none } :=
  if_neg fun ⟨r, hr, hlate⟩ => h r hr hlate

theorem exec_free (hlate : k.late = none) : i.exec k = i.run k := by
  obtain ⟨reg, hi, lo, cop0, mem, late⟩ := k
  obtain rfl : late = none := hlate
  exact exec_of_reads (by simp)

theorem step_plain (hi : text c.pc = some i) (hp : i.plain = true) (he : i.exec c.core = some k) :
    step text c = some ⟨c.npc, c.npc + 4, k⟩ := by
  have ht : i.target c.core c.npc = c.npc + 4 ∧ i.link c.npc k = k := by cases i <;> first | exact ⟨rfl, rfl⟩ | cases hp
  simp [step, hi, he, ht.1, ht.2]

theorem steps_add {n m : Nat} {c' : Cpu} (h : steps text n c = some c') : steps text (n + m) c = steps text m c' := by
  induction n generalizing c with
  | zero =>
    cases h
    rw [Nat.zero_add]
  | succ n ih =>
    obtain ⟨c₁, h₁, h₂⟩ := Option.bind_eq_some_iff.mp h
    rw [Nat.succ_add, steps, h₁]
    exact ih h₂

theorem Ready.line (is rest : List Instr) (hp : is.all Instr.plain = true) (h : Ready text c (is ++ rest))
    (he : Mips.line is c.core = some k) :
    ∃ pc, steps text is.length c = some ⟨pc, pc + 4, k⟩ ∧ Ready text ⟨pc, pc + 4, k⟩ rest := by
  induction is generalizing c with
  | nil =>
    obtain ⟨pc, npc, core⟩ := c
    obtain rfl : npc = pc + 4 := h.next
    cases he
    exact ⟨pc, rfl, h⟩
  | cons i is ih =>
    obtain ⟨⟨hi, hcode⟩, hnext⟩ := h
    simp only [List.all_cons, Bool.and_eq_true] at hp
    obtain ⟨k₁, h₁, h₂⟩ := Option.bind_eq_some_iff.mp he
    obtain ⟨pc, hs, hready⟩ := ih (c := ⟨c.npc, c.npc + 4, k₁⟩) hp.2 ⟨hnext ▸ hcode, rfl⟩ h₂
    refine ⟨pc, ?_, hready⟩
    rw [List.length_cons, steps, step_plain hi hp.1 h₁]
    exact hs

theorem Ready.jump {slot : Instr} {k₁ : Core} (h : Ready text c (i :: slot :: rest)) (he : i.exec c.core = some k₁)
    (hp : slot.plain = true) (hs : slot.exec (i.link c.npc k₁) = some k) :
    steps text 2 c = some ⟨i.target c.core c.npc, i.target c.core c.npc + 4, k⟩ := by
  obtain ⟨⟨hi, hslot, -⟩, hnext⟩ := h
  have hstep : step text c = some ⟨c.npc, i.target c.core c.npc, i.link c.npc k₁⟩ := by simp [step, hi, he]
  have hstep' := step_plain (c := ⟨c.npc, i.target c.core c.npc, i.link c.npc k₁⟩) (hnext ▸ hslot) hp hs
  simp [steps, hstep, hstep']

theorem steps_succ {n : Nat} {d : Cpu} (h : steps text (n + 1) c = some d) :
    ∃ e, steps text n c = some e ∧ step text e = some d := by
  induction n generalizing c with
  | zero =>
    obtain ⟨e, he, hd⟩ := Option.bind_eq_some_iff.mp h
    cases hd
    exact ⟨c, rfl, he⟩
  | succ n ih =>
    obtain ⟨c₁, h₁, h₂⟩ := Option.bind_eq_some_iff.mp h
    obtain ⟨e, he, hd⟩ := ih h₂
    exact ⟨e, by rw [steps, h₁]; exact he, hd⟩

theorem steps_stop {n m : Nat} {c' d : Cpu} (h : steps text n c = some c') (hstop : text c'.pc = none)
    (hd : steps text m c = some d) : m ≤ n := by
  by_contra hlt
  have hnext := steps_add (m := m - n) h
  obtain ⟨j, hj⟩ : ∃ j, m - n = j + 1 := ⟨m - n - 1, by omega⟩
  rw [show n + (m - n) = m by omega, hd, hj, steps] at hnext
  simp [step, hstop] at hnext

/-! ## Processors that a program cannot tell apart -/

/-- The same registers in `R` and the same memory in `D`. A register that one is still fetching may be there in the other. -/
structure Agree (R : Reg → Prop) (D : Word → Prop) (k k' : Core) : Prop where
  get : ∀ r, R r → k'.get r = k.get r
  hi : k'.hi = k.hi
  lo : k'.lo = k.lo
  mem : ∀ a, D a → k'.mem a = k.mem a
  late : k'.late = none ∨ k'.late = k.late

/-- The instruction needs no other registers and no other memory, and no privilege. -/
def Instr.Keeps (R : Reg → Prop) (D : Word → Prop) (k : Core) (i : Instr) : Prop :=
  (∀ r ∈ i.reads, R r) ∧ match i with
    | lw _ off base | sw _ off base => D (k.get base + off)
    | mfc0 _ _ | mtc0 _ _ | rfe | syscall => False
    | _ => True

section Agree

variable {R : Reg → Prop} {D : Word → Prop} {k₁ : Core}

theorem Agree.trans (h : Agree R D k k') (h' : Agree R D k' k₁) : Agree R D k k₁ where
  get r hr := (h'.get r hr).trans (h.get r hr)
  hi := h'.hi.trans h.hi
  lo := h'.lo.trans h.lo
  mem a ha := (h'.mem a ha).trans (h.mem a ha)
  late := h'.late.elim .inl fun hl => hl ▸ h.late

theorem Agree.set (h : Agree R D k k') (r : Reg) (v : Word) : Agree R D (k.set r v) (k'.set r v) := by
  refine ⟨fun r' hr' => ?_, h.hi, h.lo, h.mem, h.late⟩
  have hget := h.get r' hr'
  simp only [Core.get, Core.set, Function.update_apply] at hget ⊢
  split_ifs at hget ⊢ <;> simp_all

theorem Agree.run (h : Agree R D k k') (hi : i.Keeps R D k) (he : i.run k = some k₁) :
    ∃ k₁', i.run k' = some k₁' ∧ Agree R D k₁ k₁' := by
  obtain ⟨hreads, hkeeps⟩ := hi
  have hget {r : Reg} (hr : r ∈ i.reads) : k'.get r = k.get r := h.get r (hreads r hr)
  cases i with
  | lw rt off base =>
    rw [Instr.run] at he ⊢
    rw [hget (r := base) (by simp [Instr.reads]), h.mem _ hkeeps]
    split_ifs at he ⊢
    cases he
    exact ⟨_, rfl, (h.set rt _).get, h.hi, h.lo, h.mem, .inr rfl⟩
  | sw rt off base =>
    rw [Instr.run] at he ⊢
    rw [hget (r := base) (by simp [Instr.reads]), hget (r := rt) (by simp [Instr.reads])]
    split_ifs at he ⊢
    cases he
    refine ⟨_, rfl, h.get, h.hi, h.lo, fun a ha => ?_, h.late⟩
    simp only [Function.update_apply, h.mem a ha]
  | addi rt rs imm =>
    rw [Instr.run] at he ⊢
    rw [hget (r := rs) (by simp [Instr.reads])]
    split_ifs at he ⊢
    cases he
    exact ⟨_, rfl, h.set _ _⟩
  | addiu rt rs imm | andi rt rs imm | ori rt rs imm | move rt rs =>
    cases he
    rw [Instr.run, hget (r := rs) (by simp [Instr.reads])]
    exact ⟨_, rfl, h.set _ _⟩
  | li rt imm =>
    cases he
    exact ⟨_, rfl, h.set _ _⟩
  | mfhi rd =>
    cases he
    rw [Instr.run, h.hi]
    exact ⟨_, rfl, h.set _ _⟩
  | mflo rd =>
    cases he
    rw [Instr.run, h.lo]
    exact ⟨_, rfl, h.set _ _⟩
  | mthi rs =>
    cases he
    exact ⟨_, rfl, { h with hi := hget (by simp [Instr.reads]) }⟩
  | mtlo rs =>
    cases he
    exact ⟨_, rfl, { h with lo := hget (by simp [Instr.reads]) }⟩
  | mfc0 | mtc0 | rfe | syscall => exact hkeeps.elim
  | nop | beq | j | jal | jr =>
    cases he
    exact ⟨_, rfl, h⟩

theorem Agree.exec (h : Agree R D k k') (hi : i.Keeps R D k) (he : i.exec k = some k₁) :
    ∃ k₁', i.exec k' = some k₁' ∧ Agree R D k₁ k₁' := by
  rw [Instr.exec] at he
  split at he
  · cases he
  · rename_i hlate
    push Not at hlate
    have hfree : Agree R D { k with late := none } { k' with late := none } := { h with late := .inl rfl }
    obtain ⟨k₁', hrun, hag⟩ := hfree.run hi he
    refine ⟨k₁', (exec_of_reads fun r hr => ?_).trans hrun, hag⟩
    rcases h.late with hl | hl <;> rw [hl]
    · simp
    · exact hlate r hr

theorem Agree.step {c c' d : Cpu} (hc : c'.pc = c.pc ∧ c'.npc = c.npc ∧ Agree R D c.core c'.core)
    (hi : ∀ i, text c.pc = some i → i.Keeps R D c.core) (hs : step text c = some d) :
    ∃ d', Mips.step text c' = some d' ∧ d'.pc = d.pc ∧ d'.npc = d.npc ∧ Agree R D d.core d'.core := by
  obtain ⟨hpc, hnpc, hag⟩ := hc
  obtain ⟨i, htext, hs⟩ := Option.bind_eq_some_iff.mp hs
  obtain ⟨k₁, he, hs⟩ := Option.bind_eq_some_iff.mp hs
  cases hs
  obtain ⟨k₁', he', hag'⟩ := hag.exec (hi i htext) he
  have hget {r : Reg} (hr : r ∈ i.reads) := hag.get r ((hi i htext).1 r hr)
  have htarget : i.target c'.core c.npc = i.target c.core c.npc := by
    cases i with
    | beq rs rt off =>
      rw [Instr.target, Instr.target, hget (r := rs) (by simp [Instr.reads]), hget (r := rt) (by simp [Instr.reads])]
    | jr rs => exact hget (r := rs) (by simp [Instr.reads])
    | _ => rfl
  have hlink : Agree R D (i.link c.npc k₁) (i.link c.npc k₁') := by
    cases i with
    | jal addr => exact hag'.set _ _
    | _ => exact hag'
  have hstep : Mips.step text c' = some ⟨c.npc, i.target c.core c.npc, i.link c.npc k₁'⟩ := by
    simp [Mips.step, hpc, htext, he', hnpc, htarget]
  exact ⟨_, hstep, rfl, rfl, hlink⟩

end Agree

/-! ## Blocks of stores and loads -/

/-- One value after the other, the last one for a place counts. -/
def updates {α β : Type} [DecidableEq α] (f : α → β) (l : List (α × β)) : α → β :=
  l.foldl (fun f e => Function.update f e.1 e.2) f

theorem updates_of_notMem {α β : Type} [DecidableEq α] {f : α → β} {l : List (α × β)} {a : α}
    (h : ∀ e ∈ l, a ≠ e.1) : updates f l a = f a := by
  induction l generalizing f with
  | nil => rfl
  | cons e l ih =>
    obtain ⟨he, hl⟩ := List.forall_mem_cons.mp h
    rw [updates, List.foldl_cons, ← updates, ih hl, Function.update_of_ne he]

theorem updates_of_mem {α β : Type} [DecidableEq α] {f : α → β} {l : List (α × β)} (hnd : (l.map Prod.fst).Nodup)
    {e : α × β} (he : e ∈ l) : updates f l e.1 = e.2 := by
  induction l generalizing f with
  | nil => cases he
  | cons x l ih =>
    obtain ⟨hx, hnd⟩ := List.nodup_cons.mp hnd
    rw [updates, List.foldl_cons, ← updates]
    rcases List.mem_cons.mp he with rfl | he
    · rw [updates_of_notMem fun y hy heq => hx (List.mem_map.mpr ⟨y, hy, heq.symm⟩), Function.update_self]
    · exact ih hnd he

theorem updates_map {α β γ : Type} [DecidableEq α] [DecidableEq γ] {f : α → γ} (hf : f.Injective) (m : γ → β)
    (l : List (α × β)) (a : α) :
    updates m (l.map fun e => (f e.1, e.2)) (f a) = updates (fun a => m (f a)) l a := by
  induction l generalizing m with
  | nil => rfl
  | cons e l ih =>
    have hcomp : (fun a => Function.update m (f e.1) e.2 (f a)) = Function.update (fun a => m (f a)) e.1 e.2 :=
      Function.update_comp_eq_of_injective m hf e.1 e.2
    simp only [List.map_cons, updates, List.foldl_cons] at ih ⊢
    rw [ih, hcomp]

theorem updates_append {α β : Type} [DecidableEq α] (f : α → β) (l l' : List (α × β)) :
    updates f (l ++ l') = updates (updates f l) l' := List.foldl_append

/-- The words of a structure at `p`, by their offsets. -/
def fields (p : Word) (l : List (Word × Word)) : List (Word × Word) := l.map fun e => (p + e.1, e.2)

theorem updates_fields (m : Word → Word) (p o : Word) (l : List (Word × Word)) :
    updates m (fields p l) (p + o) = updates (fun o => m (p + o)) l o :=
  updates_map (fun _ _ h => by simpa using h) m l o

theorem updates_fields_append (m : Word → Word) (p : Word) (l l' : List (Word × Word)) :
    updates m (fields p (l ++ l')) = updates (updates m (fields p l)) (fields p l') := by
  rw [fields, List.map_append, updates_append]
  rfl

theorem updates_fields_of_notMem {m : Word → Word} {p a : Word} {l : List (Word × Word)}
    (h : ∀ e ∈ l, a ≠ p + e.1) : updates m (fields p l) a = m a :=
  updates_of_notMem fun e he => by
    obtain ⟨x, hx, rfl⟩ := List.mem_map.mp he
    exact h x hx

def stores (b : Reg) (l : List (Reg × Word)) : List Instr := l.map fun e => .sw e.1 e.2 b

def loads (b : Reg) (l : List (Reg × Word)) : List Instr := l.map fun e => .lw e.1 e.2 b

theorem add_zero_word (a : Word) : a + 0 = a := BitVec.add_zero a

theorem exec_addi {r : Reg} {imm : Word} (hr : r ≠ .z0) (hlate : k.late = none)
    (ho : (k.reg r).saddOverflow imm = false) : (Instr.addi r r imm).exec k = some (k.set r (k.reg r + imm)) := by
  have hget : k.get r = k.reg r := if_neg hr
  rw [exec_free hlate, Instr.run, hget, if_neg (by simp [ho])]

theorem sub_overflow {a b : Word} (hb : b.toNat < 2 ^ 31) (h : 2 ^ 31 + b.toNat ≤ a.toNat) :
    a.saddOverflow (-b) = false := by
  have hlt := a.isLt
  have hneg : (-b).toInt = -b.toNat := by
    rw [BitVec.toInt_neg, BitVec.toInt_eq_toNat_of_lt (by omega), Int.bmod_eq_of_le (by omega) (by omega)]
  rw [BitVec.saddOverflow, BitVec.toInt_eq_toNat_cond, hneg]
  simp only [Bool.or_eq_false_iff, decide_eq_false_iff_not]
  split <;> omega

theorem exec_nop : Instr.nop.exec k = some { k with late := none } := rfl

theorem Aligned.add {a b : Word} (ha : Aligned a) (hb : Aligned b) : Aligned (a + b) := by
  unfold Aligned at *
  rw [BitVec.toNat_add]
  omega

theorem exec_sw {r b : Reg} {off a : Word} (haddr : k.get b + off = a) (ha : Aligned a) (hlate : k.late = none) :
    (Instr.sw r off b).exec k = some { k with mem := Function.update k.mem a (k.get r) } := by
  subst haddr
  rw [exec_free hlate]
  exact if_pos ha

theorem exec_lw {r b : Reg} {off a : Word} (haddr : k.get b + off = a) (ha : Aligned a) (hlate : k.late ≠ some b) :
    (Instr.lw r off b).exec k = some { k.set r (k.mem a) with late := some r } := by
  subst haddr
  rw [exec_of_reads (by simpa [Instr.reads] using hlate)]
  exact if_pos ha

theorem line_stores {b : Reg} {l : List (Reg × Word)} (hb : Aligned (k.get b)) (hl : ∀ e ∈ l, Aligned e.2)
    (hlate : k.late = none) : line (stores b l) k =
      some { k with mem := updates k.mem (l.map fun e => (k.get b + e.2, k.get e.1)) } := by
  induction l generalizing k with
  | nil => rfl
  | cons e l ih =>
    obtain ⟨he, hl⟩ := List.forall_mem_cons.mp hl
    rw [stores, List.map_cons, line_cons (exec_sw rfl (hb.add he) hlate)]
    exact ih (k := { k with mem := Function.update k.mem (k.get b + e.2) (k.get e.1) }) hb hl hlate

theorem line_loads {b : Reg} {l : List (Reg × Word)} (hb : Aligned (k.get b)) (hl : ∀ e ∈ l, e.1 ≠ b ∧ Aligned e.2)
    (hlate : k.late ≠ some b) : line (loads b l) k = some { k with
      reg := updates k.reg (l.map fun e => (e.1, k.mem (k.get b + e.2)))
      late := l.foldl (fun _ e => some e.1) k.late } := by
  induction l generalizing k with
  | nil => rfl
  | cons e l ih =>
    obtain ⟨⟨hne, he⟩, hl⟩ := List.forall_mem_cons.mp hl
    have hget : ({ k.set e.1 (k.mem (k.get b + e.2)) with late := some e.1 } : Core).get b = k.get b := by
      simp [Core.get, Core.set, Function.update_of_ne hne.symm]
    rw [loads, List.map_cons, line_cons (exec_lw rfl (hb.add he) hlate)]
    refine (ih (by rw [hget]; exact hb) hl (by simpa using hne)).trans ?_
    rw [hget]
    rfl

end Mips
