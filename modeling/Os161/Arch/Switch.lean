import Os161.Lib.Mips
import Os161.Lib.Lts

/-! # Switching threads

`switch.S`, `threadstart.S` and `pcb.c`, over any run of threads that keep to their own stacks.
-/

namespace Os161.Switch

open Mips

structure Symbols where
  mips_switch : Word
  mips_threadstart : Word
  mi_threadstart : Word
  curkstack : Word
  in_interrupt : Word

def mips_switch : List Instr := [
  .addi .sp .sp (-44),
  .sw .ra 40 .sp, .sw .gp 36 .sp, .sw .s8 32 .sp, .sw .s7 28 .sp, .sw .s6 24 .sp, .sw .s5 20 .sp,
  .sw .s4 16 .sp, .sw .s3 12 .sp, .sw .s2 8 .sp, .sw .s1 4 .sp, .sw .s0 0 .sp,
  .sw .sp 0 .a0,
  .lw .sp 0 .a1, .nop,
  .lw .s0 0 .sp, .lw .s1 4 .sp, .lw .s2 8 .sp, .lw .s3 12 .sp, .lw .s4 16 .sp, .lw .s5 20 .sp,
  .lw .s6 24 .sp, .lw .s7 28 .sp, .lw .s8 32 .sp, .lw .gp 36 .sp, .lw .ra 40 .sp, .nop,
  .jr .ra, .addi .sp .sp 44]

def mips_threadstart (sym : Symbols) : List Instr := [
  .addiu .sp .sp (-16),
  .move .ra .z0,
  .move .a0 .s0,
  .move .a1 .s1,
  .j sym.mi_threadstart, .move .a2 .s2]

def switchframe : List (Reg × Word) := [(.s0, 0), (.s1, 4), (.s2, 8), (.s3, 12), (.s4, 16), (.s5, 20), (.s6, 24),
  (.s7, 28), (.s8, 32), (.gp, 36), (.ra, 40)]

abbrev STACK_SIZE : Word := 4096

/-- `md_initpcb`; `pcb_switchstack`, `pcb_kstack`, `pcb_ininterrupt` and `pcb_badfaultfunc` are the first words of the pcb. -/
def md_initpcb (sym : Symbols) (pcb stack data1 data2 func : Word) (mem : Word → Word) : Word → Word :=
  let stacktop := stack + STACK_SIZE
  let sf := stacktop - 44
  let mem := updates mem (fields pcb [(12, 0), (4, stacktop), (0, sf), (8, 0)])
  updates mem (fields sf (switchframe.map (fun e => (e.2, 0)) ++
    [(0, data1), (4, data2), (8, func), (40, sym.mips_threadstart)]))

/-- `md_switch` up to its call of `mips_switch`. -/
def md_switch (sym : Symbols) (old nu : Word) (k : Core) : Core :=
  let mem := updates k.mem (fields old [(4, k.mem sym.curkstack), (8, k.mem sym.in_interrupt)])
  let mem := Function.update mem sym.curkstack (mem (nu + 4))
  let mem := Function.update mem sym.in_interrupt (mem (nu + 8))
  ({ k with mem := mem }.set .a0 old).set .a1 nu

/-! ## The instructions -/

section Instructions

variable {text : Text} {k : Core} {a : Word}

def save : List Instr := [.addi .sp .sp (-44)] ++ stores .sp switchframe.reverse ++ [.sw .sp 0 .a0]

def restore : List Instr := [.lw .sp 0 .a1, .nop] ++ loads .sp switchframe ++ [.nop]

theorem mips_switch_eq : mips_switch = (save ++ restore) ++ [.jr .ra, .addi .sp .sp 44] := rfl

theorem switchframe_aligned : ∀ e ∈ switchframe, e.1 ≠ .sp ∧ Aligned e.2 := by decide

def saved (k : Core) (sf old : Word) : Word → Word :=
  Function.update (updates k.mem (fields sf (switchframe.reverse.map fun e => (e.2, k.reg e.1)))) old sf

theorem line_save (hlate : k.late = none) (hsp : Aligned (k.reg .sp)) (ho : (k.reg .sp).saddOverflow (-44) = false)
    (ha0 : Aligned (k.reg .a0)) : line save k = some { k.set .sp (k.reg .sp + -44) with
      mem := saved k (k.reg .sp + -44) (k.reg .a0) } := by
  have h : line (stores .sp switchframe.reverse) (k.set .sp (k.reg .sp + -44)) = some { k.set .sp (k.reg .sp + -44) with
      mem := updates k.mem (fields (k.reg .sp + -44) (switchframe.reverse.map fun e => (e.2, k.reg e.1))) } :=
    line_stores (hsp.add (by decide)) (fun e he => (switchframe_aligned e (List.mem_reverse.mp he)).2) hlate
  rw [save, List.append_assoc, List.singleton_append, line_cons (exec_addi (by decide) hlate ho), line_append h]
  exact line_cons (exec_sw (b := .a0) (a := k.reg .a0) (add_zero_word _) ha0 hlate)

def loaded (k : Core) (sf : Word) : Reg → Word :=
  updates (Function.update k.reg .sp sf) (switchframe.map fun e => (e.1, k.mem (sf + e.2)))

theorem line_restore {sf : Word} (hlate : k.late = none) (ha1 : Aligned (k.reg .a1)) (hmem : k.mem (k.reg .a1) = sf)
    (hsf : Aligned sf) : line restore k = some { k with reg := loaded k sf } := by
  have h := line_loads (k := k.set .sp sf) (b := .sp) (l := switchframe) hsf switchframe_aligned (by simp [hlate, Core.set])
  have hlw := exec_lw (r := .sp) (b := .a1) (a := k.reg .a1) (add_zero_word _) ha1 (by simp [hlate])
  rw [hmem] at hlw
  rw [restore, List.append_assoc, List.cons_append, List.cons_append, List.nil_append, line_cons hlw, line_cons exec_nop]
  rw [← hlate]
  refine (line_append h).trans ((line_cons exec_nop).trans ?_)
  rw [← hlate]
  rfl

theorem loaded_of_mem {sf : Word} {e : Reg × Word} (he : e ∈ switchframe) : loaded k sf e.1 = k.mem (sf + e.2) := by
  have hnd : ((switchframe.map fun e => (e.1, k.mem (sf + e.2))).map Prod.fst).Nodup := by
    show (switchframe.map Prod.fst).Nodup
    decide
  exact updates_of_mem hnd (List.mem_map_of_mem (f := fun e => (e.1, k.mem (sf + e.2))) he)

theorem mips_switch_run (hat : At text a mips_switch) (hlate : k.late = none) (hsp : Aligned (k.reg .sp))
    (ho : (k.reg .sp).saddOverflow (-44) = false) (ha0 : Aligned (k.reg .a0)) (ha1 : Aligned (k.reg .a1))
    {sf : Word} (hmem : saved k (k.reg .sp + -44) (k.reg .a0) (k.reg .a1) = sf) (hsf : Aligned sf)
    (ho' : sf.saddOverflow 44 = false) :
    ∃ k', steps text mips_switch.length ⟨a, a + 4, k⟩ = some ⟨k'.reg .ra, k'.reg .ra + 4, k'⟩ ∧
      k'.mem = saved k (k.reg .sp + -44) (k.reg .a0) ∧ k'.reg .sp = sf + 44 ∧
      (∀ e ∈ switchframe, k'.reg e.1 = k'.mem (sf + e.2)) ∧ k'.late = none := by
  generalize hk₁ : ({ k.set .sp (k.reg .sp + -44) with mem := saved k (k.reg .sp + -44) (k.reg .a0) } : Core) = k₁
  have hsave : line save k = some k₁ := by rw [← hk₁, line_save hlate hsp ho ha0]
  have hmem₁ : k₁.mem = saved k (k.reg .sp + -44) (k.reg .a0) := by rw [← hk₁]
  have hlate₁ : k₁.late = none := by rw [← hk₁]; exact hlate
  have hrest : line restore k₁ = some { k₁ with reg := loaded k₁ sf } :=
    line_restore hlate₁ (by rw [← hk₁]; exact ha1) (by rw [← hmem, ← hk₁]; rfl) hsf
  obtain ⟨pc, hline, hready⟩ := Ready.line (c := ⟨a, a + 4, k⟩) (save ++ restore) [.jr .ra, .addi .sp .sp 44] rfl
    ⟨mips_switch_eq ▸ hat, rfl⟩ ((line_append hsave).trans hrest)
  have hj : (Instr.jr .ra).exec { k₁ with reg := loaded k₁ sf } = some { k₁ with reg := loaded k₁ sf } := exec_free hlate₁
  have hslot := exec_addi (r := .sp) (k := { k₁ with reg := loaded k₁ sf }) (by decide) hlate₁ ho'
  refine ⟨Core.set { k₁ with reg := loaded k₁ sf } .sp (sf + 44), ?_, hmem₁, rfl, fun e he => ?_, hlate₁⟩
  · rw [mips_switch_eq, List.length_append, steps_add hline]
    exact hready.jump hj rfl hslot
  · exact (Function.update_of_ne (switchframe_aligned e he).1 _ _).trans (loaded_of_mem (k := k₁) he)

end Instructions

/-! ## Threads -/

def InStack (stack a : Word) : Prop := stack.toNat ≤ a.toNat ∧ a.toNat < stack.toNat + STACK_SIZE.toNat

/-- What belongs to a thread alone. -/
def Own (pcb stack a : Word) : Prop := InStack stack a ∨ a ∈ [pcb, pcb + 4, pcb + 8, pcb + 12]

/-- Where the linker and the heap have put everything; the stacks are in `kseg0`. -/
structure Layout (ι : Type) extends Symbols where
  pcb : ι → Word
  stack : ι → Word
  pcb_aligned : ∀ u, Aligned (pcb u)
  stack_aligned : ∀ u, Aligned (stack u)
  stack_kernel : ∀ u, 2 ^ 31 ≤ (stack u).toNat ∧ (stack u).toNat + 4096 < 2 ^ 32
  pcb_outside : ∀ u, ∀ d ∈ [0, 4, 8, 12], ¬ InStack (stack u) (pcb u + d)
  apart : ∀ u v a, u ≠ v → Own (pcb u) (stack u) a → ¬ Own (pcb v) (stack v) a
  globals : curkstack ≠ in_interrupt ∧ ∀ u, ¬ Own (pcb u) (stack u) curkstack ∧ ¬ Own (pcb u) (stack u) in_interrupt

/-- What a thread is to find again. -/
structure Context where
  regs : List Word
  sp : Word
  kstack : Word
  ininterrupt : Word
  deriving DecidableEq

structure Kernel (ι : Type) where
  current : ι
  threads : List ι
  cpu : Cpu

inductive Choice (ι : Type) where
  | compute (c : Cpu)
  | create (u : ι) (data1 data2 func : Word)
  | switch (u : ι)

inductive Event (ι : Type) where
  | made (u : ι) (data1 data2 func : Word)
  | left (t : ι) (ctx : Context)
  | back (u : ι) (pc : Word) (ctx : Context)

section Threads

variable {ι : Type} (L : Layout ι)

def context (k : Core) : Context :=
  ⟨switchframe.map fun e => k.reg e.1, k.reg .sp, k.mem L.curkstack, k.mem L.in_interrupt⟩

def newContext (u : ι) (data1 data2 func : Word) : Context :=
  ⟨[data1, data2, func, 0, 0, 0, 0, 0, 0, 0, L.mips_threadstart], L.stack u + STACK_SIZE, L.stack u + STACK_SIZE, 0⟩

/-- The running thread computes something, makes a thread, or calls `md_switch`. -/
def step [DecidableEq ι] (text : Text) (w : Kernel ι) : Choice ι → Except Unit (Kernel ι × List (Event ι))
  | .compute c => .ok ({ w with cpu := c }, [])
  | .create u data1 data2 func =>
    let mem := md_initpcb L.toSymbols (L.pcb u) (L.stack u) data1 data2 func w.cpu.core.mem
    .ok ({ w with threads := u :: w.threads, cpu := { w.cpu with core := { w.cpu.core with mem := mem } } },
      [.made u data1 data2 func])
  | .switch u =>
    if u = w.current then .ok (w, [])
    else
      let entry := md_switch L.toSymbols (L.pcb w.current) (L.pcb u) w.cpu.core
      match steps text mips_switch.length ⟨L.mips_switch, L.mips_switch + 4, entry⟩ with
      | some c => .ok ({ w with current := u, cpu := c },
          [.back u c.pc (context L c.core), .left w.current (context L w.cpu.core)])
      | none => .error ()

/-- Nobody writes to what belongs to another thread, and the stack pointer is in the own stack. -/
def Ok (w : Kernel ι) : Choice ι → Prop
  | .compute c => ∀ u ≠ w.current, ∀ a, Own (L.pcb u) (L.stack u) a → c.core.mem a = w.cpu.core.mem a
  | .create u _ _ _ => u ≠ w.current
  | .switch u => u ∈ w.threads ∧ w.cpu.core.late = none ∧ Aligned (w.cpu.core.reg .sp) ∧
      (L.stack w.current).toNat + 44 ≤ (w.cpu.core.reg .sp).toNat ∧
      (w.cpu.core.reg .sp).toNat ≤ (L.stack w.current).toNat + 4096

/-- One thread runs, and nobody else is there. -/
def kernel [DecidableEq ι] (text : Text) : Machine (Kernel ι) (Choice ι) (Event ι) Unit where
  init w := w.threads = [w.current]
  step := step L text

/-- What the thread was made with, or what it left with. -/
def last [DecidableEq ι] (u : ι) : List (Event ι) → Option Context
  | [] => none
  | .made v data1 data2 func :: tr => if v = u then some (newContext L u data1 data2 func) else last u tr
  | .left v ctx :: tr => if v = u then some ctx else last u tr
  | .back _ _ _ :: tr => last u tr

/-- Every thread that comes back finds what it left with, and goes on behind its call. -/
def Faithful [DecidableEq ι] : List (Event ι) → Prop
  | [] => True
  | .back u pc ctx :: tr => (last L u tr = some ctx ∧ ctx.regs.getLast? = some pc) ∧ Faithful tr
  | _ :: tr => Faithful tr

/-! ## The memory of a thread that does not run -/

structure Saved (mem : Word → Word) (u : ι) (ctx : Context) : Prop where
  aligned : Aligned ctx.sp
  low : (L.stack u).toNat + 44 ≤ ctx.sp.toNat
  high : ctx.sp.toNat ≤ (L.stack u).toNat + 4096
  switchstack : mem (L.pcb u) = ctx.sp + -44
  regs : switchframe.map (fun e => mem (ctx.sp + -44 + e.2)) = ctx.regs
  kstack : mem (L.pcb u + 4) = ctx.kstack
  ininterrupt : mem (L.pcb u + 8) = ctx.ininterrupt

structure Inv [DecidableEq ι] (w : Kernel ι) (tr : List (Event ι)) : Prop where
  known : ∀ u ∈ w.threads, u ≠ w.current → ∃ ctx, last L u tr = some ctx
  saved : ∀ u ctx, u ≠ w.current → last L u tr = some ctx → Saved L w.cpu.core.mem u ctx
  faithful : Faithful L tr

variable {L} {text : Text} {w w' : Kernel ι} {tr : List (Event ι)} {t u : ι} {ctx : Context} {mem mem' : Word → Word}

theorem own_pcb (pcb stack : Word) {d : Word} (hd : d ∈ [0, 4, 8, 12]) : Own pcb stack (pcb + d) := by
  refine .inr ?_
  simp only [List.mem_cons, List.not_mem_nil, or_false] at hd
  rcases hd with rfl | rfl | rfl | rfl <;> simp

theorem frame_inStack {stack sp : Word} (hlow : stack.toNat + 44 ≤ sp.toNat) (hhigh : sp.toNat ≤ stack.toNat + 4096)
    {e : Reg × Word} (he : e ∈ switchframe) : InStack stack (sp + -44 + e.2) := by
  have hoff : e.2.toNat ≤ 40 := by
    revert he
    revert e
    decide
  have hneg : (-44 : Word).toNat = 2 ^ 32 - 44 := by decide
  have hsp := sp.isLt
  unfold InStack
  rw [BitVec.toNat_add, BitVec.toNat_add, hneg]
  have hsize : STACK_SIZE.toNat = 4096 := by decide
  omega

theorem own_switchstack (pcb stack : Word) : Own pcb stack pcb := .inr (by simp)

theorem Saved.congr (h : Saved L mem u ctx) (hmem : ∀ a, Own (L.pcb u) (L.stack u) a → mem' a = mem a) :
    Saved L mem' u ctx := by
  refine ⟨h.aligned, h.low, h.high, ?_, ?_, ?_, ?_⟩
  · rw [← h.switchstack, hmem _ (own_switchstack _ _)]
  · rw [← h.regs]
    exact List.map_congr_left fun e he => hmem _ (.inl (frame_inStack h.low h.high he))
  · rw [← h.kstack, hmem _ (own_pcb _ _ (d := 4) (by decide))]
  · rw [← h.ininterrupt, hmem _ (own_pcb _ _ (d := 8) (by decide))]

theorem frame_other {stack sp a : Word} {l : List (Word × Word)} (hl : ∀ e ∈ l, ∃ e' ∈ switchframe, e'.2 = e.1)
    (hlow : stack.toNat + 44 ≤ sp.toNat) (hhigh : sp.toNat ≤ stack.toNat + 4096) (ha : ¬ InStack stack a) :
    updates mem (fields (sp + -44) l) a = mem a := by
  refine updates_fields_of_notMem fun e he heq => ha ?_
  obtain ⟨e', he', hoff⟩ := hl e he
  rw [heq, ← hoff]
  exact frame_inStack hlow hhigh he'

theorem pcb_other {pcb stack a : Word} {l : List (Word × Word)} (hl : ∀ e ∈ l, e.1 ∈ [0, 4, 8, 12])
    (ha : ¬ Own pcb stack a) : updates mem (fields pcb l) a = mem a := by
  refine updates_fields_of_notMem fun e he heq => ha ?_
  rw [heq]
  exact own_pcb _ _ (hl e he)

theorem stacktop_toNat (L : Layout ι) (u : ι) : (L.stack u + STACK_SIZE).toNat = (L.stack u).toNat + 4096 := by
  have hk := L.stack_kernel u
  have hsize : STACK_SIZE.toNat = 4096 := by decide
  rw [BitVec.toNat_add, hsize]
  omega

theorem md_initpcb_saved (L : Layout ι) (u : ι) (mem : Word → Word) (data1 data2 func : Word) : Saved L
    (md_initpcb L.toSymbols (L.pcb u) (L.stack u) data1 data2 func mem) u (newContext L u data1 data2 func) := by
  have htop := stacktop_toNat L u
  have hsub : L.stack u + STACK_SIZE - 44 = L.stack u + STACK_SIZE + -44 := BitVec.sub_eq_add_neg _ _
  have hlow : (L.stack u).toNat + 44 ≤ (L.stack u + STACK_SIZE).toNat := by omega
  have hhigh : (L.stack u + STACK_SIZE).toNat ≤ (L.stack u).toNat + 4096 := by omega
  have hpcb {d : Word} (hd : d ∈ [0, 4, 8, 12]) : md_initpcb L.toSymbols (L.pcb u) (L.stack u) data1 data2 func mem
      (L.pcb u + d) = updates (fun o => mem (L.pcb u + o)) [(12, 0), (4, L.stack u + STACK_SIZE),
        (0, L.stack u + STACK_SIZE + -44), (8, 0)] d := by
    rw [md_initpcb, hsub]
    exact (frame_other (by simp [switchframe]) hlow hhigh (L.pcb_outside u d hd)).trans (updates_fields _ _ _ _)
  refine ⟨(L.stack_aligned u).add (by decide), hlow, hhigh, ?_, ?_, ?_, ?_⟩
  · have h := hpcb (d := 0) (by decide)
    rw [add_zero_word] at h
    exact h.trans rfl
  · show switchframe.map (fun e => md_initpcb _ _ _ _ _ _ _ (L.stack u + STACK_SIZE + -44 + e.2)) = _
    simp only [md_initpcb, hsub, updates_fields]
    rfl
  · exact (hpcb (d := 4) (by decide)).trans rfl
  · exact (hpcb (d := 8) (by decide)).trans rfl

theorem md_initpcb_other (mem : Word → Word) (data1 data2 func : Word) {a : Word} (ha : ¬ Own (L.pcb u) (L.stack u) a) :
    md_initpcb L.toSymbols (L.pcb u) (L.stack u) data1 data2 func mem a = mem a := by
  have htop := stacktop_toNat L u
  have hsub : L.stack u + STACK_SIZE - 44 = L.stack u + STACK_SIZE + -44 := BitVec.sub_eq_add_neg _ _
  rw [md_initpcb, hsub]
  exact (frame_other (by simp [switchframe]) (by omega) (by omega) fun h => ha (.inl h)).trans (pcb_other (by simp) ha)

def switched (L : Layout ι) (t u : ι) (k : Core) : Word → Word :=
  saved (md_switch L.toSymbols (L.pcb t) (L.pcb u) k) (k.reg .sp + -44) (L.pcb t)

section Switched

variable {k : Core} (hlow : (L.stack t).toNat + 44 ≤ (k.reg .sp).toNat)
  (hhigh : (k.reg .sp).toNat ≤ (L.stack t).toNat + 4096)

include hlow hhigh

theorem switched_eq {a : Word} (ha : ¬ InStack (L.stack t) a) (hne : a ≠ L.pcb t) :
    switched L t u k a = (md_switch L.toSymbols (L.pcb t) (L.pcb u) k).mem a :=
  (Function.update_of_ne hne _ _).trans (frame_other (by simp [switchframe]) hlow hhigh ha)

theorem switched_other {a : Word} (ha : ¬ Own (L.pcb t) (L.stack t) a) (h₁ : a ≠ L.curkstack)
    (h₂ : a ≠ L.in_interrupt) : switched L t u k a = k.mem a := by
  rw [switched_eq hlow hhigh (fun h => ha (.inl h)) fun h => ha (h ▸ own_switchstack _ _)]
  exact (Function.update_of_ne h₂ _ _).trans ((Function.update_of_ne h₁ _ _).trans (pcb_other (by simp) ha))

theorem switched_globals (htu : u ≠ t) : switched L t u k L.curkstack = k.mem (L.pcb u + 4) ∧
    switched L t u k L.in_interrupt = k.mem (L.pcb u + 8) := by
  have hown {d : Word} (hd : d ∈ [0, 4, 8, 12]) : Own (L.pcb u) (L.stack u) (L.pcb u + d) := own_pcb _ _ hd
  obtain ⟨hne, hglob⟩ := L.globals
  constructor
  · rw [switched_eq hlow hhigh (fun h => (hglob t).1 (.inl h)) fun h => (hglob t).1 (h ▸ own_switchstack _ _)]
    refine (Function.update_of_ne hne _ _).trans ((Function.update_self _ _ _).trans ?_)
    exact pcb_other (by simp) (L.apart u t _ htu (hown (by decide)))
  · rw [switched_eq hlow hhigh (fun h => (hglob t).2 (.inl h)) fun h => (hglob t).2 (h ▸ own_switchstack _ _)]
    refine (Function.update_self _ _ _).trans ((Function.update_of_ne ?_ _ _).trans ?_)
    · exact fun h => (hglob u).1 (h ▸ hown (by decide))
    · exact pcb_other (by simp) (L.apart u t _ htu (hown (by decide)))

theorem switched_pcb {d : Word} (hd : d = 4 ∨ d = 8) : switched L t u k (L.pcb t + d) =
    updates (fun o => k.mem (L.pcb t + o)) [(4, k.mem L.curkstack), (8, k.mem L.in_interrupt)] d := by
  have hd' : d ∈ [0, 4, 8, 12] ∧ L.pcb t + d ≠ L.pcb t := by rcases hd with rfl | rfl <;> simp
  have hown : Own (L.pcb t) (L.stack t) (L.pcb t + d) := own_pcb _ _ hd'.1
  rw [switched_eq hlow hhigh (L.pcb_outside t d hd'.1) hd'.2]
  refine (Function.update_of_ne ?_ _ _).trans ((Function.update_of_ne ?_ _ _).trans (updates_fields _ _ _ _))
  · exact fun h => (L.globals.2 t).2 (h ▸ hown)
  · exact fun h => (L.globals.2 t).1 (h ▸ hown)

theorem switched_saved (hal : Aligned (k.reg .sp)) : Saved L (switched L t u k) t (context L k) := by
  refine ⟨hal, hlow, hhigh, Function.update_self _ _ _, ?_, ?_, ?_⟩
  · simp only [context]
    refine List.map_congr_left fun e he => ?_
    have hne : k.reg .sp + -44 + e.2 ≠ L.pcb t := by
      intro h
      refine L.pcb_outside t 0 (by decide) ?_
      rw [add_zero_word, ← h]
      exact frame_inStack hlow hhigh he
    have hnd : ((switchframe.reverse.map fun e => (e.2, k.reg e.1)).map Prod.fst).Nodup := by
      show (switchframe.reverse.map Prod.snd).Nodup
      decide
    have hmem := List.mem_map_of_mem (f := fun e => (e.2, k.reg e.1)) (List.mem_reverse.mpr he)
    exact (Function.update_of_ne hne _ _).trans ((updates_fields _ _ _ _).trans (updates_of_mem hnd hmem))
  · exact (switched_pcb hlow hhigh (.inl rfl)).trans rfl
  · exact (switched_pcb hlow hhigh (.inr rfl)).trans rfl

end Switched

theorem add_overflow {sp : Word} (h : 2 ^ 31 + 44 ≤ sp.toNat) : (sp + -44).saddOverflow 44 = false := by
  have hlt := sp.isLt
  have hneg : (-44 : Word).toNat = 2 ^ 32 - 44 := by decide
  have hpos : (44 : Word).toInt = 44 := by decide
  rw [BitVec.saddOverflow, BitVec.toInt_eq_toNat_cond, BitVec.toNat_add, hneg, hpos]
  simp only [Bool.or_eq_false_iff, decide_eq_false_iff_not]
  split <;> omega

theorem switch_run (hat : At text L.mips_switch mips_switch) (hsaved : Saved L w.cpu.core.mem u ctx)
    (hok : Ok L w (.switch u)) (hne : u ≠ w.current) :
    ∃ c, steps text mips_switch.length ⟨L.mips_switch, L.mips_switch + 4,
        md_switch L.toSymbols (L.pcb w.current) (L.pcb u) w.cpu.core⟩ = some c ∧
      c.core.mem = switched L w.current u w.cpu.core ∧ context L c.core = ctx ∧ ctx.regs.getLast? = some c.pc ∧
      c.npc = c.pc + 4 ∧ c.core.late = none := by
  obtain ⟨-, hlate, hal, hlow, hhigh⟩ := hok
  have hk := L.stack_kernel
  have hother {a : Word} (ha : Own (L.pcb u) (L.stack u) a) : switched L w.current u w.cpu.core a = w.cpu.core.mem a := by
    refine switched_other hlow hhigh (L.apart u _ a hne ha) ?_ ?_
    · exact fun h => (L.globals.2 u).1 (h ▸ ha)
    · exact fun h => (L.globals.2 u).2 (h ▸ ha)
  have hsf : switched L w.current u w.cpu.core (L.pcb u) = ctx.sp + -44 :=
    (hother (own_switchstack _ _)).trans hsaved.switchstack
  have hlow' := hsaved.low
  obtain ⟨k', hrun, hmem, hsp, hregs, hlate'⟩ := mips_switch_run
    (k := md_switch L.toSymbols (L.pcb w.current) (L.pcb u) w.cpu.core) hat hlate hal
    (sub_overflow (by decide) (Nat.le_trans (Nat.add_le_add_right (hk w.current).1 44) hlow)) (L.pcb_aligned _) (L.pcb_aligned _) hsf
    (hsaved.aligned.add (by decide)) (add_overflow (Nat.le_trans (Nat.add_le_add_right (hk u).1 44) hlow'))
  have hmem' : k'.mem = switched L w.current u w.cpu.core := hmem
  obtain ⟨hcur, hint⟩ := switched_globals hlow hhigh hne
  have hctx : context L k' = ctx := by
    have hr : switchframe.map (fun e => k'.reg e.1) = ctx.regs := by
      rw [← hsaved.regs]
      refine List.map_congr_left fun e he => ?_
      rw [hregs e he, hmem']
      exact hother (.inl (frame_inStack hsaved.low hsaved.high he))
    have hs : k'.reg .sp = ctx.sp := by
      rw [hsp, BitVec.add_assoc]
      exact add_zero_word _
    simp only [context, hr, hs, hmem', hcur, hint, hsaved.kstack, hsaved.ininterrupt]
  exact ⟨_, hrun, hmem, hctx, by rw [← hctx]; rfl, rfl, hlate'⟩

variable [DecidableEq ι]

theorem Inv.create (h : Inv L w tr) (data1 data2 func : Word) :
    Inv L { w with
      threads := u :: w.threads
      cpu := { w.cpu with core := { w.cpu.core with
        mem := md_initpcb L.toSymbols (L.pcb u) (L.stack u) data1 data2 func w.cpu.core.mem } } }
      (.made u data1 data2 func :: tr) := by
  have hnew := md_initpcb_saved L u w.cpu.core.mem data1 data2 func
  have hother (a : Word) (ha : ¬ Own (L.pcb u) (L.stack u) a) := md_initpcb_other w.cpu.core.mem data1 data2 func ha
  generalize md_initpcb L.toSymbols (L.pcb u) (L.stack u) data1 data2 func w.cpu.core.mem = mem at hnew hother ⊢
  refine ⟨fun v hv hne => ?_, fun v ctx hne hlast => ?_, h.faithful⟩
  · rw [last]
    split
    · exact ⟨_, rfl⟩
    · rename_i huv
      exact h.known v ((List.mem_cons.mp hv).resolve_left (Ne.symm huv)) hne
  · rw [last] at hlast
    split at hlast
    · rename_i huv
      cases hlast
      subst huv
      exact hnew
    · rename_i huv
      exact (h.saved v ctx hne hlast).congr fun a ha => hother a (L.apart v u a (Ne.symm huv) ha)

theorem Inv.switch (hat : At text L.mips_switch mips_switch) (h : Inv L w tr) (hok : Ok L w (.switch u))
    (hne : u ≠ w.current) : ∃ c, step L text w (.switch u) = .ok ({ w with current := u, cpu := c },
        [.back u c.pc (context L c.core), .left w.current (context L w.cpu.core)]) ∧
      (context L c.core).regs.getLast? = some c.pc ∧ c.npc = c.pc + 4 ∧ c.core.late = none ∧
      last L u tr = some (context L c.core) ∧
      Inv L { w with current := u, cpu := c }
        (.back u c.pc (context L c.core) :: .left w.current (context L w.cpu.core) :: tr) := by
  obtain ⟨ctx, hlast⟩ := h.known u hok.1 hne
  obtain ⟨c, hrun, hmem, hctx, hpc, hnext, hlate⟩ := switch_run hat (h.saved u ctx hne hlast) hok hne
  obtain ⟨-, -, hal, hlow, hhigh⟩ := hok
  refine ⟨c, ?_, by rw [hctx, hpc], hnext, hlate, by rw [hlast, hctx], fun v hv hvu => ?_, fun v ctx' hvu hl => ?_, ⟨⟨?_, ?_⟩, h.faithful⟩⟩
  · rw [step, if_neg hne]
    dsimp only
    rw [hrun]
  · simp only [last]
    split
    · exact ⟨_, rfl⟩
    · rename_i hvt
      exact h.known v hv (Ne.symm hvt)
  · simp only [last] at hl
    split at hl
    · rename_i hvt
      cases hl
      subst hvt
      rw [hmem]
      exact switched_saved hlow hhigh hal
    · rename_i hvt
      rw [hmem]
      refine (h.saved v ctx' (Ne.symm hvt) hl).congr fun a ha => ?_
      refine switched_other hlow hhigh (L.apart v _ a (Ne.symm hvt) ha) ?_ ?_
      · exact fun heq => (L.globals.2 v).1 (heq ▸ ha)
      · exact fun heq => (L.globals.2 v).2 (heq ▸ ha)
  · rw [last, if_neg (Ne.symm hne), hlast, hctx]
  · rw [hctx, hpc]

theorem Inv.step (hat : At text L.mips_switch mips_switch) {a : Choice ι} {es : List (Event ι)} (h : Inv L w tr)
    (hok : Ok L w a) (hs : step L text w a = .ok (w', es)) : Inv L w' (es ++ tr) := by
  cases a with
  | compute c =>
    cases hs
    exact ⟨h.known, fun u ctx hne hlast => (h.saved u ctx hne hlast).congr fun a ha => hok u hne a ha, h.faithful⟩
  | create u data1 data2 func =>
    cases hs
    exact h.create _ _ _
  | switch u =>
    by_cases hne : u = w.current
    · rw [Switch.step, if_pos hne] at hs
      cases hs
      exact h
    · obtain ⟨c, hc, -, -, -, -, hinv⟩ := h.switch hat hok hne
      rw [hc] at hs
      cases hs
      exact hinv

theorem inv_of_reach (hat : At text L.mips_switch mips_switch) (h : (kernel L text).Reach (Ok L) w tr) : Inv L w tr := by
  refine h.invariant (I := Inv L) ?_ fun s t a tr es _ hinv hok hs => hinv.step hat hok hs
  intro w hw
  refine ⟨fun u hu hne => ?_, fun u ctx _ hlast => (by cases hlast), trivial⟩
  rw [show w.threads = _ from hw, List.mem_singleton] at hu
  exact absurd hu hne

/-- A thread that comes back finds what it left, whatever the other threads do on their own stacks, and no switch
traps. -/
theorem contexts_kept (hat : At text L.mips_switch mips_switch) (h : (kernel L text).Reach (Ok L) w tr) :
    Faithful L tr ∧ ∀ u, Ok L w (.switch u) → ∃ x, step L text w (.switch u) = .ok x := by
  have hinv := inv_of_reach hat h
  refine ⟨hinv.faithful, fun u hok => ?_⟩
  by_cases hne : u = w.current
  · exact ⟨_, if_pos hne⟩
  · obtain ⟨c, hc, -⟩ := hinv.switch hat hok hne
    exact ⟨_, hc⟩

def demoPcb : Bool → Word
  | false => 0x80020000
  | true => 0x80020100

def demoStack : Bool → Word
  | false => 0x80030000
  | true => 0x80031000

theorem demo_own {u : Bool} {a : Word} (h : Own (demoPcb u) (demoStack u) a) :
    (demoPcb u).toNat ≤ a.toNat ∧ a.toNat ≤ (demoPcb u).toNat + 12 ∨
    (demoStack u).toNat ≤ a.toNat ∧ a.toNat < (demoStack u).toNat + 4096 := by
  rcases h with h | h
  · exact .inr h
  · simp only [List.mem_cons, List.not_mem_nil, or_false] at h
    rcases h with rfl | rfl | rfl | rfl <;> cases u <;> decide

theorem demo_apart {u v : Bool} {a : Word} (huv : u ≠ v) (hu : Own (demoPcb u) (demoStack u) a) :
    ¬ Own (demoPcb v) (demoStack v) a := by
  intro hv
  have h₁ := demo_own hu
  have h₂ := demo_own hv
  revert h₁ h₂
  cases u <;> cases v <;> simp [demoPcb, demoStack] at huv ⊢ <;> omega

theorem demo_globals : (0x80003000 : Word) ≠ 0x80003004 ∧
    ∀ u, ¬ Own (demoPcb u) (demoStack u) 0x80003000 ∧ ¬ Own (demoPcb u) (demoStack u) 0x80003004 := by
  refine ⟨by decide, fun u => ⟨fun h => ?_, fun h => ?_⟩⟩
  all_goals
    have hrange := demo_own h
    revert hrange
    cases u <;> decide

theorem demo_placed : (∀ u, Aligned (demoPcb u)) ∧ (∀ u, Aligned (demoStack u)) ∧
    (∀ u, 2 ^ 31 ≤ (demoStack u).toNat ∧ (demoStack u).toNat + 4096 < 2 ^ 32) ∧
    ∀ u, ∀ d ∈ [0, 4, 8, 12], ¬ InStack (demoStack u) (demoPcb u + d) := by
  refine ⟨by decide, by decide, by decide, fun u d hd h => ?_⟩
  have hd' : d.toNat ≤ 12 := by
    simp only [List.mem_cons, List.not_mem_nil, or_false] at hd
    rcases hd with rfl | rfl | rfl | rfl <;> decide
  unfold InStack at h
  cases u <;> simp only [demoPcb, demoStack] at h <;> bv_omega

def demoLayout : Layout Bool where
  mips_switch := 0x80001000
  mips_threadstart := 0x80001100
  mi_threadstart := 0x80002000
  curkstack := 0x80003000
  in_interrupt := 0x80003004
  pcb := demoPcb
  stack := demoStack
  pcb_aligned := demo_placed.1
  stack_aligned := demo_placed.2.1
  stack_kernel := demo_placed.2.2.1
  pcb_outside := demo_placed.2.2.2
  apart _ _ _ := demo_apart
  globals := demo_globals

def demoText : Text := place [(0x80001000, mips_switch), (0x80001100, mips_threadstart demoLayout.toSymbols)]

def demoKernel : Kernel Bool := ⟨false, [false], ⟨0, 4, ⟨fun _ => 0x80030800, 0, 0, fun _ => 0, fun _ => 0, none⟩⟩⟩

theorem demo_at : At demoText demoLayout.mips_switch mips_switch ∧
    At demoText demoLayout.mips_threadstart (mips_threadstart demoLayout.toSymbols) := by decide +kernel

theorem demo_create : ∃ w, (kernel demoLayout demoText).Reach (Ok demoLayout) w [.made true 1 2 3] ∧
    Ok demoLayout w (.switch true) ∧ w.current = false := by
  have hinit : (kernel demoLayout demoText).Reach (Ok demoLayout) demoKernel [] := .init rfl
  have hreach := hinit.step (a := .create true 1 2 3) Bool.noConfusion rfl
  exact ⟨_, hreach, ⟨.head _, rfl, by decide, by decide, by decide⟩, rfl⟩

theorem contexts_kept_demo : ∃ w w' es, step demoLayout demoText w (.switch true) = .ok (w', es) ∧
    (kernel demoLayout demoText).Reach (Ok demoLayout) w' (es ++ [.made true 1 2 3]) ∧
    Faithful demoLayout (es ++ [.made true 1 2 3]) := by
  obtain ⟨w, hw, hok, -⟩ := demo_create
  obtain ⟨⟨w', es⟩, hs⟩ := (contexts_kept demo_at.1 hw).2 true hok
  exact ⟨w, w', es, hs, hw.step hok hs, (contexts_kept demo_at.1 (hw.step hok hs)).1⟩

/-- The first switch to a new thread comes to `mi_threadstart`, with its arguments and at the top of its stack. -/
theorem new_thread_starts (hat : At text L.mips_switch mips_switch)
    (hstart : At text L.mips_threadstart (mips_threadstart L.toSymbols)) (h : (kernel L text).Reach (Ok L) w tr)
    (hok : Ok L w (.switch u)) (hne : u ≠ w.current) {data1 data2 func : Word}
    (hnew : last L u tr = some (newContext L u data1 data2 func)) :
    ∃ w' es k, step L text w (.switch u) = .ok (w', es) ∧
      steps text 6 w'.cpu = some ⟨L.mi_threadstart, L.mi_threadstart + 4, k⟩ ∧
      k.reg .a0 = data1 ∧ k.reg .a1 = data2 ∧ k.reg .a2 = func ∧ k.reg .ra = 0 ∧
      k.reg .sp = L.stack u + STACK_SIZE + -16 ∧ k.mem = w'.cpu.core.mem := by
  obtain ⟨⟨pc, npc, k⟩, hc, hpc, hnext, hlate, hlast, -⟩ := (inv_of_reach hat h).switch hat hok hne
  have hctx : context L k = newContext L u data1 data2 func := Option.some.inj (hlast.symm.trans hnew)
  have hregs : switchframe.map (fun e => k.reg e.1) = [data1, data2, func, 0, 0, 0, 0, 0, 0, 0, L.mips_threadstart] :=
    congrArg Context.regs hctx
  have hsp : k.reg .sp = L.stack u + STACK_SIZE := congrArg Context.sp hctx
  simp only [switchframe, List.map_cons, List.map_nil, List.cons.injEq] at hregs
  obtain ⟨h0, h1, h2, -⟩ := hregs
  have hpc' : L.mips_threadstart = pc := by
    rw [show (context L k).regs = _ from congrArg Context.regs hctx] at hpc
    exact Option.some.inj hpc
  -- four moves, and a jump with the last one in its delay slot
  have hline : line [.addiu .sp .sp (-16), .move .ra .z0, .move .a0 .s0, .move .a1 .s1] k =
      some ((((k.set .sp (k.reg .sp + -16)).set .ra 0).set .a0 (k.reg .s0)).set .a1 (k.reg .s1)) := by
    refine (line_cons (exec_free hlate)).trans ((line_cons (exec_free ?_)).trans ((line_cons (exec_free ?_)).trans
      (line_cons (exec_free ?_))))
    all_goals exact hlate
  obtain ⟨pc', hsteps, hready⟩ := Ready.line (c := ⟨pc, npc, k⟩) _ [.j L.mi_threadstart, .move .a2 .s2] rfl
    ⟨hpc' ▸ hstart, hnext⟩ hline
  have hjump := hready.jump (exec_free (by exact hlate)) rfl (exec_free (by exact hlate))
  exact ⟨_, _, _, hc, (steps_add hsteps).trans hjump, h0, h1, h2, rfl, by rw [← hsp]; rfl, rfl⟩

theorem new_thread_starts_demo : ∃ w w' es k, step demoLayout demoText w (.switch true) = .ok (w', es) ∧
    steps demoText 6 w'.cpu = some ⟨0x80002000, 0x80002004, k⟩ ∧ k.reg .a0 = 1 ∧ k.reg .a2 = 3 := by
  obtain ⟨w, hw, hok, hcur⟩ := demo_create
  obtain ⟨w', es, k, hs, hk, h0, -, h2, -⟩ := new_thread_starts demo_at.1 demo_at.2 hw hok (by simp [hcur]) rfl
  exact ⟨w, w', es, k, hs, hk, h0, h2⟩

end Threads

end Os161.Switch
