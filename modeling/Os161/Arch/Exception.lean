import Os161.Lib.Mips
import Mathlib.Tactic.IntervalCases

/-! # Exceptions

`exception.S`: from the vector to `mips_trap` with the registers in a trapframe, and back.
-/

namespace Os161.Exception

open Mips

structure Symbols where
  common_exception : Word
  mips_trap : Word
  curkstack : Word

abbrev CST_KUp : Word := 8

/-- What the two handlers share; `utlb` is the one that marks the cause. -/
def vector (sym : Symbols) (utlb : Bool) : List Instr := [
  .move .k1 .sp,
  .mfc0 .k0 .status,
  .andi .k0 .k0 CST_KUp,
  .beq .k0 .z0 4, .nop,
  .li .k0 sym.curkstack,
  .lw .sp 0 .k0, .nop,
  .mfc0 .k0 .cause] ++ (if utlb then [.ori .k0 .k0 1] else []) ++ [.j sym.common_exception, .nop]

def utlb_exception (sym : Symbols) : List Instr := vector sym true

def exception (sym : Symbols) : List Instr := vector sym false

def general : List (Reg × Word) := [(.t9, 136), (.t8, 132), (.s7, 128), (.s6, 124), (.s5, 120), (.s4, 116), (.s3, 112),
  (.s2, 108), (.s1, 104), (.s0, 100), (.t7, 96), (.t6, 92), (.t5, 88), (.t4, 84), (.t3, 80), (.t2, 76), (.t1, 72),
  (.t0, 68), (.a3, 64), (.a2, 60), (.a1, 56), (.a0, 52), (.v1, 48), (.v0, 44), (.AT, 40)]

/-- `common_exception` up to the call. -/
def save : List Instr :=
  .addi .sp .sp (-164) ::
  (stores .sp [(.ra, 160), (.s8, 156), (.sp, 152), (.gp, 148), (.k1, 144), (.k0, 140), (.k1, 152)] ++
  (.nop :: .mfc0 .k1 .epc :: (stores .sp ((.k1, 160) :: general ++ [(.ra, 36)]) ++
  (.mfhi .t0 :: .mflo .t1 :: (stores .sp [(.t0, 32), (.t1, 28), (.k0, 24)] ++
  (.mfc0 .t1 .status :: (stores .sp [(.t1, 20)] ++
  (.mfc0 .t2 .vaddr :: (stores .sp [(.t2, 16), (.z0, 12)] ++ [.addiu .a0 .sp 16])))))))))

def common_exception (sym : Symbols) : List Instr := save ++ [.jal sym.mips_trap, .nop, .nop]

def reloaded : List (Reg × Word) := (.ra, 36) :: general.reverse ++ [(.gp, 148), (.s8, 156), (.k0, 160)]

def exception_return : List Instr :=
  .lw .t0 20 .sp :: .nop :: .mtc0 .t0 .status ::
  (loads .sp [(.t1, 28), (.t0, 32)] ++ (.mtlo .t1 :: .mthi .t0 :: (loads .sp reloaded ++
  [.lw .sp 152 .sp, .jr .k0, .rfe])))

/-! ## In -/

variable {text : Text} {sym : Symbols} {k : Core} {a sf : Word}

/-- The stack that the handler is on. -/
def kernelStack (sym : Symbols) (k : Core) : Word :=
  if k.cop0 .status &&& CST_KUp = 0 then k.reg .sp else k.mem sym.curkstack

def cause (utlb : Bool) (k : Core) : Word := k.cop0 .cause ||| (if utlb then 1 else 0)

theorem tail_run {utlb : Bool} (hlate : k.late = none) (h : At text a
      ((.mfc0 .k0 .cause :: if utlb then [.ori .k0 .k0 1] else []) ++ [.j sym.common_exception, .nop])) :
    ∃ n, steps text n ⟨a, a + 4, k⟩ =
      some ⟨sym.common_exception, sym.common_exception + 4, k.set .k0 (cause utlb k)⟩ := by
  have hline : line (.mfc0 .k0 .cause :: if utlb then [.ori .k0 .k0 1] else []) k = some (k.set .k0 (cause utlb k)) := by
    refine (line_cons (exec_free hlate)).trans ?_
    cases utlb with
    | false => simp [cause, line]
    | true =>
      refine (line_cons (exec_free (by exact hlate))).trans ?_
      simp [cause, line, Core.set, Core.get]
  obtain ⟨pc, hsteps, hready⟩ := Ready.line (c := ⟨a, a + 4, k⟩) _ _ (by cases utlb <;> rfl) ⟨h, rfl⟩ hline
  exact ⟨_, (steps_add hsteps).trans (hready.jump (exec_free (by exact hlate)) rfl (exec_free (by exact hlate)))⟩

theorem vector_run {utlb : Bool} (hat : At text a (vector sym utlb)) (hlate : k.late = none)
    (hcur : Aligned sym.curkstack) :
    ∃ n regs, steps text n ⟨a, a + 4, k⟩ = some ⟨sym.common_exception, sym.common_exception + 4, { k with reg := regs }⟩ ∧
      regs .k1 = k.reg .sp ∧ regs .sp = kernelStack sym k ∧ regs .k0 = cause utlb k ∧
      ∀ r, r ≠ .k0 → r ≠ .k1 → r ≠ .sp → regs r = k.reg r := by
  have hline : line [.move .k1 .sp, .mfc0 .k0 .status, .andi .k0 .k0 CST_KUp] k =
      some (((k.set .k1 (k.reg .sp)).set .k0 (k.cop0 .status)).set .k0 (k.cop0 .status &&& CST_KUp)) := by
    refine (line_cons (exec_free hlate)).trans ((line_cons (exec_free ?_)).trans (line_cons (exec_free ?_)))
    all_goals exact hlate
  obtain ⟨pc, hsteps, hready⟩ := Ready.line (c := ⟨a, a + 4, k⟩)
    [.move .k1 .sp, .mfc0 .k0 .status, .andi .k0 .k0 CST_KUp] _ rfl ⟨hat, rfl⟩ hline
  generalize hk₁ : ((k.set .k1 (k.reg .sp)).set .k0 (k.cop0 .status)).set .k0 (k.cop0 .status &&& CST_KUp) = k₁
    at hsteps hready
  have hlate₁ : k₁.late = none := by rw [← hk₁]; exact hlate
  have hjump := hready.jump (exec_free hlate₁) rfl (exec_free hlate₁)
  obtain ⟨⟨-, -, hla⟩, -⟩ := hready
  have hbr : (Instr.beq .k0 .z0 4).target k₁ (pc + 4) =
      if k.cop0 .status &&& CST_KUp = 0 then pc + 4 + 16 else pc + 4 + 4 := by rw [← hk₁]; rfl
  rw [hbr] at hjump
  by_cases hmode : k.cop0 .status &&& CST_KUp = 0
  · -- from the kernel: its stack goes on
    rw [if_pos hmode] at hjump
    obtain ⟨-, -, -, htail⟩ := hla
    have hskip : pc + 4 + 16 = pc + 4 + 4 + 4 + 4 + 4 := by simp [BitVec.add_assoc]
    rw [← hskip] at htail
    obtain ⟨n, hn⟩ := tail_run hlate₁ htail
    subst hk₁
    refine ⟨_, _, (steps_add hsteps).trans ((steps_add hjump).trans hn), rfl, (if_pos hmode).symm, rfl, ?_⟩
    intro r h0 h1 _
    simp [Core.set, Function.update_of_ne, h0, h1]
  · rw [if_neg hmode] at hjump
    have hlw := exec_lw (r := .sp) (b := .k0) (k := k₁.set .k0 sym.curkstack) (add_zero_word _) hcur
      (by simp [Core.set, hlate₁])
    have hline₂ : line [.li .k0 sym.curkstack, .lw .sp 0 .k0, .nop] k₁ =
        some ((k₁.set .k0 sym.curkstack).set .sp (k₁.mem sym.curkstack)) := by
      refine (line_cons (exec_free hlate₁)).trans ((line_cons hlw).trans ((line_cons exec_nop).trans ?_))
      rw [← hlate₁]
      rfl
    obtain ⟨pc₂, hsteps₂, hready₂⟩ := Ready.line (c := ⟨pc + 4 + 4, pc + 4 + 4 + 4, k₁⟩)
      [.li .k0 sym.curkstack, .lw .sp 0 .k0, .nop] _ rfl ⟨hla, rfl⟩ hline₂
    obtain ⟨n, hn⟩ := tail_run (k := (k₁.set .k0 sym.curkstack).set .sp (k₁.mem sym.curkstack)) hlate₁ hready₂.code
    subst hk₁
    refine ⟨_, _, (steps_add hsteps).trans ((steps_add hjump).trans ((steps_add hsteps₂).trans hn)), rfl,
      (if_neg hmode).symm, rfl, ?_⟩
    intro r h0 h1 h2
    simp [Core.set, Function.update_of_ne, h0, h1, h2]

/-- The words of the trapframe in the order they are stored; `k` is what `common_exception` starts from. -/
def words (k : Core) (sf : Word) : List (Word × Word) :=
  [(160, k.reg .ra), (156, k.reg .s8), (152, sf), (148, k.reg .gp), (144, k.reg .k1), (140, k.reg .k0), (152, k.reg .k1)] ++
  ((160, k.cop0 .epc) :: general.map (fun e => (e.2, k.reg e.1)) ++ [(36, k.reg .ra)]) ++
  [(32, k.hi), (28, k.lo), (24, k.reg .k0)] ++ [(20, k.cop0 .status)] ++ [(16, k.cop0 .vaddr), (12, 0)]

def inFrame (k : Core) (sf : Word) (reg : Reg → Word) (l : List (Word × Word)) : Core :=
  { k with reg := reg, mem := updates k.mem (fields sf l) }

theorem line_inFrame (reg : Reg → Word) (l : List (Word × Word)) (hlate : k.late = none) (hal : Aligned sf)
    (hsp : reg .sp = sf) (ws : List (Reg × Word)) (hws : ∀ e ∈ ws, Aligned e.2) :
    line (stores .sp ws) (inFrame k sf reg l) =
      some (inFrame k sf reg (l ++ ws.map fun e => (e.2, (inFrame k sf reg l).get e.1))) := by
  have h := line_stores (k := inFrame k sf reg l) (b := .sp) (by rw [← hsp] at hal; exact hal) hws hlate
  subst hsp
  refine h.trans (congrArg some ?_)
  rw [inFrame, inFrame, updates_fields_append, fields, fields, List.map_map]
  rfl

theorem common_run (hat : At text sym.common_exception (common_exception sym ++ exception_return)) (hlate : k.late = none)
    (hal : Aligned (k.reg .sp)) (ho : (k.reg .sp).saddOverflow (-164) = false) (hsf : k.reg .sp + -164 = sf) :
    ∃ n k₁, steps text n ⟨sym.common_exception, sym.common_exception + 4, k⟩ =
        some ⟨sym.mips_trap, sym.mips_trap + 4, k₁⟩ ∧
      k₁.mem = updates k.mem (fields sf (words k sf)) ∧ k₁.reg .sp = sf ∧ k₁.reg .a0 = sf + 16 ∧
      At text (k₁.reg .ra) (.nop :: exception_return) := by
  have hal' : Aligned sf := hsf ▸ hal.add (by decide)
  have h₀ := exec_addi (by decide) hlate ho
  rw [hsf] at h₀
  have hstore (reg : Reg → Word) (l : List (Word × Word)) (hsp : reg .sp = sf) :=
    line_inFrame (k := k) reg l hlate hal' hsp
  have hfree (reg : Reg → Word) (l : List (Word × Word)) (i : Instr) :
      i.exec (inFrame k sf reg l) = i.run (inFrame k sf reg l) := exec_free hlate
  have hline : line save k = some (inFrame k sf (updates k.reg [(.sp, sf), (.k1, k.cop0 .epc), (.t0, k.hi), (.t1, k.lo),
      (.t1, k.cop0 .status), (.t2, k.cop0 .vaddr), (.a0, sf + 16)]) (words k sf)) := by
    refine (line_cons h₀).trans ((line_append (hstore (updates k.reg [(.sp, sf)]) [] rfl _ (by decide))).trans ?_)
    refine (line_cons (hfree _ _ _)).trans ((line_cons (hfree _ _ _)).trans ?_)
    refine (line_append (hstore (updates k.reg [(.sp, sf), (.k1, k.cop0 .epc)]) _ rfl _ (by decide))).trans ?_
    refine (line_cons (hfree _ _ _)).trans ((line_cons (hfree _ _ _)).trans ?_)
    refine (line_append (hstore (updates k.reg [(.sp, sf), (.k1, k.cop0 .epc), (.t0, k.hi), (.t1, k.lo)]) _ rfl _
      (by decide))).trans ((line_cons (hfree _ _ _)).trans ?_)
    refine (line_append (hstore _ _ rfl _ (by decide))).trans ((line_cons (hfree _ _ _)).trans ?_)
    refine (line_append (hstore _ _ rfl _ (by decide))).trans ((line_cons (hfree _ _ _)).trans ?_)
    rfl
  obtain ⟨pc, hsteps, hready⟩ := Ready.line (c := ⟨sym.common_exception, sym.common_exception + 4, k⟩) save
    ([.jal sym.mips_trap, .nop, .nop] ++ exception_return) rfl ⟨by rw [← List.append_assoc]; exact hat, rfl⟩ hline
  refine ⟨_, _, (steps_add hsteps).trans (hready.jump (hfree _ _ _) rfl (exec_free (by exact hlate))), rfl, rfl, rfl, ?_⟩
  exact hready.code.2.2

/-! ## Out -/

def frame : List (Reg × Word) := general ++ [(.ra, 36), (.gp, 148), (.s8, 156), (.sp, 152)]

def special (k : Core) (sf : Word) : Core where
  reg := updates k.reg [(.t0, k.mem (sf + 20)), (.t1, k.mem (sf + 28)), (.t0, k.mem (sf + 32))]
  hi := k.mem (sf + 32)
  lo := k.mem (sf + 28)
  cop0 := Function.update k.cop0 .status (k.mem (sf + 20))
  mem := k.mem
  late := none

theorem line_reload {k : Core} (ws : List (Reg × Word)) (hsp : k.reg .sp = sf) (hal : Aligned sf)
    (hlate : k.late ≠ some .sp) (hws : ∀ e ∈ ws, e.1 ≠ .sp ∧ Aligned e.2) : line (loads .sp ws) k = some { k with
      reg := updates k.reg (ws.map fun e => (e.1, k.mem (sf + e.2))), late := ws.foldl (fun _ e => some e.1) k.late } := by
  subst hsp
  exact line_loads hal hws hlate

theorem line_special (hlate : k.late = none) (hsp : k.reg .sp = sf) (hal : Aligned sf) :
    line ([.lw .t0 20 .sp, .nop, .mtc0 .t0 .status] ++ loads .sp [(.t1, 28), (.t0, 32)] ++ [.mtlo .t1, .mthi .t0]) k =
      some (special k sf) := by
  have hlw := exec_lw (r := .t0) (b := .sp) (a := sf + 20) (congrArg (· + _) hsp) (hal.add (by decide)) (by simp [hlate])
  have h₁ : line [.lw .t0 20 .sp, .nop, .mtc0 .t0 .status] k = some { k.set .t0 (k.mem (sf + 20)) with
      cop0 := Function.update k.cop0 .status (k.mem (sf + 20)), late := none } :=
    (line_cons hlw).trans ((line_cons exec_nop).trans (line_cons (exec_free rfl)))
  have h₂ := line_reload (k := { k.set .t0 (k.mem (sf + 20)) with
    cop0 := Function.update k.cop0 .status (k.mem (sf + 20)), late := none }) [(.t1, 28), (.t0, 32)] hsp hal (by simp)
    (by decide)
  rw [List.append_assoc, line_append h₁, line_append h₂]
  exact (line_cons (exec_of_reads (by simp [Instr.reads]))).trans (line_cons (exec_free rfl))

theorem return_run (hat : At text a exception_return) (hlate : k.late = none) (hsp : k.reg .sp = sf)
    (hal : Aligned sf) :
    ∃ k', steps text exception_return.length ⟨a, a + 4, k⟩ = some ⟨k.mem (sf + 160), k.mem (sf + 160) + 4, k'⟩ ∧
      k'.mem = k.mem ∧
      k'.hi = k.mem (sf + 32) ∧ k'.lo = k.mem (sf + 28) ∧ k'.cop0 .status = popMode (k.mem (sf + 20)) ∧
      (∀ e ∈ frame, k'.reg e.1 = k.mem (sf + e.2)) ∧ k'.late = none := by
  have hnd : ((reloaded.map fun e => (e.1, k.mem (sf + e.2))).map Prod.fst).Nodup := by
    show (reloaded.map Prod.fst).Nodup
    decide
  have hreg {e : Reg × Word} (he : e ∈ reloaded) : updates (special k sf).reg
      (reloaded.map fun e => (e.1, k.mem (sf + e.2))) e.1 = k.mem (sf + e.2) :=
    updates_of_mem hnd (List.mem_map_of_mem (f := fun e => (e.1, k.mem (sf + e.2))) he)
  have h₁ := line_reload (k := special k sf) reloaded hsp hal (by simp [special]) (by decide)
  generalize hk₃ : ({ special k sf with
      reg := updates (special k sf).reg (reloaded.map fun e => (e.1, (special k sf).mem (sf + e.2)))
      late := reloaded.foldl (fun _ e => some e.1) (special k sf).late } : Core) = k₃ at h₁
  have hsp₃ : k₃.get .sp + 152 = sf + 152 := by
    refine congrArg (· + 152) (Eq.trans ?_ hsp)
    rw [← hk₃]
    exact updates_of_notMem (by simp [reloaded, general])
  have hlw := exec_lw (r := .sp) hsp₃ (hal.add (by decide)) (by rw [← hk₃]; simp [reloaded])
  have hline := (line_append (line_special hlate hsp hal)).trans ((line_append h₁).trans (line_single hlw))
  obtain ⟨pc, hsteps, hready⟩ := Ready.line (c := ⟨a, a + 4, k⟩) _ [.jr .k0, .rfe] rfl ⟨hat, rfl⟩ hline
  have hjump := hready.jump (exec_of_reads (by simp [Instr.reads])) rfl (exec_free rfl)
  have hmem₃ : k₃.mem = k.mem := by rw [← hk₃]; rfl
  have hk0 : k₃.reg .k0 = k.mem (sf + 160) := by
    rw [← hk₃]
    exact hreg (e := (.k0, 160)) (by decide)
  have htarget : (Instr.jr .k0).target { k₃.set .sp (k₃.mem (sf + 152)) with late := some .sp } (pc + 4) = k.mem (sf + 160) :=
    hk0
  rw [htarget] at hjump
  refine ⟨_, (steps_add hsteps).trans hjump, hmem₃, ?_, ?_, ?_, ?_, rfl⟩
  · rw [← hk₃]; rfl
  · rw [← hk₃]; rfl
  · rw [← hk₃]; rfl
  · intro e he
    have hcases : ∀ e ∈ frame, e = (.sp, 152) ∨ e.1 ≠ .sp ∧ e ∈ reloaded := by decide
    rcases hcases e he with rfl | ⟨hne, he⟩
    · exact congrFun hmem₃ (sf + 152)
    · refine (Function.update_of_ne hne _ _).trans ?_
      rw [← hk₃]
      exact hreg he

/-! ## There and back -/

/-- The mode bits when the processor takes an exception. -/
def pushMode (status : Word) : Word := (status &&& ~~~0x3f#32) ||| ((status <<< 2) &&& 0x3c#32)

/-- The processor takes an exception at `pc`. -/
def raise (k : Core) (pc cause vaddr : Word) : Core :=
  { k with
    cop0 := updates k.cop0 [(.status, pushMode (k.cop0 .status)), (.cause, cause), (.epc, pc), (.vaddr, vaddr)]
    late := none }

theorem popMode_pushMode (status : Word) : popMode (pushMode status) &&& ~~~0x30#32 = status &&& ~~~0x30#32 := by
  ext i hi
  interval_cases i <;> simp [popMode, pushMode, BitVec.getElem_shiftLeft]

theorem words_frame (f : Word → Word) : ∀ e ∈ general ++ [(.ra, 36), (.gp, 148), (.s8, 156), (.k1, 152)],
    updates f (words k sf) e.2 = k.reg e.1 := by
  rw [← List.forall_iff_forall_mem]
  repeat' constructor

theorem words_offset : ∀ e ∈ words k sf, e.1.toNat ≤ 160 := by
  rw [← List.forall_iff_forall_mem]
  repeat' constructor

/-- What `mips_trap` is called with: the context `k` in a trapframe. -/
structure Entered (text : Text) (sym : Symbols) (utlb : Bool) (k k₁ : Core) : Prop where
  sp : k₁.reg .sp = kernelStack sym k + -164
  a0 : k₁.reg .a0 = k₁.reg .sp + 16
  back : At text (k₁.reg .ra) (.nop :: exception_return)
  general : ∀ e ∈ frame, k₁.mem (k₁.reg .sp + e.2) = k.reg e.1
  epc : k₁.mem (k₁.reg .sp + 160) = k.cop0 .epc
  hi : k₁.mem (k₁.reg .sp + 32) = k.hi
  lo : k₁.mem (k₁.reg .sp + 28) = k.lo
  cause : k₁.mem (k₁.reg .sp + 24) = cause utlb k
  status : k₁.mem (k₁.reg .sp + 20) = k.cop0 .status
  vaddr : k₁.mem (k₁.reg .sp + 16) = k.cop0 .vaddr
  other : ∀ a, a.toNat < (k₁.reg .sp).toNat ∨ (k₁.reg .sp).toNat + 164 ≤ a.toNat → k₁.mem a = k.mem a

/-- The code is where it belongs. -/
structure Loaded (text : Text) (sym : Symbols) (vec : Bool → Word) : Prop where
  vectors : ∀ utlb, At text (vec utlb) (vector sym utlb)
  common : At text sym.common_exception (common_exception sym ++ exception_return)
  curkstack : Aligned sym.curkstack

/-- There is room for the frame in `kseg0`. -/
def Room (sym : Symbols) (k : Core) : Prop :=
  Aligned (kernelStack sym k) ∧ 2 ^ 31 + 164 ≤ (kernelStack sym k).toNat

variable {vec : Bool → Word} {k₁ k₂ : Core}

theorem entry_run (utlb : Bool) (hload : Loaded text sym vec) (hlate : k.late = none) (hstack : Room sym k) :
    ∃ n k₁, steps text n ⟨vec utlb, vec utlb + 4, k⟩ = some ⟨sym.mips_trap, sym.mips_trap + 4, k₁⟩ ∧
      Entered text sym utlb k k₁ := by
  obtain ⟨n, regs, hn, hk1, hsp, hk0, hregs⟩ := vector_run (hload.vectors utlb) hlate hload.curkstack
  obtain ⟨hal, hkern⟩ := hstack
  obtain ⟨sf, hsf⟩ : ∃ sf, kernelStack sym k + -164 = sf := ⟨_, rfl⟩
  rw [← hsp] at hal hkern hsf
  obtain ⟨m, k₁, hm, hmem, hsp₁, ha0, hback⟩ := common_run (k := { k with reg := regs }) hload.common hlate hal
    (sub_overflow (by decide) hkern) hsf
  subst hsp₁
  have hword (o : Word) : k₁.mem (k₁.reg .sp + o) =
      updates (fun o => k.mem (k₁.reg .sp + o)) (words { k with reg := regs } (k₁.reg .sp)) o := by
    rw [hmem]
    exact updates_fields _ _ _ _
  refine ⟨_, k₁, (steps_add hn).trans hm, ⟨by rw [← hsf, hsp], ha0, hback, fun e he => ?_, hword 160, hword 32, hword 28,
    (hword 24).trans hk0, hword 20, hword 16, fun a ha => ?_⟩⟩
  · have hcases : ∀ e ∈ frame, e = (.sp, 152) ∨ e ∈ general ++ [(.ra, 36), (.gp, 148), (.s8, 156), (.k1, 152)] ∧
        e.1 ≠ .k0 ∧ e.1 ≠ .k1 ∧ e.1 ≠ .sp := by decide
    rcases hcases e he with rfl | ⟨hmem, h0, h1, h2⟩
    · exact (hword 152).trans hk1
    · exact (hword e.2).trans ((words_frame _ e hmem).trans (hregs e.1 h0 h1 h2))
  · rw [hmem]
    refine updates_fields_of_notMem fun e he heq => ?_
    have hbound := words_offset e he
    have hnat : (k₁.reg .sp).toNat + 164 = (regs .sp).toNat := by
      rw [← hsf]
      bv_omega
    rw [heq, BitVec.toNat_add, Nat.mod_eq_of_lt (by omega)] at ha
    omega

/-- The registers and the memory of a program. -/
abbrev Own (r : Reg) : Prop := r ≠ .k0 ∧ r ≠ .k1

abbrev Low (a : Word) : Prop := a.toNat < 2 ^ 31

/-- The handler puts the stack pointer back, and leaves the program's memory and all of the frame but `ex` alone. -/
structure Handled (ex : List Word) (k₁ k₂ : Core) : Prop where
  late : k₂.late = none
  sp : k₂.reg .sp = k₁.reg .sp
  frame : ∀ o, o.toNat < 164 → o ∉ ex → k₂.mem (k₁.reg .sp + o) = k₁.mem (k₁.reg .sp + o)
  program : ∀ a, Low a → k₂.mem a = k₁.mem a

theorem frame_all (r : Reg) : r = .z0 ∨ ¬ Own r ∨ r ≠ .z0 ∧ ∃ off, (r, off) ∈ frame := by
  cases r <;> simp [frame, general]

theorem frame_offset : ∀ e ∈ frame, e.2.toNat < 164 := by decide

/-- The way back, with what the handler left in the frame. -/
theorem resume_run {ex : List Word} {utlb : Bool} (hin : Entered text sym utlb k k₁) (hstack : Room sym k)
    (h : Handled ex k₁ k₂) :
    ∃ k₃, steps text (exception_return.length + 1) ⟨k₁.reg .ra, k₁.reg .ra + 4, k₂⟩ =
        some ⟨k₂.mem (k₁.reg .sp + 160), k₂.mem (k₁.reg .sp + 160) + 4, k₃⟩ ∧
      k₃.hi = k₂.mem (k₁.reg .sp + 32) ∧ k₃.lo = k₂.mem (k₁.reg .sp + 28) ∧
      k₃.cop0 .status = popMode (k₂.mem (k₁.reg .sp + 20)) ∧ (∀ e ∈ frame, k₃.reg e.1 = k₂.mem (k₁.reg .sp + e.2)) ∧
      (∀ r, Own r → (∀ o ∈ ex, (r, o) ∉ frame) → k₃.get r = k.get r) ∧ (∀ a, Low a → k₃.mem a = k.mem a) ∧
      k₃.late = none := by
  obtain ⟨hal, hkern⟩ := hstack
  have hsf : Aligned (k₁.reg .sp) := hin.sp ▸ hal.add (by decide)
  have hnop := step_plain (c := ⟨k₁.reg .ra, k₁.reg .ra + 4, k₂⟩) hin.back.1 rfl (exec_free h.late)
  obtain ⟨k₃, hrun, hmem, hhi, hlo, hstatus, hregs, hlate⟩ := return_run hin.back.2 h.late h.sp hsf
  have hfirst : steps text (exception_return.length + 1) ⟨k₁.reg .ra, k₁.reg .ra + 4, k₂⟩ =
      steps text exception_return.length ⟨k₁.reg .ra + 4, k₁.reg .ra + 4 + 4, k₂⟩ := by
    rw [steps, hnop, Option.bind_some]
  refine ⟨k₃, hfirst.trans hrun, hhi, hlo, hstatus, hregs, fun r hr hex => ?_, fun a ha => ?_, hlate⟩
  · rcases frame_all r with rfl | hr' | ⟨-, off, he⟩
    · rfl
    · exact absurd hr hr'
    · have hoff : off ∉ ex := fun hmem => hex off hmem he
      rw [Core.get, Core.get, hregs _ he, h.frame off (frame_offset _ he) hoff, hin.general _ he]
  · rw [hmem, h.program a ha]
    refine hin.other a (.inl ?_)
    rw [hin.sp]
    generalize kernelStack sym k = sp at hkern
    bv_omega

/-! ## The first time -/

def asm_usermode (exception_return : Word) : List Instr := [.j exception_return, .addiu .sp .a0 (-16)]

/-- The trapframe of `md_usermode`: cleared, and then the status, `tf_epc`, `tf_a0`, `tf_a1` and `tf_sp`. -/
def md_usermode (argc argv stack entry : Word) : List (Word × Word) :=
  (List.range 37).map (fun i => (BitVec.ofNat 32 (4 * i), 0)) ++
    [(4, 0xff0c), (144, entry), (36, argc), (40, argv), (136, stack)]

theorem md_usermode_frame (f : Word → Word) (argc argv stack entry : Word) : ∀ e ∈ frame,
    updates f (md_usermode argc argv stack entry) (e.2 - 16) =
      if e.1 = .a0 then argc else if e.1 = .a1 then argv else if e.1 = .sp then stack else 0 := by
  rw [← List.forall_iff_forall_mem]
  repeat' constructor

/-- A program starts in user mode with interrupts on, and finds nothing of the kernel in its registers. -/
theorem user_mode_clean {start back argc argv stack entry tf : Word} {mem : Word → Word}
    (hstart : At text start (asm_usermode back)) (hback : At text back exception_return) (hlate : k.late = none)
    (htf : Aligned tf) (ha0 : k.reg .a0 = tf) (hmem : k.mem = updates mem (fields tf (md_usermode argc argv stack entry))) :
    ∃ n k', steps text n ⟨start, start + 4, k⟩ = some ⟨entry, entry + 4, k'⟩ ∧ k'.cop0 .status = 0xff03 ∧
      (∀ r, Own r → k'.get r = if r = .a0 then argc else if r = .a1 then argv else if r = .sp then stack else 0) ∧
      k'.hi = 0 ∧ k'.lo = 0 ∧ k'.mem = k.mem := by
  subst ha0
  have hready : Ready text ⟨start, start + 4, k⟩ _ := ⟨hstart, rfl⟩
  have hjump := hready.jump (exec_free hlate) rfl (exec_free hlate)
  have hsf : (k.set .sp (k.reg .a0 + -16)).reg .sp = k.reg .a0 + -16 := rfl
  have hal : Aligned (k.reg .a0 + -16) := htf.add (by decide)
  obtain ⟨k', hrun, hmem', hhi, hlo, hstatus, hregs, -⟩ := return_run hback (by exact hlate) hsf hal
  have hword (o : Word) : (k.set .sp (k.reg .a0 + -16)).mem (k.reg .a0 + -16 + o) =
      updates (fun o => mem (k.reg .a0 + o)) (md_usermode argc argv stack entry) (o - 16) := by
    rw [← updates_fields, ← hmem, show k.reg .a0 + (o - 16) = k.reg .a0 + -16 + o by bv_omega]
    rfl
  have hentry : _ = entry := (hword 160).trans rfl
  rw [hentry] at hrun
  refine ⟨_, k', (steps_add hjump).trans hrun, ?_, fun r hr => ?_, hhi.trans ((hword 32).trans rfl),
    hlo.trans ((hword 28).trans rfl), hmem'⟩
  · have hword₂₀ : _ = 0xff0c#32 := (hword 20).trans rfl
    rw [hstatus, hword₂₀]
    decide
  · rcases frame_all r with rfl | hr' | ⟨hne, off, he⟩
    · rfl
    · exact absurd hr hr'
    · rw [Core.get, if_neg hne, hregs _ he, hword]
      exact md_usermode_frame _ _ _ _ _ _ he

/-- A kernel with something in every register and every word, about to start a program at `0x400000`. -/
def starting : Core where
  reg := updates (fun _ => 7) [(.a0, 0x80010f00)]
  hi := 7
  lo := 7
  cop0 _ := 7
  mem := updates (fun _ => 7) (fields 0x80010f00 (md_usermode 0 0 0x7ffffff0 0x400000))
  late := none

theorem user_mode_clean_start : ∃ n k', steps (place [(0x80000000, asm_usermode 0x80001000), (0x80001000, exception_return)])
    n ⟨0x80000000, 0x80000004, starting⟩ = some ⟨0x400000, 0x400004, k'⟩ ∧ k'.get .sp = 0x7ffffff0 ∧ k'.get .s0 = 0 := by
  generalize htext : place [(0x80000000, asm_usermode 0x80001000), (0x80001000, exception_return)] = text
  have hstart : At text 0x80000000 (asm_usermode 0x80001000) := by
    rw [← htext]
    decide +kernel
  have hback : At text 0x80001000 exception_return := by
    rw [← htext]
    decide +kernel
  obtain ⟨n, k', hn, -, hregs, -⟩ := user_mode_clean (k := starting) hstart hback rfl (by decide) rfl rfl
  exact ⟨n, k', hn, hregs .sp (by decide), hregs .s0 (by decide)⟩

/-! ## Exceptions at any time -/

/-- An exception between two instructions, handled. -/
structure Trapped (text : Text) (sym : Symbols) (vec : Bool → Word) (d e : Cpu) (utlb : Bool) (code vaddr : Word) : Prop where
  next : d.npc = d.pc + 4
  room : Room sym (raise d.core d.pc code vaddr)
  run : ∃ n k₁ k₂, steps text n ⟨vec utlb, vec utlb + 4, raise d.core d.pc code vaddr⟩ =
      some ⟨sym.mips_trap, sym.mips_trap + 4, k₁⟩ ∧ Handled [] k₁ k₂ ∧
    steps text (exception_return.length + 1) ⟨k₁.reg .ra, k₁.reg .ra + 4, k₂⟩ = some e

/-- `n` instructions of a program, with exceptions in between. -/
inductive Runs (text : Text) (sym : Symbols) (vec : Bool → Word) (c : Cpu) : Nat → Cpu → Prop where
  | start : Runs text sym vec c 0 c
  | instr {n : Nat} {d e : Cpu} : Runs text sym vec c n d → step text d = some e → Runs text sym vec c (n + 1) e
  | trap {n : Nat} {d e : Cpu} {utlb : Bool} {code vaddr : Word} : Runs text sym vec c n d →
      Trapped text sym vec d e utlb code vaddr → Runs text sym vec c n e

variable {c d e : Cpu} {utlb : Bool} {code vaddr : Word} {n : Nat}

theorem trap_run (utlb : Bool) (hload : Loaded text sym vec) (hstack : Room sym (raise d.core d.pc code vaddr)) :
    ∃ n k₁, steps text n ⟨vec utlb, vec utlb + 4, raise d.core d.pc code vaddr⟩ =
        some ⟨sym.mips_trap, sym.mips_trap + 4, k₁⟩ ∧
      Entered text sym utlb (raise d.core d.pc code vaddr) k₁ ∧
      ∀ k₂, Handled [] k₁ k₂ → ∃ k₃, steps text (exception_return.length + 1) ⟨k₁.reg .ra, k₁.reg .ra + 4, k₂⟩ =
          some ⟨d.pc, d.pc + 4, k₃⟩ ∧ Agree Own Low d.core k₃ ∧
        k₃.cop0 .status &&& ~~~0x30#32 = d.core.cop0 .status &&& ~~~0x30#32 := by
  obtain ⟨n, k₁, hn, hin⟩ := entry_run utlb hload rfl hstack
  refine ⟨n, k₁, hn, hin, fun k₂ h => ?_⟩
  obtain ⟨k₃, hrun, hhi, hlo, hstatus, -, hget, hmem, hlate⟩ := resume_run hin hstack h
  have hword {o : Word} (ho : o.toNat < 164) := h.frame o ho (List.not_mem_nil)
  rw [hword (by decide), hin.epc] at hrun
  rw [hword (by decide)] at hhi hlo hstatus
  refine ⟨k₃, hrun, ⟨fun r hr => ?_, hhi.trans hin.hi, hlo.trans hin.lo, hmem, .inl hlate⟩, ?_⟩
  · exact hget r hr fun o ho => absurd ho List.not_mem_nil
  · rw [hstatus, hin.status]
    exact popMode_pushMode _

theorem Trapped.agree (hload : Loaded text sym vec) (hstop : text sym.mips_trap = none)
    (h : Trapped text sym vec d e utlb code vaddr) : e.pc = d.pc ∧ e.npc = d.npc ∧ Agree Own Low d.core e.core := by
  obtain ⟨m, k₁', k₂, hm, hhandled, hback⟩ := h.run
  obtain ⟨n, k₁, hn, -, hreturn⟩ := trap_run utlb hload h.room
  obtain rfl : n = m := Nat.le_antisymm (steps_stop hm hstop hn) (steps_stop hn hstop hm)
  cases hn.symm.trans hm
  obtain ⟨k₃, hk₃, hagree, -⟩ := hreturn k₂ hhandled
  cases hk₃.symm.trans hback
  exact ⟨rfl, h.next.symm, hagree⟩

def demoSymbols : Symbols := ⟨0x80001000, 0x80002000, 0x80003000⟩

def demoVec (utlb : Bool) : Word := if utlb then 0x80000000 else 0x80000080

/-- The code of the kernel next to that of a program. -/
def demoText (program : List (Word × List Instr)) : Text := place ([(0x80000000, utlb_exception demoSymbols),
  (0x80000080, exception demoSymbols), (0x80001000, common_exception demoSymbols ++ exception_return)] ++ program)

/-- In user mode with interrupts on, and a kernel stack. -/
def demo : Cpu := ⟨0x400000, 0x400004, {
  reg _ := 0
  hi := 0
  lo := 0
  cop0 _ := 0xff03
  mem a := if a = 0x80003000 then 0x80011000 else 0
  late := none }⟩

end Os161.Exception
