import Os161.Arch.Exception
import Os161.Userprog.Syscalls

/-! # A system call from the program's side

`syscalls-mips.S` over `exception.S` and `mips_syscall`: the stub is an ordinary function of the program.
-/

namespace Os161.Syscall

open Mips Exception Syscalls

def SYSCALL (sys num : Word) : List Instr := [.j sys, .addiu .v0 .z0 num]

/-- The assembler loads the address of `errno` into `AT`. -/
def __syscall (errno : Word) : List Instr := [
  .syscall,
  .beq .a3 .z0 5, .nop,
  .li .AT errno, .sw .v0 0 .AT,
  .li .v1 (-1),
  .li .v0 (-1),
  .jr .ra, .nop]

/-- What `mips_syscall` uses of the trapframe, which is 16 bytes above the stack pointer. -/
def trapframe (k : Core) (sf : Word) : Trapframe where
  tf_v0 := (k.mem (sf + 44)).toNat
  tf_a0 := (k.mem (sf + 52)).toNat
  tf_a1 := (k.mem (sf + 56)).toNat
  tf_a3 := (k.mem (sf + 64)).toNat
  tf_epc := (k.mem (sf + 160)).toNat

/-- `mips_trap` has called `mips_syscall` and returns. -/
structure Served (mem : Memory) (con con' : Console) (k₁ k₂ : Core) : Prop extends Handled [44, 64, 160] k₁ k₂ where
  call : mips_syscall mem (trapframe k₁ (k₁.reg .sp)) con = .ok (.ok (trapframe k₂ (k₁.reg .sp)), con')

/-- What the function that called the stub finds. -/
structure Returned (errno : Word) (k k' : Core) (v0 a3 : Word) : Prop where
  regs : ∀ r, r ∉ [.v0, .v1, .a3, .AT, .k0, .k1] → k'.get r = k.get r
  success : a3 = 0 → k'.reg .v0 = v0 ∧ ∀ a, Low a → k'.mem a = k.mem a
  failure : a3 ≠ 0 → k'.reg .v0 = -1 ∧ k'.mem errno = v0 ∧ ∀ a, Low a → a ≠ errno → k'.mem a = k.mem a

variable {text : Text} {sym : Symbols} {vec : Bool → Word} {k : Core} {errno sys num stub code vaddr : Word}

theorem mips_syscall_epc {mem : Memory} {tf tf' : Trapframe} {con con' : Console}
    (h : mips_syscall mem tf con = .ok (.ok tf', con')) : tf'.tf_epc = (tf.tf_epc + 4) % 2 ^ 32 := by
  obtain ⟨result, con₁, -, h⟩ := Prog.bind_eq_ok.mp h
  cases result <;> cases h <;> rfl

theorem syscall_tail (hsys : At text sys (__syscall errno)) (herrno : Aligned errno) (hlate : k.late = none) :
    ∃ m k', steps text m ⟨sys + 4, sys + 4 + 4, k⟩ = some ⟨k.get .ra, k.get .ra + 4, k'⟩ ∧
      Returned errno k k' (k.reg .v0) (k.reg .a3) := by
  obtain ⟨-, hcode⟩ := hsys
  have hready : Ready text ⟨sys + 4, sys + 4 + 4, k⟩ _ := ⟨hcode, rfl⟩
  have hjump := hready.jump (exec_free hlate) rfl (exec_free hlate)
  obtain ⟨-, -, hfail⟩ := hcode
  have hbr : (Instr.beq .a3 .z0 5).target k (sys + 4 + 4) =
      if k.reg .a3 = 0 then sys + 4 + 4 + 20 else sys + 4 + 4 + 4 := rfl
  rw [hbr] at hjump
  by_cases ha3 : k.reg .a3 = 0
  · rw [if_pos ha3] at hjump
    obtain ⟨-, -, -, -, hret⟩ := hfail
    have hskip : sys + 4 + 4 + 20 = sys + 4 + 4 + 4 + 4 + 4 + 4 + 4 := by simp [BitVec.add_assoc]
    rw [← hskip] at hret
    have hback : Ready text ⟨sys + 4 + 4 + 20, sys + 4 + 4 + 20 + 4, k⟩ _ := ⟨hret, rfl⟩
    refine ⟨_, k, (steps_add hjump).trans (hback.jump (exec_free hlate) rfl (exec_free hlate)), fun _ _ => rfl,
      fun _ => ⟨rfl, fun _ _ => rfl⟩, fun h => absurd ha3 h⟩
  · rw [if_neg ha3] at hjump
    have hsw := exec_sw (k := k.set .AT errno) (r := .v0) (b := .AT) (add_zero_word _) herrno hlate
    have hline : line [.li .AT errno, .sw .v0 0 .AT, .li .v1 (-1), .li .v0 (-1)] k =
        some ((({ k.set .AT errno with mem := Function.update k.mem errno (k.reg .v0) } : Core).set .v1 (-1)).set .v0 (-1)) :=
      (line_cons (exec_free hlate)).trans ((line_cons hsw).trans ((line_cons (exec_free (by exact hlate))).trans
        (line_cons (exec_free (by exact hlate)))))
    obtain ⟨pc, hsteps, hback⟩ := Ready.line (c := ⟨sys + 4 + 4 + 4, sys + 4 + 4 + 4 + 4, k⟩) _ [.jr .ra, .nop] rfl
      ⟨hfail, rfl⟩ hline
    refine ⟨_, _, (steps_add hjump).trans ((steps_add hsteps).trans
      (hback.jump (exec_free (by exact hlate)) rfl (exec_free (by exact hlate)))), fun r hr => ?_, fun h => absurd h ha3,
      fun _ => ⟨rfl, Function.update_self _ _ _, fun a _ hne => Function.update_of_ne hne _ _⟩⟩
    simp only [List.mem_cons, List.not_mem_nil, or_false, not_or] at hr
    simp [Core.get, Core.set, Instr.link, hr]

/-- The stub hands the arguments to `mips_syscall`, and returns what it leaves in `v0`, or -1 with that in `errno`. -/
theorem system_call_returns (hstub : At text stub (SYSCALL sys num)) (hsys : At text sys (__syscall errno))
    (herrno : Aligned errno) (hload : Loaded text sym vec) (hlate : k.late = none)
    (hstack : Room sym (raise (k.set .v0 num) sys code vaddr)) :
    (steps text 2 ⟨stub, stub + 4, k⟩ = some ⟨sys, sys + 4, k.set .v0 num⟩ ∧ text sys = some .syscall) ∧
    ∃ n k₁, steps text n ⟨vec false, vec false + 4, raise (k.set .v0 num) sys code vaddr⟩ =
        some ⟨sym.mips_trap, sym.mips_trap + 4, k₁⟩ ∧
      k₁.reg .sp = kernelStack sym (raise (k.set .v0 num) sys code vaddr) + -164 ∧
      trapframe k₁ (k₁.reg .sp) =
        ⟨num.toNat, (k.reg .a0).toNat, (k.reg .a1).toNat, (k.reg .a3).toNat, sys.toNat⟩ ∧
      ∀ mem con con' k₂, Served mem con con' k₁ k₂ →
        ∃ m k₃, steps text m ⟨k₁.reg .ra, k₁.reg .ra + 4, k₂⟩ = some ⟨k.get .ra, k.get .ra + 4, k₃⟩ ∧
          Returned errno k k₃ (k₂.mem (k₁.reg .sp + 44)) (k₂.mem (k₁.reg .sp + 64)) := by
  have hready : Ready text ⟨stub, stub + 4, k⟩ (SYSCALL sys num) := ⟨hstub, rfl⟩
  have haddiu : (Instr.addiu .v0 .z0 num).exec k = some (k.set .v0 num) := by
    rw [exec_free hlate]
    simp [Instr.run, Core.get]
  refine ⟨⟨hready.jump (exec_free hlate) rfl haddiu, hsys.1⟩, ?_⟩
  obtain ⟨n, k₁, hn, hin⟩ := entry_run false hload rfl hstack
  have hepc : k₁.mem (k₁.reg .sp + 160) = sys := hin.epc
  refine ⟨n, k₁, hn, hin.sp, ?_, fun mem con con' k₂ h => ?_⟩
  · rw [trapframe, hepc, hin.general (.v0, 44) (by decide), hin.general (.a0, 52) (by decide),
      hin.general (.a1, 56) (by decide), hin.general (.a3, 64) (by decide)]
    rfl
  · have hpc : k₂.mem (k₁.reg .sp + 160) = sys + 4 := by
      refine BitVec.eq_of_toNat_eq ((mips_syscall_epc h.call).trans ?_)
      rw [trapframe, hepc, BitVec.toNat_add]
      rfl
    obtain ⟨k₃, hback, -, -, -, hregs, hkept, hlow, hlate₃⟩ := resume_run hin hstack h.toHandled
    rw [hpc] at hback
    obtain ⟨m, k₄, hm, hret⟩ := syscall_tail hsys herrno hlate₃
    have hget (r : Reg) (hr : r ∉ [.v0, .v1, .a3, .AT, .k0, .k1]) : k₃.get r = k.get r := by
      simp only [List.mem_cons, List.not_mem_nil, or_false, not_or] at hr
      have hoff : ∀ e ∈ frame, e.2 ∈ [44, 64, 160] → e.1 = .v0 ∨ e.1 = .a3 := by decide
      refine (hkept r ⟨hr.2.2.2.2.1, hr.2.2.2.2.2⟩ fun o ho he => (hoff _ he ho).elim hr.1 hr.2.2.1).trans ?_
      simp [Core.get, Core.set, raise, hr.1]
    rw [hget .ra (by decide)] at hm
    rw [hregs (.v0, 44) (by decide), hregs (.a3, 64) (by decide)] at hret
    refine ⟨_, k₄, (steps_add hback).trans hm, fun r hr => (hret.regs r hr).trans (hget r hr), fun h0 => ?_, fun h1 => ?_⟩
    · exact ⟨(hret.success h0).1, fun a ha => ((hret.success h0).2 a ha).trans (hlow a ha)⟩
    · obtain ⟨hv0, herr, hother⟩ := hret.failure h1
      exact ⟨hv0, herr, fun a ha hne => (hother a ha hne).trans (hlow a ha)⟩

def demoCalls : Text := demoText [(0x400100, SYSCALL 0x400200 8), (0x400200, __syscall 0x10000000)]

def demoUser : Core := { demo.core with reg := updates (fun _ => 0) [(.a0, 5), (.ra, 0x400300)] }

/-- `reboot` with a code that there is not: -1, and `EINVAL` in `errno`. -/
theorem system_call_returns_reboot : ∃ k₁ k₂ m k₃, Served ⟨fun _ => 0, fun _ => true⟩ [] [] k₁ k₂ ∧
    steps demoCalls m ⟨k₁.reg .ra, k₁.reg .ra + 4, k₂⟩ = some ⟨0x400300, 0x400304, k₃⟩ ∧
    k₃.reg .v0 = -1 ∧ k₃.mem 0x10000000 = BitVec.ofNat 32 (errnoNumber .EINVAL) := by
  have hstub : At demoCalls 0x400100 (SYSCALL 0x400200 8) := by decide +kernel
  have hsys : At demoCalls 0x400200 (__syscall 0x10000000) := by decide +kernel
  have hload : Loaded demoCalls demoSymbols demoVec := ⟨by decide +kernel, by decide +kernel, by decide⟩
  have hstack : Room demoSymbols (raise (demoUser.set .v0 8) 0x400200 0x20 0) := ⟨by decide, by decide⟩
  obtain ⟨-, n, k₁, -, hsp, htf, hret⟩ := system_call_returns hstub hsys (by decide) hload rfl hstack
  let k₂ : Core := { k₁ with
    mem := updates k₁.mem (fields (k₁.reg .sp) [(44, BitVec.ofNat 32 (errnoNumber .EINVAL)), (64, 1), (160, 0x400204)])
    late := none }
  have hserved : Served ⟨fun _ => 0, fun _ => true⟩ [] [] k₁ k₂ := by
    refine ⟨⟨rfl, rfl, fun o _ ho => ?_, fun a ha => ?_⟩, ?_⟩
    · exact (updates_fields _ _ _ _).trans (updates_of_notMem (by simpa using ho))
    · have htop : k₁.reg .sp = 0x80010f5c := hsp.trans rfl
      refine updates_fields_of_notMem fun e he heq => ?_
      rw [htop] at heq
      simp only [List.mem_cons, List.not_mem_nil, or_false] at he
      rcases he with rfl | rfl | rfl <;> subst heq <;> revert ha <;> decide
    · have hframe : trapframe k₂ (k₁.reg .sp) = { trapframe k₁ (k₁.reg .sp) with
          tf_v0 := errnoNumber .EINVAL, tf_a3 := 1, tf_epc := 0x400204 } := by
        simp only [trapframe, k₂, updates_fields]
        rfl
      rw [hframe, htf]
      decide +kernel
  obtain ⟨m, k₃, hm, h⟩ := hret _ _ _ k₂ hserved
  have hv0 : k₂.mem (k₁.reg .sp + 44) = BitVec.ofNat 32 (errnoNumber .EINVAL) := updates_fields _ _ _ _
  have ha3 : k₂.mem (k₁.reg .sp + 64) = 1 := updates_fields _ _ _ _
  rw [hv0, ha3] at h
  obtain ⟨h1, h2, -⟩ := h.failure (by decide)
  exact ⟨k₁, k₂, m, k₃, hserved, hm, h1, h2⟩

end Os161.Syscall
