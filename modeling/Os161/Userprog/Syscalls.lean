import Os161.Lib.Prog
import Os161.Kern.Basic
import Os161.Libc.Printf
import Os161.Vm.Addrspace

/-! # System calls

`mips_syscall` and `userprog/simple_syscalls.c`. The arguments come from the user's registers, and the kernel
reads memory at any address they hold.
-/

namespace Os161.Syscalls

open Prog Words Printf

/-- The memory of the machine as kernel code finds it: an access to an address that is not mapped is a fatal fault. -/
structure Memory where
  byte : Mem
  mapped : Nat → Bool

abbrev Console := List Byte

/-- Where a system call does not come back. -/
inductive Leave where
  | kernel_fault (va : Nat)
  | printf (p : Printf.Stop)
  | shutdown (code : Int)
  | thread_exit (code : Int)
  deriving DecidableEq, Repr

abbrev Sys := Prog Leave Errno Console

abbrev SYS__exit : Int := 0
abbrev SYS_reboot : Int := 8
abbrev SYS_printint : Int := 32
abbrev SYS_reversestring : Int := 33

def console_send (con : Console) (data : List Byte) : Console := con ++ data

def kprintf (fmt : String) (ap : List UInt32) : Sys Unit := fun con =>
  match vprintf console_send (fun _ => []) con (fmt.toList.map ch) ap with
  | .ok (_, pf) => .ok (.ok (), pf.clientdata)
  | .error p => .error (.printf p)

def word (x : Int) : UInt32 := UInt32.ofNat (toU32 x)

def promote (b : Byte) : UInt32 := ⟨b.signExtend 32⟩

def load (mem : Memory) (va : Nat) : Sys Byte := do
  ensure (mem.mapped va = true) (.kernel_fault va)
  pure (mem.byte va)

def sys_reboot (code : Int) : Sys Int :=
  if code = 0 ∨ code = 1 ∨ code = 2 then stop (.shutdown code) else throw .EINVAL

def sys__exit (exitCode : Int) : Sys Int := do
  kprintf "_exit exitCode: %d\n" [word exitCode]
  stop (.thread_exit exitCode)

def sys_printint (c : Int) : Sys Int := do
  kprintf "%d\n" [word c]
  pure (if c.tmod 5 ≠ 0 then 1 else 0)

def reversestring_loop (mem : Memory) (str : Nat) : Nat → Int → Sys Unit
  | 0, _ => pure ()
  | fuel + 1, len => do
    if len ≥ 0 then
      let c ← load mem ((str + len.toNat) % 2 ^ 32)
      kprintf "%c" [promote c]
      reversestring_loop mem str fuel (toI32 (len - 1))
    else
      pure ()

def sys_reversestring (mem : Memory) (str : Nat) (len : Int) : Sys Int := do
  let og_len := len
  let len := toI32 (len - 1)
  reversestring_loop mem str (len + 1).toNat len
  kprintf "\n" []
  pure (if og_len.tmod 2 = 0 then 1 else 0)

structure Trapframe where
  tf_v0 : Nat
  tf_a0 : Nat
  tf_a1 : Nat
  tf_a3 : Nat
  tf_epc : Nat
  deriving DecidableEq, Repr

/-- The numbers of `kern/errno.h`, which has them in this order from 1 on. -/
def errnoNumber (e : Errno) : Nat := e.ctorIdx + 1

def mips_syscall (mem : Memory) (tf : Trapframe) : Sys Trapframe := do
  let callno := toI32 tf.tf_v0
  let result ← attempt (do
    if callno = SYS_reboot then sys_reboot (toI32 tf.tf_a0)
    else if callno = SYS__exit then sys__exit (toI32 tf.tf_a0)
    else if callno = SYS_printint then sys_printint (toI32 tf.tf_a0)
    else if callno = SYS_reversestring then sys_reversestring mem tf.tf_a0 (toI32 tf.tf_a1)
    else
      kprintf "Unknown syscall %d\n" [word callno]
      throw .ENOSYS)
  let epc := (tf.tf_epc + 4) % 2 ^ 32
  match result with
  | .error err => pure { tf with tf_v0 := errnoNumber err, tf_a3 := 1, tf_epc := epc }
  | .ok retval => pure { tf with tf_v0 := toU32 retval, tf_a3 := 0, tf_epc := epc }

/-! ## Printing -/

section Printing

variable {con : Console}

theorem promote_low (b : Byte) : BitVec.ofNat 8 (promote b).toNat = b := by
  revert b
  decide

theorem printstuff_plain (pf : PF Console) (h : toI32 pf.charcount = pf.charcount) (hs : pf.spacing = 0)
    {stuff : List Byte} (hlen : stuff.length ≤ 1) :
    (pf_printstuff console_send pf [] [] stuff).clientdata = pf.clientdata ++ stuff := by
  have hl : ¬ (0 : Int) > toI32 (stuff.length : Int) := by
    rw [toI32_of_small (by omega) (by omega)]
    omega
  rw [pf_printstuff_eq pf h, hs]
  simp [stuffTexts, PF.sent, console_send, hl]

theorem send_percent (pf : PF Console) (h : pf.in_pct = false) :
    pf_send console_send (fun _ => []) pf (ch '%') = .ok { pf with in_pct := true } := by
  simp only [pf_send, h]
  rfl

theorem send_c (pf : PF Console) (h : pf.in_pct = true) {w : UInt32} {ap : List UInt32} (hap : pf.ap = w :: ap) :
    pf_send console_send (fun _ => []) pf (ch 'c') =
      .ok (pf_endfield (pf_printstuff console_send { pf with ap := ap } [] [] (oneChar (BitVec.ofNat 8 w.toNat)))) := by
  simp only [pf_send, h, va_arg, hap]
  rfl

theorem kprintf_char (b : Byte) : kprintf "%c" [promote b] con = .ok (.ok (), con ++ oneChar b) := by
  have hlen : (oneChar b).length ≤ 1 := by
    unfold oneChar
    split <;> simp
  have hsent := printstuff_plain { start con [promote b] 0 with in_pct := true, ap := [] } rfl rfl hlen
  have hend : ∀ pf : PF Console, (pf_endfield pf).clientdata = pf.clientdata := fun _ => rfl
  have hfmt : "%c".toList.map ch = [ch '%', ch 'c'] := rfl
  simp only [kprintf, vprintf, hfmt, List.foldlM_cons, List.foldlM_nil, send_percent (start con [promote b] 0) rfl]
  simp only [bind, Except.bind, send_c { start con [promote b] 0 with in_pct := true } rfl rfl, promote_low, pure,
    Except.pure]
  rw [hend, hsent]
  rfl

theorem kprintf_newline : kprintf "\n" [] con = .ok (.ok (), con ++ [ch '\n']) := rfl

end Printing

/-! ## The string -/

section Reverse

variable {mem mem' : Memory} {str n : Nat} {con : Console} {tf : Trapframe}

def SameUser (mem mem' : Memory) : Prop :=
  ∀ a < USERTOP, mem'.mapped a = mem.mapped a ∧ mem'.byte a = mem.byte a

theorem reversestring_loop_succ (hn : n < 2 ^ 31) (hrange : str + n < 2 ^ 32) :
    reversestring_loop mem str (n + 1) n = (do
      let c ← load mem (str + n)
      kprintf "%c" [promote c]
      reversestring_loop mem str n (n - 1)) := by
  have haddr : (str + (n : Int).toNat) % 2 ^ 32 = str + n := by omega
  have hnext : toI32 ((n : Int) - 1) = (n : Int) - 1 := toI32_of_small (by omega) (by omega)
  rw [reversestring_loop, if_pos (by omega), haddr, hnext]

theorem load_run {va : Nat} (hmap : mem.mapped va = true) : load mem va con = .ok (.ok (mem.byte va), con) := by
  rw [load, bind_ok (ensure_run _ _ _ hmap)]
  rfl

theorem reversestring_loop_run (hn : n < 2 ^ 31) (hrange : str + n ≤ 2 ^ 32)
    (hmap : ∀ i < n, mem.mapped (str + i) = true) :
    reversestring_loop mem str n (n - 1) con =
      .ok (.ok (), con ++ (List.range n).reverse.flatMap fun i => oneChar (mem.byte (str + i))) := by
  induction n generalizing con with
  | zero => simp [reversestring_loop]
  | succ n ih =>
    have hlast : ((n + 1 : Nat) : Int) - 1 = n := by omega
    rw [hlast, reversestring_loop_succ (by omega) (by omega), bind_ok (load_run (hmap n (by omega))),
      bind_ok (kprintf_char _), ih (by omega) (by omega) fun i hi => hmap i (by omega), List.range_succ]
    simp

theorem reversestring_loop_congr (hn : n < 2 ^ 31) (hrange : str + n ≤ USERTOP) (hsame : SameUser mem mem') :
    reversestring_loop mem' str n (n - 1) = reversestring_loop mem str n (n - 1) := by
  have htop : USERTOP = 2 ^ 31 := rfl
  induction n with
  | zero => rfl
  | succ n ih =>
    have hlast : ((n + 1 : Nat) : Int) - 1 = n := by omega
    obtain ⟨hmap, hbyte⟩ := hsame (str + n) (by omega)
    have hload : load mem' (str + n) = load mem (str + n) := by rw [load, load, hmap, hbyte]
    rw [hlast, reversestring_loop_succ (by omega) (by omega), reversestring_loop_succ (by omega) (by omega), hload,
      ih (by omega) (by omega)]

theorem sys_reversestring_eq {len : Int} (hmin : -2 ^ 31 < len) (hmax : len < 2 ^ 31) :
    sys_reversestring mem str len = (do
      reversestring_loop mem str len.toNat (len.toNat - 1)
      kprintf "\n" []
      pure (if len.tmod 2 = 0 then 1 else 0)) := by
  have hdec : toI32 (len - 1) = len - 1 := toI32_of_small (by omega) (by omega)
  have hfuel : (len - 1 + 1).toNat = len.toNat := by omega
  simp only [sys_reversestring, hdec, hfuel]
  by_cases hpos : 0 ≤ len
  · rw [Int.toNat_of_nonneg hpos]
  · have hzero : len.toNat = 0 := by omega
    rw [hzero, reversestring_loop, reversestring_loop]

def reversed (mem : Memory) (str : Nat) (len : Int) : List Byte :=
  (List.range len.toNat).reverse.map fun i => mem.byte (str + i)

theorem flatMap_oneChar {l : List Byte} (h : ∀ b ∈ l, b ≠ 0) : l.flatMap oneChar = l := by
  induction l with
  | nil => rfl
  | cons b l ih =>
    obtain ⟨hb, hl⟩ := List.forall_mem_cons.1 h
    rw [List.flatMap_cons, ih hl, oneChar, if_neg hb]
    rfl

theorem sys_reversestring_run {len : Int} (hmin : -2 ^ 31 < len) (hmax : len < 2 ^ 31)
    (hrange : str + len.toNat ≤ 2 ^ 32) (hmap : ∀ i < len.toNat, mem.mapped (str + i) = true)
    (hchars : ∀ b ∈ reversed mem str len, b ≠ 0) :
    sys_reversestring mem str len con =
      .ok (.ok (if Even len then 1 else 0), con ++ reversed mem str len ++ [ch '\n']) := by
  have hloop : reversestring_loop mem str len.toNat (len.toNat - 1) con = _ :=
    reversestring_loop_run (by omega) hrange hmap
  have htext : ((List.range len.toNat).reverse.flatMap fun i => oneChar (mem.byte (str + i))) = reversed mem str len := by
    rw [← flatMap_oneChar hchars, reversed, List.flatMap_map]
  have heven : len.tmod 2 = 0 ↔ Even len := by rw [Int.even_iff, ← Int.dvd_iff_tmod_eq_zero, Int.dvd_iff_emod_eq_zero]
  rw [htext] at hloop
  rw [sys_reversestring_eq hmin hmax, bind_ok hloop, bind_ok kprintf_newline]
  simp only [heven]
  rfl

theorem mips_syscall_reversestring (hcall : toI32 tf.tf_v0 = SYS_reversestring) {retval : Int} {con' : Console}
    (h : sys_reversestring mem tf.tf_a0 (toI32 tf.tf_a1) con = .ok (.ok retval, con')) :
    mips_syscall mem tf con =
      .ok (.ok { tf with tf_v0 := toU32 retval, tf_a3 := 0, tf_epc := (tf.tf_epc + 4) % 2 ^ 32 }, con') := by
  have hno : SYS_reversestring ≠ SYS_reboot ∧ SYS_reversestring ≠ SYS__exit ∧ SYS_reversestring ≠ SYS_printint := by
    decide
  rw [mips_syscall, hcall, if_neg hno.1, if_neg hno.2.1, if_neg hno.2.2, if_pos rfl, bind_ok (attempt_ok h)]
  rfl

def hello : Memory where
  byte a := (("hello".toList.map ch)[a - 0x400000]?).getD 0
  mapped a := 0x400000 ≤ a

def kernelWith (x : Char) : Memory where
  byte a := if a = MIPS_KSEG0 then ch x else 0
  mapped _ := true

end Reverse

end Os161.Syscalls
