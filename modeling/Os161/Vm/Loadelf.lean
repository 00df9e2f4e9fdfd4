import Os161.Kern.Uio
import Os161.Vm.Addrspace

/-! # `userprog/loadelf.c`: loading a program

With `copyinout.c` and `uio.c` down to single bytes of physical memory.
-/

namespace Os161.Elf

open Prog Words

inductive Piece where
  | bytes (n : Nat)
  | short
  | fails (e : Errno)
  deriving DecidableEq, Repr

/-- `switches` says before which accesses to user memory the thread is switched away and back, and `pieces` in which
pieces a read is delivered. -/
structure Vm where
  ram : Ram
  t_vmspace : Option Addrspace
  tlb : Tlb
  mem : Mem
  switches : List Bool
  pieces : List Piece

abbrev VmM := Prog VmPanic Errno Vm

/-- `struct uio`. A kernel address points `iov_base` bytes into `iov_kbuf`, and spaces are compared by
value, as there is only one. -/
structure Uio where
  iov_kbuf : Mem
  iov_base : Nat
  iov_len : Nat
  uio_offset : Int
  uio_resid : Nat
  uio_segflg : UioSeg
  uio_rw : UioRw
  uio_space : Option Addrspace

/-! ## User memory -/

def switch_back : VmM Unit := fun vm =>
  match vm.switches with
  | [] => .ok (.ok (), vm)
  | b :: rest => .ok (.ok (), { vm with switches := rest, tlb := if b then as_activate else vm.tlb })

/-- An access to the user address `va`: the hardware traps if it has no entry, and tries again after
`vm_fault`. `mips_trap` and `copyfail` turn the errors of `vm_fault` into `EFAULT`. -/
def user_access (ft : FaultType) (va : Nat) : VmM Nat := do
  switch_back
  let vm ← get
  match vm.tlb.lookup (pageFrame va) with
  | some pa => pure (pa + va % PAGE_SIZE)
  | none =>
    match ← attempt (zoom Vm.tlb (fun tlb vm => { vm with tlb := tlb }) (vm_fault ft va vm.t_vmspace)) with
    | .error _ => throw .EFAULT
    | .ok _ =>
      match (← get).tlb.lookup (pageFrame va) with
      | some pa => pure (pa + va % PAGE_SIZE)
      | none => throw .EFAULT

/-- There is memory below `lastpaddr` only. -/
def user_store (va : Nat) (b : Byte) : VmM Unit := do
  let pa ← user_access .VM_FAULT_WRITE va
  let vm ← get
  ensure (pa < vm.ram.lastpaddr) .bus_error
  set { vm with mem := Function.update vm.mem pa b }

def user_load (va : Nat) : VmM Byte := do
  let pa ← user_access .VM_FAULT_READ va
  let vm ← get
  ensure (pa < vm.ram.lastpaddr) .bus_error
  pure (vm.mem pa)

def copycheck (userptr len : Nat) : Except Errno Nat :=
  let bot := userptr
  let top := (bot + len + (2 ^ 32 - 1)) % 2 ^ 32
  if top < bot then .error .EFAULT
  else if bot ≥ USERTOP then .error .EFAULT
  else if top ≥ USERTOP then .ok (USERTOP - bot)
  else .ok len

def memcpy_out (src : Mem) (at_src : Nat) : Nat → Nat → VmM Unit
  | _, 0 => pure ()
  | dest, len + 1 => do
    user_store dest (src at_src)
    memcpy_out src (at_src + 1) (dest + 1) len

def memcpy_in (dst : Mem) (at_dst : Nat) : Nat → Nat → VmM Mem
  | _, 0 => pure dst
  | usersrc, len + 1 => do
    let b ← user_load usersrc
    memcpy_in (Function.update dst at_dst b) (at_dst + 1) (usersrc + 1) len

def copyout (src : Mem) (at_src userdest len : Nat) : VmM Unit := do
  let stoplen ← finish (copycheck userdest len)
  if stoplen ≠ len then throw .EFAULT
  else memcpy_out src at_src userdest len

def copyin (usersrc : Nat) (dest : Mem) (at_dest len : Nat) : VmM Mem := do
  let stoplen ← finish (copycheck usersrc len)
  if stoplen ≠ len then throw .EFAULT
  else memcpy_in dest at_dest usersrc len

/-! ## `uio.c` -/

namespace Uio

def moved (u : Uio) (size : Nat) : Uio :=
  { u with
    iov_base := (u.iov_base + size) % 2 ^ 32
    iov_len := u.iov_len - size
    uio_resid := toU32 (u.uio_resid - size)
    uio_offset := toI32 (u.uio_offset + size) }

end Uio

def uiomove_turn (ptr : Mem) (pos size : Nat) : Prog VmPanic Errno (Vm × Uio) Mem := do
  let (_, u) ← get
  match u.uio_segflg, u.uio_rw with
  | .UIO_SYSSPACE, .UIO_READ =>
    modify fun (vm, u) => (vm, ({ u with iov_kbuf := u.iov_kbuf.copy u.iov_base ptr pos size } : Uio).moved size)
    pure ptr
  | .UIO_SYSSPACE, .UIO_WRITE =>
    modify fun (vm, u) => (vm, u.moved size)
    pure (ptr.copy pos u.iov_kbuf u.iov_base size)
  | _, .UIO_READ =>
    first (copyout ptr pos u.iov_base size)
    modify fun (vm, u) => (vm, u.moved size)
    pure ptr
  | _, .UIO_WRITE =>
    let ptr ← first (copyin u.iov_base ptr pos size)
    modify fun (vm, u) => (vm, u.moved size)
    pure ptr

def uiomove_loop : Nat → Mem → Nat → Nat → Prog VmPanic Errno (Vm × Uio) Mem
  | 0, ptr, _, _ => pure ptr
  | fuel + 1, ptr, pos, n => do
    let (_, u) ← get
    if n > 0 ∧ u.uio_resid > 0 then
      let size := min u.iov_len n
      ensure (size ≠ 0) .uiomove_size
      let ptr ← uiomove_turn ptr pos size
      uiomove_loop fuel ptr (pos + size) (n - size)
    else
      pure ptr

def uiomove (ptr : Mem) (n : Nat) : Prog VmPanic Errno (Vm × Uio) Mem := do
  let (vm, u) ← get
  ensure (u.uio_space = if u.uio_segflg = .UIO_SYSSPACE then none else vm.t_vmspace) .uiomove_space
  uiomove_loop n ptr 0 n

def uiomovezeros_loop : Nat → Nat → Prog VmPanic Errno (Vm × Uio) Unit
  | 0, _ => pure ()
  | fuel + 1, n => do
    if n > 0 then
      let amt := min 16 n
      let _ ← uiomove (fun _ => 0) amt
      uiomovezeros_loop fuel (n - amt)
    else
      pure ()

def uiomovezeros (n : Nat) : Prog VmPanic Errno (Vm × Uio) Unit := do
  let (_, u) ← get
  ensure (u.uio_rw = .UIO_READ) .uiomovezeros_rw
  uiomovezeros_loop n n

def mk_kuio (len : Nat) (pos : Int) (rw : UioRw) : Uio where
  iov_kbuf := fun _ => 0
  iov_base := 0
  iov_len := len
  uio_offset := pos
  uio_resid := len
  uio_segflg := .UIO_SYSSPACE
  uio_rw := rw
  uio_space := none

/-! ## The file -/

abbrev File := List Byte

/-- The bytes that are left from an offset on: none for an offset outside the file. -/
def File.left (file : File) (offset : Int) : Nat := if offset < 0 then 0 else file.length - offset.toNat

def File.from (file : File) (offset : Int) : Mem := fun i => file.getD (offset.toNat + i) 0

def next_piece : Prog VmPanic Errno (Vm × Uio) (Option Piece) := fun (vm, u) =>
  match vm.pieces with
  | [] => .ok (.ok none, (vm, u))
  | p :: rest => .ok (.ok (some p), ({ vm with pieces := rest }, u))

/-- `VOP_READ` of a regular file: the bytes at `uio_offset` go through `uiomove` piece by piece. Every
turn but the last moves at least one byte. -/
def VOP_READ_loop (file : File) : Nat → Prog VmPanic Errno (Vm × Uio) Unit
  | 0 => pure ()
  | fuel + 1 => do
    let (_, u) ← get
    let len := min u.uio_resid (file.left u.uio_offset)
    if len = 0 then
      pure ()
    else
      match ← next_piece with
      | none =>
        let _ ← uiomove (file.from u.uio_offset) len
        pure ()
      | some (.bytes n) =>
        let _ ← uiomove (file.from u.uio_offset) (min (n + 1) len)
        VOP_READ_loop file fuel
      | some .short => pure ()
      | some (.fails e) => throw e

def VOP_READ (file : File) : Prog VmPanic Errno (Vm × Uio) Unit := do
  let (_, u) ← get
  VOP_READ_loop file u.uio_resid

/-! ## `elf.h` -/

structure Ehdr where
  e_ident : Fin 16 → Byte
  e_type : Nat
  e_machine : Nat
  e_version : Nat
  e_entry : Nat
  e_phoff : Nat
  e_phentsize : Nat
  e_phnum : Nat

abbrev EHDRSIZE : Nat := 52

def Ehdr.decode (m : Mem) : Ehdr where
  e_ident := fun i => m i
  e_type := wordAt m 4 / 2 ^ 16
  e_machine := wordAt m 4 % 2 ^ 16
  e_version := wordAt m 5
  e_entry := wordAt m 6
  e_phoff := wordAt m 7
  e_phentsize := wordAt m 10 % 2 ^ 16
  e_phnum := wordAt m 11 / 2 ^ 16

structure Phdr where
  p_type : Nat
  p_offset : Nat
  p_vaddr : Nat
  p_filesz : Nat
  p_memsz : Nat
  p_flags : Nat
  deriving DecidableEq, Repr

abbrev PHDRSIZE : Nat := 32

def Phdr.decode (m : Mem) : Phdr where
  p_type := wordAt m 0
  p_offset := wordAt m 1
  p_vaddr := wordAt m 2
  p_filesz := wordAt m 4
  p_memsz := wordAt m 5
  p_flags := wordAt m 6

abbrev PT_NULL : Nat := 0
abbrev PT_LOAD : Nat := 1
abbrev PT_PHDR : Nat := 6
abbrev PT_MIPS_REGINFO : Nat := 0x70000000

def Ehdr.Supported (eh : Ehdr) : Prop :=
  eh.e_ident 0 = 0x7f ∧ eh.e_ident 1 = 0x45 ∧ eh.e_ident 2 = 0x4c ∧ eh.e_ident 3 = 0x46 ∧
  eh.e_ident 4 = 1 ∧ eh.e_ident 5 = 2 ∧ eh.e_ident 6 = 1 ∧
  eh.e_version = 1 ∧ eh.e_type = 2 ∧ eh.e_machine = 8

instance Ehdr.decidableSupported (eh : Ehdr) : Decidable eh.Supported := by unfold Ehdr.Supported; infer_instance

/-! ## `load_elf` -/

def load_segment (file : File) (offset : Int) (vaddr memsize filesize : Nat) (is_executable : Bool) : VmM Unit := do
  let filesize := min filesize memsize
  let vm ← get
  let u : Uio :=
    { iov_kbuf := fun _ => 0
      iov_base := vaddr
      iov_len := memsize
      uio_resid := filesize
      uio_offset := offset
      uio_segflg := if is_executable then .UIO_USERISPACE else .UIO_USERSPACE
      uio_rw := .UIO_READ
      uio_space := vm.t_vmspace }
  let (_, u) ← withVar u (VOP_READ file)
  if u.uio_resid ≠ 0 then throw .ENOEXEC
  let fillamt := memsize - filesize
  if fillamt > 0 then
    let _ ← withVar { u with uio_resid := u.uio_resid + fillamt } (uiomovezeros fillamt)
    pure ()

def read_header (file : File) (len : Nat) (offset : Int) : VmM Mem := do
  let (_, ku) ← withVar (mk_kuio len offset .UIO_READ) (VOP_READ file)
  if ku.uio_resid ≠ 0 then throw .ENOEXEC
  pure ku.iov_kbuf

def load_elf_loop (file : File) (eh : Ehdr) (body : Phdr → VmM Unit) : Nat → Nat → VmM Unit
  | _, 0 => pure ()
  | i, n + 1 => do
    let offset := toI32 (eh.e_phoff + i * eh.e_phentsize)
    let ph := Phdr.decode (← read_header file PHDRSIZE offset)
    if ph.p_type = PT_NULL ∨ ph.p_type = PT_PHDR ∨ ph.p_type = PT_MIPS_REGINFO then
      load_elf_loop file eh body (i + 1) n
    else if ph.p_type = PT_LOAD then
      body ph
      load_elf_loop file eh body (i + 1) n
    else
      throw .ENOEXEC

def define_segment (ph : Phdr) : VmM Unit := do
  let vm ← get
  match vm.t_vmspace with
  | none => pure ()
  | some as =>
    let as ← finish (as_define_region ph.p_vaddr ph.p_memsz as)
    set { vm with t_vmspace := some as }

def prepare_load : VmM Unit := do
  let vm ← get
  match vm.t_vmspace with
  | none => pure ()
  | some as =>
    zoom (fun vm => (as, vm.ram)) (fun t vm => { vm with t_vmspace := some t.1, ram := t.2 }) as_prepare_load

def load_phdr (file : File) (ph : Phdr) : VmM Unit :=
  load_segment file (toI32 ph.p_offset) ph.p_vaddr ph.p_memsz ph.p_filesz (ph.p_flags % 2 = 1)

def load_elf (file : File) : VmM Nat := do
  let eh := Ehdr.decode (← read_header file EHDRSIZE 0)
  if ¬ eh.Supported then throw .ENOEXEC
  load_elf_loop file eh define_segment 0 eh.e_phnum
  prepare_load
  load_elf_loop file eh (load_phdr file) 0 eh.e_phnum
  pure eh.e_entry

def Vm.Fresh (vm : Vm) : Prop := vm.t_vmspace = some as_create ∧ vm.tlb = as_activate ∧ vm.ram.Ok

end Os161.Elf
