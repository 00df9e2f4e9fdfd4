import Os161.Lib.Prog
import Os161.Kern.Basic

/-! # `userprog/uio.c`: moving data between the kernel and a caller -/

namespace Os161

open Prog Words

inductive UioRw where
  | UIO_READ | UIO_WRITE
  deriving DecidableEq, Repr

inductive UioSeg where
  | UIO_USERSPACE | UIO_SYSSPACE | UIO_USERISPACE
  deriving DecidableEq, Repr

/-- `struct uio`. The iovec points `iov_base` bytes into the caller's memory. An access to an address
that is not mapped fails in `copyin` and `copyout`. -/
structure Uio where
  iov_mem : Mem
  iov_mapped : Nat → Bool
  iov_base : Nat
  iov_len : Nat
  uio_offset : Int
  uio_resid : Nat
  uio_segflg : UioSeg
  uio_rw : UioRw

namespace Uio

/-- The caller's `size` bytes cannot be reached. -/
def faults (u : Uio) (size : Nat) : Bool :=
  u.uio_segflg ≠ .UIO_SYSSPACE ∧ ¬ ∀ i < size, u.iov_mapped (u.iov_base + i) = true

def fetch (u : Uio) (ptr : Mem) (pos size : Nat) : Mem :=
  match u.uio_rw with
  | .UIO_READ => ptr
  | .UIO_WRITE => ptr.copy pos u.iov_mem u.iov_base size

def moved (u : Uio) (ptr : Mem) (pos size : Nat) : Uio :=
  { u with
    iov_mem :=
      match u.uio_rw with
      | .UIO_READ => u.iov_mem.copy u.iov_base ptr pos size
      | .UIO_WRITE => u.iov_mem
    iov_base := u.iov_base + size
    iov_len := u.iov_len - size
    uio_resid := toU32 (u.uio_resid - size)
    uio_offset := toI32 (u.uio_offset + size) }

end Uio

/-- The loop of `uiomove`: `pos` is how far `ptr` has advanced, `n` what is left to move. Every turn
moves at least one byte. -/
def uiomove_loop : Nat → Mem → Nat → Nat → Prog Panic Errno Uio Mem
  | 0, ptr, _, _ => pure ptr
  | fuel + 1, ptr, pos, n => do
    let uio ← get
    if n > 0 ∧ uio.uio_resid > 0 then
      let size := min uio.iov_len n
      ensure (size ≠ 0) .uiomove_size
      if uio.faults size then
        throw .EFAULT
      else
        set (uio.moved ptr pos size)
        uiomove_loop fuel (uio.fetch ptr pos size) (pos + size) (n - size)
    else
      pure ptr

def uiomove (ptr : Mem) (n : Nat) : Prog Panic Errno Uio Mem := uiomove_loop n ptr 0 n

def uiomovezeros_loop : Nat → Nat → Prog Panic Errno Uio Unit
  | 0, _ => pure ()
  | fuel + 1, n => do
    if n > 0 then
      let amt := min 16 n
      let _ ← uiomove (fun _ => 0) amt
      uiomovezeros_loop fuel (n - amt)
    else
      pure ()

def uiomovezeros (n : Nat) : Prog Panic Errno Uio Unit := do
  let uio ← get
  ensure (uio.uio_rw = .UIO_READ) .uiomovezeros_rw
  uiomovezeros_loop n n

def mk_kuio (kbuf : Mem) (len : Nat) (pos : Int) (rw : UioRw) : Uio where
  iov_mem := kbuf
  iov_mapped := fun _ => true
  iov_base := 0
  iov_len := len
  uio_offset := pos
  uio_resid := len
  uio_segflg := .UIO_SYSSPACE
  uio_rw := rw

/-! ## One move -/

section Specs

variable {u : Uio} {p : Mem} {pos n m : Nat}

theorem faults_sysspace (h : u.uio_segflg = .UIO_SYSSPACE) (size : Nat) : u.faults size = false := by
  simp [Uio.faults, h]

theorem uiomove_loop_run (hn : 0 < n) (hres : 0 < u.uio_resid) (hm : min u.iov_len n = m) (hpos : 0 < m)
    (hend : n ≤ m ∨ (u.moved p pos m).uio_resid = 0) (fuel : Nat) :
    uiomove_loop (fuel + 1) p pos n u =
      if u.faults m then .ok (.error .EFAULT, u)
      else .ok (.ok (u.fetch p pos m), u.moved p pos m) := by
  rw [uiomove_loop, bind_ok (get_run u), if_pos ⟨hn, hres⟩]
  simp only [hm]
  rw [bind_ok (ensure_run _ _ _ (by omega))]
  by_cases hf : u.faults m
  · rw [if_pos hf, if_pos hf]; rfl
  · rw [if_neg hf, if_neg hf, bind_ok (set_run _ _)]
    cases fuel with
    | zero => rw [uiomove_loop]; rfl
    | succ fuel => rw [uiomove_loop, bind_ok (get_run _), if_neg (by omega)]; rfl

theorem uiomove_run (hlen : n ≤ u.iov_len) (hres : n ≤ u.uio_resid) (hn : 0 < n) :
    uiomove p n u =
      if u.faults n then .ok (.error .EFAULT, u)
      else .ok (.ok (u.fetch p 0 n), u.moved p 0 n) := by
  obtain ⟨fuel, rfl⟩ : ∃ fuel, n = fuel + 1 := ⟨n - 1, by omega⟩
  exact uiomove_loop_run hn (by omega) (Nat.min_eq_right hlen) hn (.inl (Nat.le_refl _)) fuel

theorem uiomove_end (hlen : u.iov_len = u.uio_resid) (hpos : 0 < u.uio_resid) (h32 : u.uio_resid < 2 ^ 32)
    (hn : u.uio_resid ≤ n) :
    uiomove p n u =
      if u.faults u.uio_resid then .ok (.error .EFAULT, u)
      else .ok (.ok (u.fetch p 0 u.uio_resid), u.moved p 0 u.uio_resid) := by
  obtain ⟨fuel, rfl⟩ : ∃ fuel, n = fuel + 1 := ⟨n - 1, by omega⟩
  have hempty : (u.moved p 0 u.uio_resid).uio_resid = 0 :=
    (toU32_sub (Nat.le_refl _) h32).trans (Nat.sub_self _)
  exact uiomove_loop_run (Nat.succ_pos _) hpos (by omega) hpos (.inr hempty) fuel

structure Uio.Fits (u : Uio) : Prop where
  len : u.uio_resid ≤ u.iov_len
  resid : u.uio_resid < 2 ^ 32
  nonneg : 0 ≤ u.uio_offset
  offset : u.uio_offset < 2 ^ 31

def Uio.off (u : Uio) : Nat := u.uio_offset.toNat

theorem Uio.Fits.off_eq (h : u.Fits) : (u.off : Int) = u.uio_offset := by
  have := h.nonneg
  unfold Uio.off; omega

/-! ## Moves in a row -/

@[simp] theorem moved_rw (u : Uio) (p : Mem) (pos n : Nat) : (u.moved p pos n).uio_rw = u.uio_rw := rfl

@[simp] theorem moved_base (u : Uio) (p : Mem) (pos n : Nat) :
    (u.moved p pos n).iov_base = u.iov_base + n := rfl

theorem moved_resid (hres : n ≤ u.uio_resid) (h32 : u.uio_resid < 2 ^ 32) :
    (u.moved p pos n).uio_resid = u.uio_resid - n :=
  toU32_sub hres h32

theorem moved_offset (h0 : 0 ≤ u.uio_offset) (h31 : u.uio_offset + n < 2 ^ 31) :
    (u.moved p pos n).uio_offset = u.uio_offset + n :=
  toI32_of_small (by omega) h31

theorem moved_mem_write (hrw : u.uio_rw = .UIO_WRITE) : (u.moved p pos n).iov_mem = u.iov_mem := by
  simp [Uio.moved, hrw]

theorem moved_zero (h32 : u.uio_resid < 2 ^ 32) (h0 : 0 ≤ u.uio_offset) (h31 : u.uio_offset < 2 ^ 31) :
    u.moved p pos 0 = u := by
  have hmem : u.iov_mem.copy u.iov_base p pos 0 = u.iov_mem := by
    funext i; simp only [Mem.copy]; rw [if_neg (by omega)]
  have h1 : toU32 (u.uio_resid - (0 : Nat)) = u.uio_resid := toU32_sub (Nat.zero_le _) h32
  have h2 := toI32_add_zero (by omega) h31
  cases u
  rename_i rw
  cases rw <;> simp_all [Uio.moved]

theorem moved_congr {p' : Mem} (h : ∀ i < n, p (pos + i) = p' (pos + i)) :
    u.moved p pos n = u.moved p' pos n := by
  have : u.iov_mem.copy u.iov_base p pos n = u.iov_mem.copy u.iov_base p' pos n := by
    funext i
    simp only [Mem.copy]
    split
    · exact h _ (by omega)
    · rfl
  simp only [Uio.moved, this]

theorem moved_moved (hres : n + m ≤ u.uio_resid) (h32 : u.uio_resid < 2 ^ 32) :
    (u.moved p 0 n).moved (fun i => p (n + i)) 0 m = u.moved p 0 (n + m) := by
  have hmem : (u.iov_mem.copy u.iov_base p 0 n).copy (u.iov_base + n) (fun i => p (n + i)) 0 m =
      u.iov_mem.copy u.iov_base p 0 (n + m) := by
    funext i
    simp only [Mem.copy]
    grind
  simp only [Uio.moved, toU32_sub_sub hres h32, toI32_add_add, Nat.sub_sub, Nat.add_assoc]
  cases u.uio_rw
  · simp only [hmem]
  · rfl

theorem Uio.Fits.moved (h : u.Fits) (hn : n ≤ u.uio_resid) (h31 : u.off + n < 2 ^ 31) :
    (u.moved p pos n).Fits where
  len := by
    rw [moved_resid hn h.resid]
    have := h.len
    exact Nat.sub_le_sub_right this n
  resid := by rw [moved_resid hn h.resid]; have := h.resid; omega
  nonneg := by
    have := h.off_eq
    rw [moved_offset h.nonneg (by omega)]; omega
  offset := by
    have := h.off_eq
    rw [moved_offset h.nonneg (by omega)]; omega

theorem Uio.Fits.moved_off (h : u.Fits) (h31 : u.off + n < 2 ^ 31) :
    (u.moved p pos n).off = u.off + n := by
  have := h.off_eq
  rw [Uio.off, moved_offset h.nonneg (by omega)]
  omega

theorem Uio.Fits.uiomove_run (h : u.Fits) (hn : n ≤ u.uio_resid) :
    uiomove p n u =
      if u.faults n then .ok (.error .EFAULT, u)
      else .ok (.ok (u.fetch p 0 n), u.moved p 0 n) := by
  rcases Nat.eq_zero_or_pos n with rfl | hpos
  · have hf : u.faults 0 = false := by simp [Uio.faults]
    have hfetch : u.fetch p 0 0 = p := by
      unfold Uio.fetch
      split
      · rfl
      · funext i; simp [Mem.copy]
    rw [hf, moved_zero h.resid h.nonneg h.offset, hfetch]
    rfl
  · exact Os161.uiomove_run (Nat.le_trans hn h.len) hn hpos

/-! ## Faults and zeros -/

def Uio.Safe (u : Uio) : Prop := u.uio_segflg = .UIO_SYSSPACE ∨ ∀ i, u.iov_mapped i = true

theorem faults_of_safe (h : u.Safe) (size : Nat) : u.faults size = false := by
  rcases h with h | h
  · exact faults_sysspace h size
  · simp [Uio.faults, h]

theorem uiomovezeros_loop_spec {fuel : Nat} (hrw : u.uio_rw = .UIO_READ) (hn : 0 < n) (hfuel : n ≤ fuel)
    (hlen : n ≤ u.iov_len) (hres : n ≤ u.uio_resid) (h32 : u.uio_resid < 2 ^ 32) :
    uiomovezeros_loop fuel n u = .ok (.ok (), u.moved (fun _ => 0) 0 n) ∨
    ¬ u.Safe ∧ ∃ u', uiomovezeros_loop fuel n u = .ok (.error .EFAULT, u') ∧
      (u' = u ∨ ∃ m ≤ n, u' = u.moved (fun _ => 0) 0 m) := by
  induction fuel generalizing u n with
  | zero => omega
  | succ fuel ih =>
    have hrun := @uiomove_run u (fun _ => 0) (min 16 n) (by omega) (by omega) (by omega)
    have hfetch : u.fetch (fun _ => 0) 0 (min 16 n) = fun _ => 0 := by simp [Uio.fetch, hrw]
    rw [uiomovezeros_loop, if_pos hn]
    by_cases hf : u.faults (min 16 n)
    · rw [if_pos hf] at hrun
      refine Or.inr ⟨fun h => ?_, u, bind_error hrun, .inl rfl⟩
      rw [faults_of_safe h] at hf; cases hf
    rw [if_neg hf, hfetch] at hrun
    rw [bind_ok hrun]
    rcases Nat.lt_or_ge 16 n with h16 | h16
    · rw [Nat.min_eq_left (by omega)]
      have hres' : (u.moved (fun _ => 0) 0 16).uio_resid = u.uio_resid - 16 := by
        simp only [Uio.moved, toU32]; omega
      have hlen' : (u.moved (fun _ => 0) 0 16).iov_len = u.iov_len - 16 := rfl
      rcases ih (n := n - 16) (u := u.moved (fun _ => 0) 0 16) hrw (by omega) (by omega) (by omega)
        (by omega) (by omega) with h | ⟨hs, u', h, hu'⟩
      · left
        rw [h, moved_moved (p := fun _ => 0) (by omega) h32, show 16 + (n - 16) = n by omega]
      · refine Or.inr ⟨hs, u', h, .inr ?_⟩
        rcases hu' with rfl | ⟨m, hm, rfl⟩
        · exact ⟨16, by omega, rfl⟩
        · exact ⟨16 + m, by omega, moved_moved (p := fun _ => 0) (by omega) h32⟩
    · left
      rw [Nat.min_eq_right h16, Nat.sub_self]
      cases fuel with
      | zero => rw [uiomovezeros_loop]; rfl
      | succ fuel => rw [uiomovezeros_loop, if_neg (by omega)]; rfl

theorem uiomovezeros_spec (hrw : u.uio_rw = .UIO_READ) (hn : 0 < n) (hlen : n ≤ u.iov_len)
    (hres : n ≤ u.uio_resid) (h32 : u.uio_resid < 2 ^ 32) :
    uiomovezeros n u = .ok (.ok (), u.moved (fun _ => 0) 0 n) ∨
    ¬ u.Safe ∧ ∃ u', uiomovezeros n u = .ok (.error .EFAULT, u') ∧
      (u' = u ∨ ∃ m ≤ n, u' = u.moved (fun _ => 0) 0 m) := by
  rw [uiomovezeros, bind_ok (get_run u), bind_ok (ensure_run _ _ _ hrw)]
  exact uiomovezeros_loop_spec hrw hn (Nat.le_refl n) hlen hres h32

end Specs

end Os161
