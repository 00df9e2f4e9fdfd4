import Os161.Kern.Uio
import Mathlib.Logic.Function.Basic

/-! # `dev/lamebus/lhd.c`: the disk -/

namespace Os161

open Prog Words

abbrev LHD_SECTSIZE : Nat := 512

/-- The disk behind a `struct device`. `eio` says which of the next sector operations the medium
fails; none after the last one. -/
structure Device where
  d_blocks : Nat
  sect : Nat → Mem
  eio : List Bool

def lhd_op (sector : Nat) : Prog Panic Errno Device Unit := do
  let d ← get
  if d.d_blocks ≤ sector then
    throw .EINVAL
  else
    set { d with eio := d.eio.tail }
    if d.eio.head? = some true then throw Errno.EIO else pure ()

def lhd_sector (sector : Nat) : Prog Panic Errno (Device × Uio) Unit := do
  let (_, uio) ← get
  match uio.uio_rw with
  | .UIO_WRITE =>
    let lh_buf ← second (uiomove (fun _ => 0) LHD_SECTSIZE)
    first (lhd_op sector)
    first (modify fun d => { d with sect := Function.update d.sect sector lh_buf })
  | .UIO_READ =>
    first (lhd_op sector)
    let (d, _) ← get
    let _ ← second (uiomove (d.sect sector) LHD_SECTSIZE)

def lhd_io_loop (sector : Nat) : Nat → Nat → Prog Panic Errno (Device × Uio) Unit
  | 0, _ => pure ()
  | len + 1, i => do
    lhd_sector ((sector + i) % 2 ^ 32)
    lhd_io_loop sector len (i + 1)

def lhd_io : Prog Panic Errno (Device × Uio) Unit := do
  let (d, uio) ← get
  let sector := toU32 (uio.uio_offset.tdiv LHD_SECTSIZE)
  let sectoff := toU32 (uio.uio_offset.tmod LHD_SECTSIZE)
  let len := uio.uio_resid / LHD_SECTSIZE
  let lenoff := uio.uio_resid % LHD_SECTSIZE
  if sectoff ≠ 0 ∨ lenoff ≠ 0 then
    throw .EINVAL
  else if (sector + len) % 2 ^ 32 > d.d_blocks then
    throw .EINVAL
  else
    lhd_io_loop sector len 0

/-! ## One sector -/

namespace Device

def fails (d : Device) : Bool := d.eio.head? = some true

def next (d : Device) : Device := { d with eio := d.eio.tail }

@[simp] theorem next_sect (d : Device) : d.next.sect = d.sect := rfl

@[simp] theorem next_d_blocks (d : Device) : d.next.d_blocks = d.d_blocks := rfl

theorem fails_nil {d : Device} (h : d.eio = []) : d.fails = false := by simp [fails, h]

theorem next_nil {d : Device} (h : d.eio = []) : d.next = d := by cases d; simp_all [next]

end Device

section Specs

variable {d : Device} {u : Uio} {b : Nat}

theorem lhd_op_run (hb : b < d.d_blocks) :
    lhd_op b d = .ok (if d.fails then .error Errno.EIO else .ok (), d.next) := by
  rw [lhd_op, bind_ok (get_run d), if_neg (by omega), bind_ok (set_run _ _)]
  by_cases hf : d.eio.head? = some true
  · simp [hf, Device.fails, Device.next]
  · simp [hf, Device.fails, Device.next]

theorem lhd_sector_read (hrw : u.uio_rw = .UIO_READ) (hb : b < d.d_blocks) (hlen : 512 ≤ u.iov_len)
    (hres : 512 ≤ u.uio_resid) :
    lhd_sector b (d, u) =
      if d.fails then .ok (.error Errno.EIO, (d.next, u))
      else if u.faults 512 then .ok (.error .EFAULT, (d.next, u))
      else .ok (.ok (), (d.next, u.moved (d.sect b) 0 512)) := by
  have hop := lhd_op_run hb
  have hmove := uiomove_run (p := d.sect b) hlen hres (by omega)
  rw [lhd_sector, bind_ok (get_run _)]
  simp only [hrw]
  by_cases he : d.fails
  · rw [if_pos he] at hop ⊢
    exact bind_error (first_ok hop)
  rw [if_neg he] at hop ⊢
  rw [bind_ok (first_ok hop), bind_ok (get_run _)]
  by_cases hf : u.faults 512
  · rw [if_pos hf] at hmove ⊢
    exact bind_error (second_ok hmove)
  · rw [if_neg hf] at hmove ⊢
    exact bind_ok (second_ok hmove)

theorem lhd_sector_write (hrw : u.uio_rw = .UIO_WRITE) (hb : b < d.d_blocks) (hlen : 512 ≤ u.iov_len)
    (hres : 512 ≤ u.uio_resid) :
    lhd_sector b (d, u) =
      if u.faults 512 then .ok (.error .EFAULT, (d, u))
      else if d.fails then .ok (.error Errno.EIO, (d.next, u.moved (fun _ => 0) 0 512))
      else .ok (.ok (), ({ d.next with sect := Function.update d.sect b (u.fetch (fun _ => 0) 0 512) },
        u.moved (fun _ => 0) 0 512)) := by
  have hop := lhd_op_run hb
  have hmove := uiomove_run (p := fun _ => 0) hlen hres (by omega)
  rw [lhd_sector, bind_ok (get_run _)]
  simp only [hrw]
  by_cases hf : u.faults 512
  · rw [if_pos hf] at hmove ⊢
    exact bind_error (second_ok hmove)
  rw [if_neg hf] at hmove ⊢
  rw [bind_ok (second_ok hmove)]
  by_cases he : d.fails
  · rw [if_pos he] at hop ⊢
    exact bind_error (first_ok hop)
  · rw [if_neg he] at hop ⊢
    rw [bind_ok (first_ok hop)]
    exact first_ok (modify_run _ _)

theorem lhd_sector_read_works (hrw : u.uio_rw = .UIO_READ) (heio : d.eio = []) (hb : b < d.d_blocks)
    (hlen : 512 ≤ u.iov_len) (hres : 512 ≤ u.uio_resid) :
    lhd_sector b (d, u) =
      if u.faults 512 then .ok (.error .EFAULT, (d, u))
      else .ok (.ok (), (d, u.moved (d.sect b) 0 512)) := by
  rw [lhd_sector_read hrw hb hlen hres, Device.fails_nil heio, Device.next_nil heio]
  rfl

theorem lhd_sector_write_works (hrw : u.uio_rw = .UIO_WRITE) (heio : d.eio = []) (hb : b < d.d_blocks)
    (hlen : 512 ≤ u.iov_len) (hres : 512 ≤ u.uio_resid) :
    lhd_sector b (d, u) =
      if u.faults 512 then .ok (.error .EFAULT, (d, u))
      else .ok (.ok (), ({ d with sect := Function.update d.sect b (u.fetch (fun _ => 0) 0 512) },
        u.moved (fun _ => 0) 0 512)) := by
  rw [lhd_sector_write hrw hb hlen hres, Device.fails_nil heio, Device.next_nil heio]
  rfl

/-! ## Requests -/

def Uio.sector (u : Uio) : Nat := toU32 (u.uio_offset.tdiv LHD_SECTSIZE)

theorem Uio.sector_lt (u : Uio) : u.sector < 2 ^ 32 := by
  rw [Uio.sector, toU32]
  omega

theorem Uio.sector_eq (hoff : u.uio_offset = 512 * b) (hb : b < 2 ^ 32) : u.sector = b := by
  rw [Uio.sector, hoff, show (LHD_SECTSIZE : Int) = 512 from rfl, Int.mul_tdiv_cancel_left _ (by omega)]
  exact toU32_natCast hb

theorem lhd_io_aligned (hmod : u.uio_offset.tmod 512 = 0) {n : Nat} (hres : u.uio_resid = 512 * n) :
    lhd_io (d, u) =
      if (u.sector + n) % 2 ^ 32 > d.d_blocks then .ok (.error .EINVAL, (d, u))
      else lhd_io_loop u.sector n 0 (d, u) := by
  have h2 : toU32 (u.uio_offset.tmod LHD_SECTSIZE) = 0 := by
    rw [show (LHD_SECTSIZE : Int) = 512 from rfl, hmod]; rfl
  have h3 : u.uio_resid / LHD_SECTSIZE = n := by rw [hres]; exact Nat.mul_div_cancel_left n (by decide)
  have h4 : u.uio_resid % LHD_SECTSIZE = 0 := by rw [hres]; exact Nat.mul_mod_right 512 n
  rw [lhd_io, bind_ok (get_run _)]
  simp only [h2, h3, h4]
  rw [if_neg (by omega)]
  by_cases hend : (u.sector + n) % 2 ^ 32 > d.d_blocks
  · rw [if_pos hend]
    exact congrFun (if_pos hend) _
  · rw [if_neg hend]
    exact congrFun (if_neg hend) _

theorem lhd_io_loop_one (hb : b < 2 ^ 32) : lhd_io_loop b 1 0 (d, u) = lhd_sector b (d, u) := by
  rw [lhd_io_loop, Nat.add_zero, Nat.mod_eq_of_lt hb, bind_run]
  cases lhd_sector b (d, u) with
  | error p => rfl
  | ok r => rcases r with ⟨_ | _, _⟩ <;> rfl

theorem lhd_io_sector (hmod : u.uio_offset.tmod 512 = 0) (hres : u.uio_resid = 512)
    (hlt : u.sector < d.d_blocks) : lhd_io (d, u) = lhd_sector u.sector (d, u) := by
  have hle := Nat.mod_le (u.sector + 1) (2 ^ 32)
  rw [lhd_io_aligned hmod (n := 1) hres, if_neg (by omega), lhd_io_loop_one u.sector_lt]

theorem lhd_io_one (hoff : u.uio_offset = 512 * b) (hb : b < d.d_blocks) (hd : d.d_blocks < 2 ^ 32)
    (hres : u.uio_resid = 512) : lhd_io (d, u) = lhd_sector b (d, u) := by
  have hsector := Uio.sector_eq hoff (by omega)
  have h := lhd_io_sector (d := d) (by rw [hoff, Int.mul_tmod_right]) hres (hsector ▸ hb)
  rwa [hsector] at h

theorem lhd_op_past (hge : d.d_blocks ≤ b) : lhd_op b d = .ok (.error .EINVAL, d) := by
  rw [lhd_op, bind_ok (get_run d), if_pos hge]
  rfl

theorem lhd_io_past (hmod : u.uio_offset.tmod 512 = 0) (hres : u.uio_resid = 512) (hlen : 512 ≤ u.iov_len)
    (hge : d.d_blocks ≤ u.sector) :
    (∃ t, lhd_io (d, u) = .ok (.error .EINVAL, t)) ∨
      u.faults 512 = true ∧ lhd_io (d, u) = .ok (.error .EFAULT, (d, u)) := by
  rw [lhd_io_aligned hmod (n := 1) hres]
  split
  · exact .inl ⟨_, rfl⟩
  rw [lhd_io_loop_one u.sector_lt, lhd_sector, bind_ok (get_run _)]
  cases hrw : u.uio_rw with
  | UIO_READ =>
    simp only [hrw]
    exact .inl ⟨_, bind_error (first_ok (lhd_op_past hge))⟩
  | UIO_WRITE =>
    simp only [hrw]
    have hmove := uiomove_run (p := fun _ => 0) hlen (show 512 ≤ u.uio_resid by omega) (by omega)
    by_cases hf : u.faults 512
    · rw [if_pos hf] at hmove
      exact .inr ⟨hf, bind_error (second_ok hmove)⟩
    · rw [if_neg hf] at hmove
      exact .inl ⟨_, (bind_ok (second_ok hmove)).trans (bind_error (first_ok (lhd_op_past hge)))⟩

theorem lhd_io_none (hmod : u.uio_offset.tmod 512 = 0) (hres : u.uio_resid = 0) :
    lhd_io (d, u) = if u.sector > d.d_blocks then .ok (.error .EINVAL, (d, u)) else .ok (.ok (), (d, u)) := by
  rw [lhd_io_aligned hmod (n := 0) hres, Nat.add_zero, Nat.mod_eq_of_lt u.sector_lt]
  rfl

end Specs

end Os161
