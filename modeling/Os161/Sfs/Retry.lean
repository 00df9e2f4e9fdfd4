import Os161.Sfs.Mount

/-! # Block I/O on a disk that fails

`sfs_rwblock` asks again after a media error.
-/

namespace Os161

open Prog Words

def Sfs.Polled (s t : Sfs) : Prop := ∃ eio, t = { s with sfs_device := { s.sfs_device with eio := eio } }

namespace Sfs.Polled

variable {s t w : Sfs}

theorem refl (s : Sfs) : s.Polled s := ⟨s.sfs_device.eio, rfl⟩

theorem next (s : Sfs) : s.Polled { s with sfs_device := s.sfs_device.next } := ⟨s.sfs_device.eio.tail, rfl⟩

theorem trans (h : s.Polled t) (h' : t.Polled w) : s.Polled w := by
  obtain ⟨eio, rfl⟩ := h
  obtain ⟨eio', rfl⟩ := h'
  exact ⟨eio', rfl⟩

theorem sect (h : s.Polled t) : t.sect = s.sect := by obtain ⟨eio, rfl⟩ := h; rfl

theorem d_blocks (h : s.Polled t) : t.sfs_device.d_blocks = s.sfs_device.d_blocks := by
  obtain ⟨eio, rfl⟩ := h; rfl

end Sfs.Polled

section Retry

variable {X : Panic → Prop} {s t : Sfs} {u : Uio} {b : Nat}

theorem onDevice_run {m : Prog Panic Errno (Device × Uio) Unit} {r : Except Errno Unit} {d : Device} {u' : Uio}
    (h : m (s.sfs_device, u) = .ok (r, (d, u'))) :
    onDevice m (s, u) = .ok (r, ({ s with sfs_device := d }, u')) := by
  simp only [onDevice, zoom, h]

theorem sfs_rwblock_retry_again {d : Device} {u' : Uio} (tries : Nat)
    (h : lhd_io (s.sfs_device, u) = .ok (.error Errno.EIO, (d, u'))) :
    sfs_rwblock_retry (tries + 1) (s, u) = sfs_rwblock_retry tries ({ s with sfs_device := d }, u') := by
  rw [sfs_rwblock_retry, bind_ok (attempt_ok (onDevice_run h))]

theorem sfs_rwblock_retry_done {d : Device} {u' : Uio} {r : Except Errno Unit} (tries : Nat)
    (h : lhd_io (s.sfs_device, u) = .ok (r, (d, u'))) (hr : r = .ok () ∨ r = .error .EFAULT) :
    sfs_rwblock_retry tries (s, u) = .ok (r, ({ s with sfs_device := d }, u')) := by
  cases tries with
  | zero =>
    rw [sfs_rwblock_retry, bind_ok (attempt_ok (onDevice_run h))]
    rcases hr with rfl | rfl <;> rfl
  | succ tries =>
    rw [sfs_rwblock_retry, bind_ok (attempt_ok (onDevice_run h))]
    rcases hr with rfl | rfl <;> rfl

theorem sfs_rwblock_retry_EINVAL {d : Device} {u' : Uio} (tries : Nat)
    (h : lhd_io (s.sfs_device, u) = .ok (.error .EINVAL, (d, u'))) :
    sfs_rwblock_retry tries (s, u) = .error .d_io_EINVAL := by
  cases tries with
  | zero =>
    rw [sfs_rwblock_retry, bind_ok (attempt_ok (onDevice_run h))]
    rfl
  | succ tries =>
    rw [sfs_rwblock_retry, bind_ok (attempt_ok (onDevice_run h))]
    rfl

theorem sfs_rwblock_retry_zero {d : Device} {u' : Uio}
    (h : lhd_io (s.sfs_device, u) = .ok (.error Errno.EIO, (d, u'))) :
    sfs_rwblock_retry 0 (s, u) = .ok (.error Errno.EIO, ({ s with sfs_device := d }, u')) := by
  rw [sfs_rwblock_retry, bind_ok (attempt_ok (onDevice_run h))]
  rfl

/-! ## Reads

A read takes the data only after the card is done, so what it hands back after any number of errors is
the sector.
-/

def ReadSector (b : Nat) (s : Sfs) (u : Uio) (r : Except Errno Unit) (t : Sfs × Uio) : Prop :=
  s.Polled t.1 ∧ ((r = .ok () ∧ t.2 = u.moved (s.sect b) 0 512) ∨ (∃ e, r = .error e) ∧ t.2 = u)

section Request

variable (hmod : u.uio_offset.tmod 512 = 0) (hres : u.uio_resid = 512) (hlen : 512 ≤ u.iov_len)

include hmod hres hlen

theorem sfs_rwblock_retry_read_works (hrw : u.uio_rw = .UIO_READ) (hlt : u.sector < s.sfs_device.d_blocks)
    (hworks : s.sfs_device.fails = false) (tries : Nat) :
    Holds X (sfs_rwblock_retry tries) (s, u) (ReadSector u.sector s u) := by
  have hio := lhd_io_sector hmod hres hlt
  rw [lhd_sector_read hrw hlt hlen (by omega), hworks] at hio
  by_cases hf : u.faults 512
  · rw [if_pos hf] at hio
    exact holds_of_run (sfs_rwblock_retry_done tries hio (.inr rfl)) ⟨.next s, .inr ⟨⟨_, rfl⟩, rfl⟩⟩
  · rw [if_neg hf] at hio
    exact holds_of_run (sfs_rwblock_retry_done tries hio (.inl rfl)) ⟨.next s, .inl ⟨rfl, rfl⟩⟩

theorem sfs_rwblock_retry_read (hrw : u.uio_rw = .UIO_READ) (hlt : u.sector < s.sfs_device.d_blocks)
    (tries : Nat) : Holds X (sfs_rwblock_retry tries) (s, u) (ReadSector u.sector s u) := by
  -- on the tries that are left; each one that fails leaves the uio where it was
  induction tries generalizing s with
  | zero =>
    cases he : s.sfs_device.fails with
    | false => exact sfs_rwblock_retry_read_works hmod hres hlen hrw hlt he 0
    | true =>
      have hio := lhd_io_sector hmod hres hlt
      rw [lhd_sector_read hrw hlt hlen (by omega), if_pos he] at hio
      exact holds_of_run (sfs_rwblock_retry_zero hio) ⟨.next s, .inr ⟨⟨_, rfl⟩, rfl⟩⟩
  | succ tries ih =>
    cases he : s.sfs_device.fails with
    | false => exact sfs_rwblock_retry_read_works hmod hres hlen hrw hlt he _
    | true =>
      have hio := lhd_io_sector hmod hres hlt
      rw [lhd_sector_read hrw hlt hlen (by omega), if_pos he] at hio
      have hagain := sfs_rwblock_retry_again tries hio
      cases ih (s := { s with sfs_device := s.sfs_device.next }) hlt with
      | done run post => exact .done (hagain.trans run) ⟨(Sfs.Polled.next s).trans post.1, post.2⟩
      | panic run allowed => exact .panic (hagain.trans run) allowed

theorem sfs_rwblock_past (hge : s.sfs_device.d_blocks ≤ u.sector) :
    sfs_rwblock (s, u) = .error .d_io_EINVAL ∨
      u.faults 512 = true ∧ sfs_rwblock (s, u) = .ok (.error .EFAULT, (s, u)) := by
  rcases lhd_io_past hmod hres hlen hge with ⟨⟨d, u'⟩, hio⟩ | ⟨hf, hio⟩
  · exact .inl (sfs_rwblock_retry_EINVAL 10 hio)
  · exact .inr ⟨hf, sfs_rwblock_retry_done 10 hio (.inr rfl)⟩

end Request

/-! ## Writes

A write takes the data first: after an error there is nothing left to write, and the next try reports
success.
-/

def WriteSector (b : Nat) (s : Sfs) (u : Uio) (r : Except Errno Unit) (t : Sfs × Uio) : Prop :=
  (r = .error .EFAULT ∧ t = (s, u) ∧ u.faults 512 = true) ∨
  r = .ok () ∧ t.2 = u.moved (fun _ => 0) 0 512 ∧
    (s.Polled t.1 ∨ (s.setBlock b fun q => u.iov_mem (u.iov_base + q)).Polled t.1)

theorem fetch_block (hrw : u.uio_rw = .UIO_WRITE) :
    u.fetch (fun _ => 0) 0 512 = fun q => if q < 512 then u.iov_mem (u.iov_base + q) else 0 := by
  funext q
  simp only [Uio.fetch, hrw, Mem.copy, Nat.zero_add, Nat.sub_zero, Nat.zero_le, true_and]

section Request

variable (hmod : u.uio_offset.tmod 512 = 0) (hres : u.uio_resid = 512) (hlen : 512 ≤ u.iov_len)
  (hrw : u.uio_rw = .UIO_WRITE) (hlt : u.sector < s.sfs_device.d_blocks)

include hmod hres hlen hrw hlt

theorem sfs_rwblock_write_works (hf : u.faults 512 = false) (hworks : s.sfs_device.fails = false) :
    ∃ t, sfs_rwblock (s, u) = .ok (.ok (), (t, u.moved (fun _ => 0) 0 512)) ∧
      (s.setBlock u.sector fun q => u.iov_mem (u.iov_base + q)).Polled t := by
  have hio := lhd_io_sector hmod hres hlt
  rw [lhd_sector_write hrw hlt hlen (by omega), hf, hworks, fetch_block hrw] at hio
  exact ⟨_, sfs_rwblock_retry_done 10 hio (.inl rfl), ⟨s.sfs_device.eio.tail, rfl⟩⟩

theorem sfs_rwblock_write_again (hf : u.faults 512 = false) (hfails : s.sfs_device.fails = true) :
    sfs_rwblock (s, u) =
      if (u.moved (fun _ => 0) 0 512).sector > s.sfs_device.d_blocks then .error .d_io_EINVAL
      else .ok (.ok (), ({ s with sfs_device := s.sfs_device.next }, u.moved (fun _ => 0) 0 512)) := by
  have hio := lhd_io_sector hmod hres hlt
  rw [lhd_sector_write hrw hlt hlen (by omega), hf, hfails] at hio
  have hagain : sfs_rwblock (s, u) = _ := sfs_rwblock_retry_again 9 hio
  have hmod' : (u.moved (fun _ => 0) 0 512).uio_offset.tmod 512 = 0 := by
    rw [← Int.dvd_iff_tmod_eq_zero] at hmod ⊢
    exact dvd_toI32 (Int.dvd_add hmod (Int.dvd_refl 512))
  have hres' : (u.moved (fun _ => 0) 0 512).uio_resid = 0 := by
    rw [moved_resid (by omega) (by omega), hres]
  have hnone : lhd_io (s.sfs_device.next, u.moved (fun _ => 0) 0 512) = _ := lhd_io_none hmod' hres'
  rw [Device.next_d_blocks] at hnone
  rw [hagain]
  split at hnone
  · rw [if_pos (by assumption)]
    exact sfs_rwblock_retry_EINVAL (s := { s with sfs_device := s.sfs_device.next }) 9 hnone
  · rw [if_neg (by assumption)]
    exact sfs_rwblock_retry_done (s := { s with sfs_device := s.sfs_device.next }) 9 hnone (.inl rfl)

omit hlt in
theorem sfs_rwblock_write : Holds (fun _ => True) sfs_rwblock (s, u) (WriteSector u.sector s u) := by
  rcases Nat.lt_or_ge u.sector s.sfs_device.d_blocks with hlt | hge
  rotate_left
  · rcases sfs_rwblock_past hmod hres hlen hge with hrun | ⟨hf, hrun⟩
    · exact .panic hrun trivial
    · exact .done hrun (.inl ⟨rfl, rfl, hf⟩)
  cases hf : u.faults 512 with
  | true =>
    have hio := lhd_io_sector hmod hres hlt
    rw [lhd_sector_write hrw hlt hlen (by omega), if_pos hf] at hio
    exact .done (sfs_rwblock_retry_done 10 hio (.inr rfl)) (.inl ⟨rfl, rfl, hf⟩)
  | false =>
    cases he : s.sfs_device.fails with
    | false =>
      obtain ⟨t, hrun, ht⟩ := sfs_rwblock_write_works hmod hres hlen hrw hlt hf he
      exact .done hrun (.inr ⟨rfl, rfl, .inr ht⟩)
    | true =>
      have hrun := sfs_rwblock_write_again hmod hres hlen hrw hlt hf he
      split at hrun
      · exact .panic hrun trivial
      · exact .done hrun (.inr ⟨rfl, rfl, .inl (.next s)⟩)

end Request

/-! ## Blocks -/

def blockSector (b : Nat) : Nat := (sfsuio (fun _ => 0) b .UIO_READ).sector

theorem blockSector_eq (hb : b < 2 ^ 22) : blockSector b = b := Uio.sector_eq (sfsuio_offset hb) (by omega)

theorem sfsuio_aligned (data : Mem) (rw : UioRw) : (sfsuio data b rw).uio_offset.tmod 512 = 0 := by
  rw [← Int.dvd_iff_tmod_eq_zero]
  simp only [sfsuio, mk_kuio, show (SFS_BLOCKSIZE : Int) = 512 from rfl]
  exact dvd_toI32 (by omega)

theorem sfs_rblock_polled (hlt : blockSector b < s.sfs_device.d_blocks) :
    Holds X (sfs_rblock b) s fun r t =>
      s.Polled t ∧ ∀ buf, r = .ok buf → buf = fun i => if i < 512 then s.sect (blockSector b) i else 0 := by
  rw [sfs_rblock]
  have hread := sfs_rwblock_retry_read (X := X) (sfsuio_aligned (fun _ => 0) .UIO_READ) rfl (Nat.le_refl 512) rfl
    hlt 10
  refine (hread.withVar (P := fun r t => s.Polled t ∧ ∀ a, r = .ok a →
    a.2 = (sfsuio (fun _ => 0) b .UIO_READ).moved (s.sect (blockSector b)) 0 512) ?_ ?_).bind ?_ ?_
  · rintro ⟨⟩ t ⟨hp, ⟨-, hu⟩ | ⟨⟨e, he⟩, -⟩⟩
    · exact ⟨hp, fun a ha => by cases ha; exact hu⟩
    · cases he
  · rintro e t ⟨hp, -⟩
    exact ⟨hp, fun _ h => by cases h⟩
  · rintro ⟨⟨⟩, ku⟩ t ⟨hp, hu⟩
    refine holds_pure ⟨hp, fun buf hbuf => ?_⟩
    cases hbuf
    rw [show ku = _ from hu _ rfl, ← copy_block]
    rfl
  · rintro e t ⟨hp, -⟩
    exact ⟨hp, fun _ h => by cases h⟩

theorem sfs_rblock_past (hge : s.sfs_device.d_blocks ≤ blockSector b) : sfs_rblock b s = .error .d_io_EINVAL := by
  rcases sfs_rwblock_past (sfsuio_aligned (fun _ => 0) .UIO_READ) rfl (Nat.le_refl 512) hge with h | ⟨hf, -⟩
  · exact bind_panic (withVar_panic h)
  · rw [sfsuio_faults] at hf
    cases hf

theorem sfs_rblock_any (b : Nat) (s : Sfs) :
    Holds (fun _ => True) (sfs_rblock b) s fun r t => s.Polled t ∧ ∀ buf, r = .ok buf →
      blockSector b < s.sfs_device.d_blocks ∧ buf = fun i => if i < 512 then s.sect (blockSector b) i else 0 := by
  rcases Nat.lt_or_ge (blockSector b) s.sfs_device.d_blocks with hlt | hge
  · exact (sfs_rblock_polled hlt).imp fun r t h => ⟨h.1, fun buf hr => ⟨hlt, h.2 buf hr⟩⟩
  · exact .panic (sfs_rblock_past hge) trivial

theorem sfsuio_src (data : Mem) (rw : UioRw) :
    (fun q => (sfsuio data b rw).iov_mem ((sfsuio data b rw).iov_base + q)) = data := by
  funext q
  exact congrArg data (Nat.zero_add q)

theorem sfs_wblock_any (data : Mem) (b : Nat) (s : Sfs) :
    Holds (fun _ => True) (sfs_wblock data b) s fun r t =>
      r = .ok () ∧ (s.Polled t ∨ (s.setBlock (blockSector b) data).Polled t) := by
  have hwrite : Holds (fun _ => True) sfs_rwblock (s, sfsuio data b .UIO_WRITE) _ :=
    sfs_rwblock_write (sfsuio_aligned data .UIO_WRITE) rfl (Nat.le_refl 512) rfl
  refine (hwrite.withVar (P := fun r t => (∃ a, r = .ok a) ∧
    (s.Polled t ∨ (s.setBlock (blockSector b) data).Polled t)) ?_ ?_).bind ?_ ?_
  · rintro ⟨⟩ t (⟨h, -⟩ | ⟨-, -, ht⟩)
    · cases h
    · rw [sfsuio_src] at ht
      exact ⟨⟨_, rfl⟩, ht⟩
  · rintro e t (⟨-, -, hf⟩ | ⟨h, -⟩)
    · rw [sfsuio_faults] at hf
      cases hf
    · cases h
  · rintro a t ⟨-, ht⟩
    exact holds_pure ⟨rfl, ht⟩
  · rintro e t ⟨⟨a, h⟩, -⟩
    cases h

theorem sfs_wblock_first (hb : b < 2 ^ 22) (hlt : b < s.sfs_device.d_blocks)
    (hworks : s.sfs_device.fails = false) (data : Mem) :
    ∃ t, sfs_wblock data b s = .ok (.ok (), t) ∧ (s.setBlock b data).Polled t := by
  have hsector : (sfsuio data b .UIO_WRITE).sector = b := blockSector_eq hb
  obtain ⟨t, hrun, ht⟩ := sfs_rwblock_write_works (sfsuio_aligned data .UIO_WRITE) rfl (Nat.le_refl 512) rfl
    (hsector.trans_lt hlt) (sfsuio_faults 512) hworks
  refine ⟨t, bind_ok (withVar_ok hrun), ?_⟩
  rwa [hsector, sfsuio_src] at ht

theorem sfs_wblock_lost (hb : b + 1 < 2 ^ 22) (hlt : b < s.sfs_device.d_blocks)
    (hfails : s.sfs_device.fails = true) (data : Mem) :
    sfs_wblock data b s = .ok (.ok (), { s with sfs_device := s.sfs_device.next }) := by
  have hsector : (sfsuio data b .UIO_WRITE).sector = b := blockSector_eq (by omega)
  have hrun := sfs_rwblock_write_again (sfsuio_aligned data .UIO_WRITE) rfl (Nat.le_refl 512) rfl
    (hsector.trans_lt hlt) (sfsuio_faults 512) hfails
  have hoff : ((sfsuio data b .UIO_WRITE).moved (fun _ => 0) 0 512).uio_offset = 512 * (b + 1 : Nat) := by
    have hs : (sfsuio data b .UIO_WRITE).uio_offset = 512 * b := sfsuio_offset (by omega)
    rw [moved_offset (by omega) (by omega)]
    omega
  rw [Uio.sector_eq hoff (by omega), if_neg (by omega)] at hrun
  exact bind_ok (withVar_ok hrun)

/-! ## What a result of 0 says -/

/-- A block that a read reports is the sector's. A block that a write reports is on the disk, alone, if the first try
did not fail. -/
theorem reported_block_io (hb : b < 2 ^ 22) (hlt : b < s.sfs_device.d_blocks) :
    (∀ data, s.sfs_device.fails = false → ∃ t, sfs_wblock data b s = .ok (.ok (), t) ∧
      (∀ q < 512, t.sect b q = data q) ∧ ∀ c ≠ b, t.sect c = s.sect c) ∧
    ∃ r t, sfs_rblock b s = .ok (r, t) ∧ t.sect = s.sect ∧ ∀ buf, r = .ok buf → ∀ q < 512, buf q = s.sect b q := by
  constructor
  · intro data hworks
    obtain ⟨t, hrun, ht⟩ := sfs_wblock_first hb hlt hworks data
    refine ⟨t, hrun, fun q hq => ?_, fun c hc => ?_⟩
    · rw [ht.sect, setBlock_sect, Function.update_self, if_pos hq]
    · rw [ht.sect, setBlock_sect, Function.update_of_ne hc]
  · have hsector := blockSector_eq hb
    obtain ⟨r, t, hrun, hp, hbuf⟩ := (sfs_rblock_polled (hsector.trans_lt hlt)).exists
    refine ⟨r, t, hrun, hp.sect, fun buf hr q hq => ?_⟩
    rw [hbuf buf hr, hsector]
    exact if_pos hq

def failingVolume (eio : List Bool) : Sfs := Sfs.new ⟨8, fun _ _ => 0, eio⟩ []

theorem reported_block_io_second_error :
    (∀ data, (failingVolume [false, true]).sfs_device.fails = false → ∃ t,
      sfs_wblock data 3 (failingVolume [false, true]) = .ok (.ok (), t) ∧
      (∀ q < 512, t.sect 3 q = data q) ∧ ∀ c ≠ 3, t.sect c = (failingVolume [false, true]).sect c) ∧
    ∃ r t, sfs_rblock 3 (failingVolume [false, true]) = .ok (r, t) ∧ t.sect = (failingVolume [false, true]).sect ∧
      ∀ buf, r = .ok buf → ∀ q < 512, buf q = (failingVolume [false, true]).sect 3 q :=
  reported_block_io (s := failingVolume [false, true]) (b := 3) (by decide) (by decide)

/-- One media error and the block is lost, though `sfs_wblock` returns 0. -/
theorem write_reported_and_lost :
    ∃ s, sfs_wblock (fun _ => 1) 3 (failingVolume [true]) = .ok (.ok (), s) ∧ s.sect 3 0 = 0 := by
  refine ⟨_, sfs_wblock_lost (s := failingVolume [true]) (b := 3) (by decide) (by decide) (by decide) _, ?_⟩
  rfl

end Retry

/-! ## Disks with a superblock -/

def superDisk (n nblocks : Nat) : Device :=
  ⟨n, fun b => if b = SFS_SB_LOCATION then Super.encode ⟨SFS_MAGIC, nblocks, fun _ => 0⟩ else fun _ => 0, []⟩

theorem superDisk_superblock {n k : Nat} (h : k < 2 ^ 32) :
    (superDisk n k).superblock.sp_magic = SFS_MAGIC ∧ (superDisk n k).superblock.sp_nblocks = k := by
  have hsect : ∀ q < 512, (fun q => if q < 512 then (superDisk n k).sect SFS_SB_LOCATION q else 0) q =
      Super.encode ⟨SFS_MAGIC, k, fun _ => 0⟩ q := by
    intro q hq
    simp only [if_pos hq, superDisk, if_true]
  exact Super.decode_encode hsect (show SFS_MAGIC < 2 ^ 32 by decide) h

theorem superDisk_mountable {n k : Nat} (hk : k ≤ 2 ^ 22) (hmap : 2 + SFS_BITBLOCKS k ≤ n) (hn : n < 2 ^ 32) :
    (superDisk n k).Mountable := by
  obtain ⟨hmagic, hnblocks⟩ := superDisk_superblock (n := n) (show k < 2 ^ 32 by omega)
  exact ⟨hmagic, by omega, by rw [hnblocks]; exact hmap, hn, rfl⟩

end Os161
