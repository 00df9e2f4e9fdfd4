import Os161.Sfs.Spec

/-! # Blocks: reading, writing, allocating and freeing -/

namespace Os161

open Prog Words

section Fields

variable (s : Sfs) (ino b : Nat) (v : Option Vnode) (data : Mem) (m : Bitmap)

@[simp] theorem setVnode_vnodes : (s.setVnode ino v).vnodes = Function.update s.vnodes ino v := rfl

@[simp] theorem setVnode_sect : (s.setVnode ino v).sect = s.sect := rfl

@[simp] theorem setVnode_super : (s.setVnode ino v).sfs_super = s.sfs_super := rfl

@[simp] theorem setVnode_freemap : (s.setVnode ino v).sfs_freemap = s.sfs_freemap := rfl

@[simp] theorem setBlock_vnodes : (s.setBlock b data).vnodes = s.vnodes := rfl

@[simp] theorem setBlock_sect :
    (s.setBlock b data).sect = Function.update s.sect b fun i => if i < 512 then data i else 0 := rfl

@[simp] theorem setBlock_super : (s.setBlock b data).sfs_super = s.sfs_super := rfl

@[simp] theorem setBlock_freemap : (s.setBlock b data).sfs_freemap = s.sfs_freemap := rfl

@[simp] theorem setFreemap_vnodes : (s.setFreemap m).vnodes = s.vnodes := rfl

@[simp] theorem setFreemap_sect : (s.setFreemap m).sect = s.sect := rfl

@[simp] theorem setFreemap_super : (s.setFreemap m).sfs_super = s.sfs_super := rfl

@[simp] theorem setFreemap_freemap : (s.setFreemap m).sfs_freemap = m := rfl

@[simp] theorem setVnode_used : (s.setVnode ino v).used = s.used := rfl

@[simp] theorem setBlock_used : (s.setBlock b data).used = s.used := rfl

end Fields

section Runs

variable {s : Sfs} {b i : Nat} {v : Vnode} {data : Mem}

theorem getv_run (h : s.vnodes i = some v) : getv i s = .ok (.ok v, s) := by
  rw [getv, bind_ok (get_run s), h]; rfl

theorem modv_run (h : s.vnodes i = some v) (f : Vnode → Vnode) :
    modv i f s = .ok (.ok (), s.setVnode i (some (f v))) := by
  rw [modv, bind_ok (getv_run h)]; rfl

/-! ## Block I/O -/

theorem sfs_rwblock_run {u : Uio} {d : Device} {u' : Uio} {r : Except Errno Unit}
    (h : lhd_io (s.sfs_device, u) = .ok (r, (d, u'))) (hr : r = .ok () ∨ r = .error .EFAULT) :
    sfs_rwblock (s, u) = .ok (r, ({ s with sfs_device := d }, u')) := by
  have hz : onDevice lhd_io (s, u) = .ok (r, ({ s with sfs_device := d }, u')) := by
    simp only [onDevice, zoom, h]
  rw [sfs_rwblock, sfs_rwblock_retry, bind_ok (attempt_ok hz)]
  rcases hr with rfl | rfl <;> rfl

theorem sfsuio_offset {rw : UioRw} (hb : b < 2 ^ 22) : (sfsuio data b rw).uio_offset = 512 * b := by
  have h1 : toI32 (b : Int) = b := toI32_of_small (by omega) (by omega)
  have h2 : toI32 ((b : Int) * 512) = b * 512 := toI32_of_small (by omega) (by omega)
  simp only [sfsuio, mk_kuio, h1]
  exact h2.trans (Int.mul_comm _ _)

theorem sfsuio_faults {rw : UioRw} (n : Nat) : (sfsuio data b rw).faults n = false :=
  faults_sysspace rfl n

theorem copy_block (m : Mem) : Mem.copy (fun _ => 0) 0 m 0 512 = fun i => if i < 512 then m i else 0 := by
  funext i
  simp only [Mem.copy, Nat.zero_add, Nat.sub_zero, Nat.zero_le, true_and]

theorem sfs_bused_run (hb : b < s.sfs_super.sp_nblocks) :
    sfs_bused b s = .ok (.ok (bitmap_isset s.sfs_freemap b), s) := by
  rw [sfs_bused, bind_ok (get_run s), bind_ok (ensure_run _ _ _ hb)]; rfl

theorem sfs_rblock_device (hb : b < 2 ^ 22) (hlt : b < s.sfs_device.d_blocks)
    (hdev : s.sfs_device.d_blocks < 2 ^ 32) (heio : s.sfs_device.eio = []) :
    sfs_rblock b s = .ok (.ok fun i => if i < 512 then s.sect b i else 0, s) := by
  have hio := lhd_io_one (u := sfsuio (fun _ => 0) b .UIO_READ) (sfsuio_offset hb) hlt hdev rfl
  rw [lhd_sector_read_works rfl heio hlt (Nat.le_refl 512) (Nat.le_refl 512), sfsuio_faults] at hio
  have hrw := sfs_rwblock_run hio (Or.inl rfl)
  rw [sfs_rblock, bind_ok (withVar_ok hrw), ← copy_block]
  rfl

variable (hV : s.Volume) (hb : b < s.sfs_super.sp_nblocks)

include hV hb

theorem sfs_rblock_run : sfs_rblock b s = .ok (.ok fun i => if i < 512 then s.sect b i else 0, s) := by
  have h1 := hV.nblocks_le
  have h2 := hV.nblocks_le_device
  exact sfs_rblock_device (by omega) (by omega) hV.device_lt hV.eio

theorem sfs_wblock_run (data : Mem) : sfs_wblock data b s = .ok (.ok (), s.setBlock b data) := by
  have h1 := hV.nblocks_le
  have h2 := hV.nblocks_le_device
  have hio := lhd_io_one (u := sfsuio data b .UIO_WRITE) (sfsuio_offset (by omega))
    (show b < s.sfs_device.d_blocks by omega) hV.device_lt rfl
  rw [lhd_sector_write_works rfl hV.eio (by omega) (Nat.le_refl 512) (Nat.le_refl 512), sfsuio_faults] at hio
  have hrw := sfs_rwblock_run hio (Or.inl rfl)
  rw [sfs_wblock, bind_ok (withVar_ok hrw), Sfs.setBlock, ← copy_block]
  rfl

end Runs

/-! ## What stays the same -/

structure Frame (s s' : Sfs) : Prop where
  super : s'.sfs_super = s.sfs_super
  superdirty : s'.sfs_superdirty = s.sfs_superdirty
  fixed : ∀ b, s.Reserved b → s'.sect b = s.sect b
  map : s'.sfs_freemapdirty = true ∨
    s'.sfs_freemapdirty = s.sfs_freemapdirty ∧ s'.sfs_freemap = s.sfs_freemap

namespace Frame

variable {s s' s'' : Sfs}

theorem refl (s : Sfs) : Frame s s := ⟨rfl, rfl, fun _ _ => rfl, .inr ⟨rfl, rfl⟩⟩

theorem reserved (h : Frame s s') (b : Nat) : s'.Reserved b ↔ s.Reserved b := by
  rw [Sfs.Reserved, Sfs.Reserved, h.super]

theorem trans (h : Frame s s') (h' : Frame s' s'') : Frame s s'' where
  super := h'.super.trans h.super
  superdirty := h'.superdirty.trans h.superdirty
  fixed b hb := (h'.fixed b ((h.reserved b).mpr hb)).trans (h.fixed b hb)
  map := by
    rcases h'.map with hd | ⟨hd, hm⟩
    · exact .inl hd
    rcases h.map with hd' | ⟨hd', hm'⟩
    · exact .inl (hd.trans hd')
    · exact .inr ⟨hd.trans hd', hm.trans hm'⟩

end Frame

structure SameVolume (s s' : Sfs) : Prop extends Frame s s' where
  d_blocks : s'.sfs_device.d_blocks = s.sfs_device.d_blocks
  eio : s'.sfs_device.eio = s.sfs_device.eio
  table : s'.sfs_vnodes = s.sfs_vnodes
  heap : s'.heap = s.heap
  nbits : s'.sfs_freemap.nbits = s.sfs_freemap.nbits

namespace SameVolume

variable {s s' s'' : Sfs}

theorem refl (s : Sfs) : SameVolume s s := ⟨.refl s, rfl, rfl, rfl, rfl, rfl⟩

theorem trans (h : SameVolume s s') (h' : SameVolume s' s'') : SameVolume s s'' :=
  ⟨h.toFrame.trans h'.toFrame, h'.d_blocks.trans h.d_blocks, h'.eio.trans h.eio, h'.table.trans h.table,
    h'.heap.trans h.heap, h'.nbits.trans h.nbits⟩

theorem setVnode (s : Sfs) (i : Nat) (v : Option Vnode) : SameVolume s (s.setVnode i v) :=
  ⟨⟨rfl, rfl, fun _ _ => rfl, .inr ⟨rfl, rfl⟩⟩, rfl, rfl, rfl, rfl, rfl⟩

theorem setBlock {b : Nat} (hb : ¬ s.Reserved b) (data : Mem) : SameVolume s (s.setBlock b data) := by
  refine ⟨⟨rfl, rfl, fun c hc => ?_, .inr ⟨rfl, rfl⟩⟩, rfl, rfl, rfl, rfl, rfl⟩
  have hne : c ≠ b := by
    rintro rfl
    exact hb hc
  exact Function.update_of_ne hne _ _

theorem setFreemap {m : Bitmap} (h : m.nbits = s.sfs_freemap.nbits) : SameVolume s (s.setFreemap m) :=
  ⟨⟨rfl, rfl, fun _ _ => rfl, .inl rfl⟩, rfl, rfl, rfl, rfl, h⟩

theorem volume (h : SameVolume s s') (hV : s.Volume)
    (hm : ∀ b, s.Reserved b ∨ s.sfs_super.sp_nblocks ≤ b → s.sfs_freemap.Marked b →
      s'.sfs_freemap.Marked b) : s'.Volume where
  nblocks_le := h.super ▸ hV.nblocks_le
  nblocks_le_device := h.super ▸ h.d_blocks ▸ hV.nblocks_le_device
  device_lt := h.d_blocks ▸ hV.device_lt
  eio := h.eio ▸ hV.eio
  nbits := by rw [h.nbits, h.super, hV.nbits]
  reserved b hb := by
    have hr := (h.reserved b).mp hb
    exact hm b (Or.inl hr) (hV.reserved b hr)
  beyond b hb hlt := by
    rw [h.super] at hb
    rw [h.nbits] at hlt
    exact hm b (Or.inr hb) (hV.beyond b hb hlt)

end SameVolume

theorem Sfs.Volume.setVnode {s : Sfs} (h : s.Volume) (i : Nat) (v : Option Vnode) :
    (s.setVnode i v).Volume := (SameVolume.setVnode s i v).volume h fun _ _ => id

theorem Sfs.Volume.setBlock {s : Sfs} (h : s.Volume) (b : Nat) (data : Mem) :
    (s.setBlock b data).Volume :=
  ⟨h.nblocks_le, h.nblocks_le_device, h.device_lt, h.eio, h.nbits, h.reserved, h.beyond⟩

theorem Sfs.Volume.withTable {s : Sfs} (h : s.Volume) (a : KArray Nat) (heap : Heap) :
    Sfs.Volume { s with sfs_vnodes := a, heap := heap } :=
  ⟨h.nblocks_le, h.nblocks_le_device, h.device_lt, h.eio, h.nbits, h.reserved, h.beyond⟩

/-! ## Allocating and freeing -/

structure Balloc (s s' : Sfs) (b : Nat) : Prop where
  same : SameVolume s s'
  volume : s'.Volume
  vnodes : s'.vnodes = s.vnodes
  sect : s'.sect = Function.update s.sect b fun _ => 0
  fresh : b ∉ s.used
  pos : b ≠ 0
  lt : b < s.sfs_super.sp_nblocks
  used : s'.used = insert b s.used

theorem sfs_balloc_first {s : Sfs} (hV : s.Volume) :
    sfs_balloc s = .ok (.error .ENOSPC, s) ∧ (∀ c < s.sfs_freemap.nbits, s.sfs_freemap.Marked c) ∨
    ∃ b s', sfs_balloc s = .ok (.ok b, s') ∧ Balloc s s' b ∧ (∀ c < b, s.sfs_freemap.Marked c) ∧
      ¬ s.sfs_freemap.Marked b ∧ ∀ c, s'.sfs_freemap.Marked c ↔ c = b ∨ s.sfs_freemap.Marked c := by
  have hle := hV.nblocks_le
  have hnb := hV.nbits
  have hround : s.sfs_freemap.nbits % 8 = 0 ∧ s.sfs_freemap.nbits < 2 ^ 32 - 8 := by
    rw [hnb, SFS_BITMAPSIZE, SFS_ROUNDUP]
    simp only [SFS_BLOCKBITS, SFS_BLOCKSIZE]
    omega
  rw [sfs_balloc, bind_ok (get_run s)]
  rcases bitmap_alloc_cases hround.2.le (spare_of_words hround.1) with
    ⟨h, hfull⟩ | ⟨m, b, h, hlt, hfree, hfirst, hbits, hmark⟩
  · rw [h]
    exact Or.inl ⟨rfl, hfull⟩
  right
  rw [h]
  -- a free bit is neither reserved nor past the end of the volume
  have hb : b < s.sfs_super.sp_nblocks := by
    by_contra hge
    exact hfree (hV.beyond b (by omega) hlt)
  have hres : ¬ s.Reserved b := fun hr => hfree (hV.reserved b hr)
  have hsame : SameVolume s (s.setFreemap m) := .setFreemap hbits
  have hV' : (s.setFreemap m).Volume := hsame.volume hV fun c _ hc => (hmark c).mpr (Or.inr hc)
  refine ⟨b, (s.setFreemap m).setBlock b fun _ => 0, ?_, ?_, hfirst, hfree, hmark⟩
  · refine (bind_ok (set_run _ _)).trans ((bind_ok (ensure_run _ _ _ hb)).trans ?_)
    exact bind_ok (sfs_wblock_run hV' hb _)
  · refine ⟨hsame.trans (.setBlock (s := s.setFreemap m) hres _), hV'.setBlock b _, rfl, ?_, fun hu => hfree hu.2.1, fun h0 => hres (Or.inl h0), hb, ?_⟩
    · simp
    · ext c
      rw [setBlock_used]
      change (c < _ ∧ m.Marked c ∧ ¬ s.Reserved c) ↔ c = b ∨ (c < _ ∧ _ ∧ ¬ s.Reserved c)
      rw [hmark]
      constructor
      · rintro ⟨h1, rfl | h2, h3⟩
        · exact Or.inl rfl
        · exact Or.inr ⟨h1, h2, h3⟩
      · rintro (rfl | ⟨h1, h2, h3⟩)
        · exact ⟨hb, Or.inl rfl, hres⟩
        · exact ⟨h1, Or.inr h2, h3⟩

theorem sfs_balloc_cases {s : Sfs} (hV : s.Volume) :
    sfs_balloc s = .ok (.error .ENOSPC, s) ∨
    ∃ b s', sfs_balloc s = .ok (.ok b, s') ∧ Balloc s s' b := by
  rcases sfs_balloc_first hV with ⟨h, -⟩ | ⟨b, s', h, hb, -⟩
  · exact Or.inl h
  · exact Or.inr ⟨b, s', h, hb⟩

structure Bfree (s s' : Sfs) (b : Nat) : Prop where
  same : SameVolume s s'
  volume : s'.Volume
  vnodes : s'.vnodes = s.vnodes
  sect : s'.sect = s.sect
  used : s'.used = s.used \ {b}

theorem sfs_bfree_run {s : Sfs} {b : Nat} (hV : s.Volume) (hb : b ∈ s.used) :
    ∃ s', sfs_bfree b s = .ok (.ok (), s') ∧ Bfree s s' b := by
  have hlt : b < s.sfs_freemap.nbits := by
    have := hV.nblocks_le
    have := used_lt hb
    rw [hV.nbits, SFS_BITMAPSIZE, SFS_ROUNDUP]
    simp only [SFS_BLOCKBITS, SFS_BLOCKSIZE]
    omega
  obtain ⟨m, h, hbits, hmark⟩ := bitmap_unmark_spec hlt hb.2.1
  have hsame : SameVolume s (s.setFreemap m) := .setFreemap hbits
  have hV' : (s.setFreemap m).Volume := by
    refine hsame.volume hV fun c hc hm => (hmark c).mpr ⟨?_, hm⟩
    rintro rfl
    rcases hc with hc | hc
    · exact hb.2.2 hc
    · have := used_lt hb; omega
  refine ⟨s.setFreemap m, ?_, hsame, hV', rfl, rfl, ?_⟩
  · rw [sfs_bfree, bind_ok (get_run s), h]; rfl
  · ext c
    change (c < _ ∧ m.Marked c ∧ ¬ s.Reserved c) ↔ (c < _ ∧ _ ∧ ¬ s.Reserved c) ∧ c ≠ b
    rw [hmark]
    tauto

theorem sfs_bmap_check_run {s : Sfs} {b : Nat} (hb : b ≠ 0 → b ∈ s.used) :
    sfs_bmap_check b s = .ok (.ok b, s) := by
  rw [sfs_bmap_check]
  by_cases h0 : b ≠ 0
  · have hu := hb h0
    rw [if_pos h0]
    refine (bind_ok (sfs_bused_run (used_lt hu))).trans ?_
    exact bind_ok (ensure_run _ _ _ ((isset_iff _ _).mpr hu.2.1))
  · rw [if_neg h0]; rfl

end Os161
