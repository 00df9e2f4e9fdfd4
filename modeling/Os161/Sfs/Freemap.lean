import Os161.Sfs.Retry

/-! # The free map of a volume

What `sfs_domount` builds, for any superblock and any disk.
-/

namespace Os161

open Prog Words

def Bitmap.words (m : Bitmap) : Nat := DIVROUNDUP m.nbits BITS_PER_WORD

section Sizes

variable {n : Nat}

theorem bitmap_sizes (hn : n ≤ 2 ^ 32 - 4096) :
    n ≤ SFS_BITMAPSIZE n ∧ SFS_BITMAPSIZE n = 4096 * SFS_BITBLOCKS n ∧ SFS_BITBLOCKS n < 2 ^ 20 := by
  simp only [SFS_BITBLOCKS, SFS_BITMAPSIZE, SFS_ROUNDUP, SFS_BLOCKBITS, SFS_BLOCKSIZE]
  omega

theorem bitblocks_lt (n : Nat) : SFS_BITBLOCKS n < 2 ^ 20 := by
  simp only [SFS_BITBLOCKS, SFS_BITMAPSIZE, SFS_ROUNDUP, SFS_BLOCKBITS, SFS_BLOCKSIZE]
  omega

theorem words_of_nbits {m : Bitmap} (hm : m.nbits = SFS_BITMAPSIZE n) : m.words = 512 * SFS_BITBLOCKS n := by
  have : SFS_BITMAPSIZE n % 4096 = 0 ∧ SFS_BITMAPSIZE n < 2 ^ 32 := by
    simp only [SFS_BITMAPSIZE, SFS_ROUNDUP, SFS_BLOCKBITS, SFS_BLOCKSIZE]
    omega
  simp only [Bitmap.words, DIVROUNDUP, BITS_PER_WORD, SFS_BITBLOCKS, SFS_BLOCKBITS, SFS_BLOCKSIZE, hm]
  omega

end Sizes

theorem bitmap_alloc_lt {m m' : Bitmap} {j : Nat} (h : bitmap_alloc m = some (.ok (m', j))) :
    j < m.nbits ∧ m'.nbits = m.nbits := by
  unfold bitmap_alloc at h
  split at h
  · cases h
  split at h
  · cases h
  dsimp only at h
  split at h
  · cases h
    exact ⟨by assumption, rfl⟩
  · cases h

/-! ## Reading the map -/

section Mapio

variable {s : Sfs}

structure MapRead (d : Device) (sp : Super) (m : Bitmap) (j : Nat) (t : Sfs) : Prop where
  sect : t.sect = d.sect
  d_blocks : t.sfs_device.d_blocks = d.d_blocks
  super : t.sfs_super = sp
  nbits : t.sfs_freemap.nbits = m.nbits
  fits : j = 0 ∨ 2 + j ≤ d.d_blocks
  bits : ∀ x, t.sfs_freemap.v x = if x < j * 512 then d.sect (2 + x / 512) (x % 512) else m.v x

theorem sfs_mapio_block_any {d : Device} {sp : Super} {m : Bitmap} {j : Nat} (h : MapRead d sp m j s)
    (hj : j < 2 ^ 20) :
    Holds (fun _ => True) (sfs_mapio_block .UIO_READ j) s fun r t => r = .ok () → MapRead d sp m (j + 1) t := by
  rw [sfs_mapio_block]
  refine holds_bind_run (get_run s) ?_
  dsimp only
  refine (sfs_rblock_any (SFS_MAP_LOCATION + j) s).bind ?_ fun _ _ _ h => by cases h
  rintro buf t ⟨⟨eio, rfl⟩, hbuf⟩
  rw [blockSector_eq (by simp only [SFS_MAP_LOCATION]; omega)] at hbuf
  obtain ⟨hlt, hbuf⟩ := hbuf buf rfl
  have hlt : 2 + j < d.d_blocks := h.d_blocks ▸ hlt
  refine holds_of_run (modify_run _ _) fun _ => ⟨h.sect, h.d_blocks, h.super, h.nbits, by omega, fun x => ?_⟩
  change Mem.copy s.sfs_freemap.v (j * 512) buf 0 512 x = _
  rw [hbuf, Mem.copy, Nat.zero_add, h.bits]
  by_cases h2 : j * 512 ≤ x ∧ x < j * 512 + 512
  · rw [if_pos h2, if_pos (show x - j * 512 < 512 by omega), if_pos (by omega), h.sect,
      show x / 512 = j by omega, show x % 512 = x - j * 512 by omega]
  · rw [if_neg h2]
    have : x < j * 512 ↔ x < (j + 1) * 512 := by omega
    simp only [this]

theorem sfs_mapio_loop_any {d : Device} {sp : Super} {m : Bitmap} {n j : Nat} (h : MapRead d sp m j s)
    (hn : j + n ≤ 2 ^ 20) :
    Holds (fun _ => True) (sfs_mapio_loop .UIO_READ n j) s fun r t => r = .ok () → MapRead d sp m (j + n) t := by
  induction n generalizing s j with
  | zero => exact holds_pure fun _ => h
  | succ n ih =>
    rw [sfs_mapio_loop]
    refine (sfs_mapio_block_any h (by omega)).bind (fun _ t ht => ?_) fun _ _ _ h => by cases h
    refine (ih (ht rfl) (by omega)).imp fun r t ht hr => ?_
    rw [show j + (n + 1) = j + 1 + n by omega]
    exact ht hr

end Mapio

/-! ## Mounting anything -/

structure MountedAny (d : Device) (t : Sfs) : Prop where
  magic : d.superblock.sp_magic = SFS_MAGIC
  super : t.sfs_super = d.superblock
  nbits : t.sfs_freemap.nbits = SFS_BITMAPSIZE d.superblock.sp_nblocks
  bits : ∀ x < t.sfs_freemap.words, t.sfs_freemap.v x = d.sect (2 + x / 512) (x % 512)
  past : ∀ x, t.sfs_freemap.words ≤ x → t.sfs_freemap.v x = 0
  fits : SFS_BITBLOCKS d.superblock.sp_nblocks = 0 ∨ 2 + SFS_BITBLOCKS d.superblock.sp_nblocks ≤ d.d_blocks

theorem bitmap_create_past {n : Nat} {h h' : Heap} {m : Bitmap} (hm : bitmap_create n h = (some m, h')) {x : Nat}
    (hx : m.words ≤ x) : m.v x = 0 := by
  unfold bitmap_create at hm
  dsimp only at hm
  split at hm
  · cases hm
  split at hm
  · cases hm
  split at hm
  · rename_i hlt
    cases hm
    have hne : x ≠ DIVROUNDUP n BITS_PER_WORD - 1 := by
      have hpos := Nat.lt_of_le_of_lt (Nat.zero_le _) hlt
      have : DIVROUNDUP n BITS_PER_WORD ≤ x := hx
      omega
    exact Function.update_of_ne hne _ _
  · cases hm
    rfl

theorem sfs_domount_super_any {s : Sfs} :
    Holds (fun _ => True) sfs_domount_super s fun r t => r = .ok () → s.sfs_device.superblock.sp_magic = SFS_MAGIC ∧
      ∃ eio, t = { s with
        sfs_super := s.sfs_device.superblock, sfs_device := { s.sfs_device with eio := eio } } := by
  rw [sfs_domount_super]
  refine (sfs_rblock_any SFS_SB_LOCATION s).bind ?_ fun _ _ _ h => by cases h
  rintro buf t ⟨⟨eio, rfl⟩, hbuf⟩
  rw [blockSector_eq (by decide)] at hbuf
  obtain ⟨-, rfl⟩ := hbuf buf rfl
  dsimp only
  split
  · exact holds_throw fun h => by cases h
  · rename_i hmagic
    exact holds_of_run (modify_run _ _) fun _ => ⟨not_not.mp hmagic, eio, rfl⟩

theorem sfs_domount_freemap_any {s : Sfs} :
    Holds (fun _ => True) sfs_domount_freemap s fun r t => r = .ok () → t.sfs_super = s.sfs_super ∧
      t.sfs_freemap.nbits = SFS_BITMAPSIZE s.sfs_super.sp_nblocks ∧
      (∀ x < t.sfs_freemap.words, t.sfs_freemap.v x = s.sect (2 + x / 512) (x % 512)) ∧
      (∀ x, t.sfs_freemap.words ≤ x → t.sfs_freemap.v x = 0) ∧
      (SFS_BITBLOCKS s.sfs_super.sp_nblocks = 0 ∨
        2 + SFS_BITBLOCKS s.sfs_super.sp_nblocks ≤ s.sfs_device.d_blocks) := by
  rw [sfs_domount_freemap]
  refine holds_bind_run (get_run s) (holds_bind_run (alloc_run _ _) ?_)
  cases hc : bitmap_create (SFS_BITMAPSIZE s.sfs_super.sp_nblocks) s.heap with
  | mk m heap =>
    dsimp only
    cases m with
    | none => exact holds_throw fun h => by cases h
    | some m =>
      have hnbits := bitmap_create_nbits hc
      have hfirst : MapRead s.sfs_device s.sfs_super m 0 { s with heap := heap, sfs_freemap := m } :=
        ⟨rfl, rfl, rfl, rfl, .inl rfl, fun x => (if_neg (by omega)).symm⟩
      have hloop := sfs_mapio_loop_any (n := SFS_BITBLOCKS s.sfs_super.sp_nblocks) hfirst
        (by have := bitblocks_lt s.sfs_super.sp_nblocks; omega)
      refine holds_bind_run (modify_run _ _) ?_
      refine Holds.bind (Q := fun r t => r = .ok () →
        MapRead s.sfs_device s.sfs_super m (0 + SFS_BITBLOCKS s.sfs_super.sp_nblocks) t) ?_ ?_ fun _ _ _ h => by cases h
      · rw [sfs_mapio]
        exact holds_bind_run (get_run _) hloop
      · intro _ t ht
        have ht := ht rfl
        have hwords : t.sfs_freemap.words = 512 * SFS_BITBLOCKS s.sfs_super.sp_nblocks :=
          words_of_nbits (ht.nbits.trans hnbits)
        have hfits := ht.fits
        refine holds_of_run (modify_run _ _) fun _ =>
          ⟨ht.super, ht.nbits.trans hnbits, fun x hx => ?_, fun x hx => ?_, by omega⟩
        · have hx : x < t.sfs_freemap.words := hx
          exact (ht.bits x).trans (if_pos (by omega))
        · have hx : t.sfs_freemap.words ≤ x := hx
          refine (ht.bits x).trans ((if_neg (by omega)).trans (bitmap_create_past hc ?_))
          rw [words_of_nbits hnbits]
          omega

theorem sfs_domount_any {d : Device} {heap : Heap} {t : Sfs}
    (hmount : sfs_domount (Sfs.new d heap) = .ok (.ok (), t)) : MountedAny d t := by
  rw [sfs_domount] at hmount
  obtain ⟨a, s₁, h₁, hmount⟩ := bind_eq_ok.mp hmount
  cases h₁
  split at hmount
  rotate_left
  · cases hmount
  obtain ⟨a, s₂, h₂, hmount⟩ := bind_eq_ok.mp hmount
  cases h₂
  split at hmount
  rotate_left
  · cases hmount
  obtain ⟨a, s₃, h₃, hmount⟩ := bind_eq_ok.mp hmount
  obtain ⟨hmagic, eio, rfl⟩ := sfs_domount_super_any.post h₃ rfl
  obtain ⟨hsuper, hnbits, hbits, hpast, hfits⟩ := sfs_domount_freemap_any.post hmount rfl
  exact ⟨hmagic, hsuper, hnbits, hbits, hpast, hfits⟩

end Os161
