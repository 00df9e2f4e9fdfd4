import Os161.Sfs.Reach

/-! # `mksfs` and the kernel agree

A disk that `mksfs` writes is mounted as it was meant: its size, its name, an empty root directory,
and all other blocks free.
-/

namespace Os161

open Prog Words

/-! ## `mksfs` writes a volume -/

section Format

variable {d : Device} {volname name : CStr}

theorem doallocbit_isSome (bitbuf : Mem) (bit : Nat) (h : ¬ BitSet bitbuf bit) : ∃ buf', doallocbit bitbuf bit = some buf' := by
  have h0 : bitbuf (bit / 8) &&& 1#8 <<< (bit % 8) = 0 := by
    rw [byte_and_mask]
    intro _
    simpa [BitSet, Bitmap.Marked] using h
  exact ⟨_, if_pos h0⟩

theorem doallocbits_isSome (l : List Nat) (bitbuf : Mem) (hnodup : l.Nodup) (h : ∀ i ∈ l, ¬ BitSet bitbuf i) :
    ∃ buf', l.foldlM doallocbit bitbuf = some buf' := by
  induction l generalizing bitbuf with
  | nil => exact ⟨_, rfl⟩
  | cons a l ih =>
    obtain ⟨hnot, hnodup⟩ := List.nodup_cons.mp hnodup
    obtain ⟨buf₁, h₁⟩ := doallocbit_isSome bitbuf a (h a List.mem_cons_self)
    rw [List.foldlM_cons, h₁]
    refine ih buf₁ hnodup fun i hi hset => ?_
    rcases (doallocbit_some h₁ i).mp hset with rfl | hset
    · exact hnot hi
    · exact h i (List.mem_cons_of_mem _ hi) hset

theorem writebitmap_blocks_isSome (bitbuf : Mem) {n i : Nat} (h : 2 + i + n ≤ d.d_blocks) :
    ∃ d', writebitmap_blocks bitbuf n i d = some d' := by
  induction n generalizing i d with
  | zero => exact ⟨_, rfl⟩
  | succ n ih =>
    rw [writebitmap_blocks, diskwrite, if_pos (by simp only [SFS_MAP_LOCATION]; omega)]
    exact ih (by dsimp only; omega)

theorem mksfs_volname_eq (hcolon : 0x3a ∉ name.chars) (hslash : 0x2f ∉ name.chars)
    (hvol : volname.chars = name.chars ∨ volname.chars = name.chars ++ [0x3a]) : mksfs_volname volname = some name := by
  have htake : volname.chars.takeWhile (· ≠ 0x3a) = name.chars := by
    have hall : ∀ c ∈ name.chars, decide (c ≠ 0x3a) = true := fun c hc => by
      have : c ≠ 0x3a := fun h => hcolon (h ▸ hc)
      simpa using this
    rcases hvol with hvol | hvol <;> rw [hvol]
    · rw [← List.append_nil name.chars, List.takeWhile_append_of_pos hall, List.takeWhile_nil]
    · rw [List.takeWhile_append_of_pos hall]
      simp
  have hlen : ¬ volname.chars.length > name.chars.length + 1 := by
    rcases hvol with hvol | hvol <;> rw [hvol] <;> simp
  unfold mksfs_volname
  simp only [htake, if_neg hlen, if_neg hslash]

theorem bitblocks_le {n : Nat} (hlo : 3 ≤ n) (hhi : n ≤ 32 * 4096) :
    SFS_BITBLOCKS n ≤ 32 ∧ 2 + SFS_BITBLOCKS n ≤ n := by
  simp only [SFS_BITBLOCKS, SFS_BITMAPSIZE, SFS_ROUNDUP, SFS_BLOCKBITS, SFS_BLOCKSIZE]
  omega

theorem mksfs_isSome (hname : mksfs_volname volname = some name) (hlen : name.chars.length < 32)
    (hb32 : SFS_BITBLOCKS d.d_blocks ≤ 32) (hb : 2 + SFS_BITBLOCKS d.d_blocks ≤ d.d_blocks) :
    ∃ d', mksfs volname d = some d' := by
  obtain ⟨buf₀, h₀⟩ := doallocbit_isSome (fun _ => 0) SFS_SB_LOCATION (by simp [BitSet, Bitmap.Marked])
  have hs₀ : ∀ i, BitSet buf₀ i ↔ i = 0 := fun i => by
    rw [doallocbit_some h₀]
    simp [BitSet, Bitmap.Marked]
  obtain ⟨buf₁, h₁⟩ := doallocbit_isSome buf₀ SFS_ROOT_LOCATION (by rw [hs₀]; decide)
  have hs₁ : ∀ i, BitSet buf₁ i ↔ i < 2 := fun i => by
    rw [doallocbit_some h₁, hs₀]
    simp only [SFS_ROOT_LOCATION]
    omega
  obtain ⟨buf₂, h₂⟩ := doallocbits_isSome (List.range' SFS_MAP_LOCATION (SFS_BITBLOCKS d.d_blocks)) buf₁
    List.nodup_range' fun i hi => by
      rw [hs₁]
      rw [List.mem_range'_1] at hi
      simp only [SFS_MAP_LOCATION] at hi
      omega
  have hs₂ : ∀ i, BitSet buf₂ i ↔ i < 2 + SFS_BITBLOCKS d.d_blocks := fun i => by
    rw [doallocbits_some h₂, hs₁, List.mem_range'_1]
    simp only [SFS_MAP_LOCATION]
    omega
  obtain ⟨buf₃, h₃⟩ := doallocbits_isSome (List.range' d.d_blocks (SFS_BITMAPSIZE d.d_blocks - d.d_blocks)) buf₂
    List.nodup_range' fun i hi => by
      rw [hs₂]
      rw [List.mem_range'_1] at hi
      omega
  have hsuper : ∃ d₁ : Device, writesuper name d.d_blocks d = some d₁ ∧ d₁.d_blocks = d.d_blocks := by
    rw [writesuper, if_neg (by simp only [SFS_VOLNAME_SIZE]; omega), diskwrite,
      if_pos (by simp only [SFS_SB_LOCATION]; omega)]
    exact ⟨_, rfl, rfl⟩
  obtain ⟨d₁, hd₁, hblocks₁⟩ := hsuper
  have hroot : ∃ d₂ : Device, writerootdir d₁ = some d₂ ∧ d₂.d_blocks = d.d_blocks := by
    rw [writerootdir, diskwrite, if_pos (by simp only [SFS_ROOT_LOCATION]; omega)]
    exact ⟨_, rfl, hblocks₁⟩
  obtain ⟨d₂, hd₂, hblocks₂⟩ := hroot
  obtain ⟨d₃, hd₃⟩ := writebitmap_blocks_isSome (d := d₂) buf₃ (n := SFS_BITBLOCKS d.d_blocks) (i := 0)
    (by omega)
  refine ⟨d₃, ?_⟩
  simp only [mksfs, hname, hd₁, hd₂, writebitmap, h₀, h₁, h₂, h₃, if_neg (show ¬ SFS_BITBLOCKS d.d_blocks > MAXBITBLOCKS by
    simp only [MAXBITBLOCKS]; omega), Option.bind_eq_bind, Option.bind_some, hd₃]

end Format

/-! ## The kernel finds it -/

def sfs_ballocs : Nat → Prog Panic Errno Sfs (List Nat)
  | 0 => pure []
  | n + 1 => do
    let b ← sfs_balloc
    let bs ← sfs_ballocs n
    return b :: bs

structure FreeFrom (k : Nat) (s : Sfs) : Prop where
  volume : s.Volume
  bits : ∀ b < s.sfs_freemap.nbits, s.sfs_freemap.Marked b ↔ b < k ∨ s.sfs_super.sp_nblocks ≤ b

section Free

variable {s : Sfs} {k n : Nat}

theorem FreeFrom.nblocks_le (h : FreeFrom k s) : s.sfs_super.sp_nblocks ≤ s.sfs_freemap.nbits := by
  have hle := h.volume.nblocks_le
  rw [h.volume.nbits, SFS_BITMAPSIZE, SFS_ROUNDUP]
  simp only [SFS_BLOCKBITS, SFS_BLOCKSIZE]
  omega

theorem FreeFrom.balloc (h : FreeFrom k s) (hk : k < s.sfs_super.sp_nblocks) :
    ∃ s', sfs_balloc s = .ok (.ok k, s') ∧ FreeFrom (k + 1) s' ∧ s'.sfs_super = s.sfs_super := by
  have hle := h.nblocks_le
  have hfree : ¬ s.sfs_freemap.Marked k := by
    rw [h.bits k (by omega)]
    omega
  rcases sfs_balloc_first h.volume with ⟨-, hfull⟩ | ⟨b, s', hrun, hb, hbelow, hnot, hmark⟩
  · exact absurd (hfull k (by omega)) hfree
  · have hbk : b = k := by
      have hlt := hb.lt
      rcases Nat.lt_trichotomy b k with hlt' | rfl | hgt
      · exact absurd ((h.bits b (by omega)).mpr (Or.inl hlt')) hnot
      · rfl
      · exact absurd (hbelow k hgt) hfree
    subst hbk
    refine ⟨s', hrun, ⟨hb.volume, fun c hc => ?_⟩, hb.same.super⟩
    rw [hb.same.nbits] at hc
    rw [hmark, h.bits c hc, hb.same.super]
    omega

theorem FreeFrom.full (h : FreeFrom s.sfs_super.sp_nblocks s) : sfs_balloc s = .ok (.error .ENOSPC, s) := by
  rcases sfs_balloc_first h.volume with ⟨hrun, -⟩ | ⟨b, s', -, hb, -, hnot, -⟩
  · exact hrun
  · have hlt := hb.lt
    have hle := h.nblocks_le
    exact absurd ((h.bits b (by omega)).mpr (Or.inl hlt)) hnot

theorem FreeFrom.ballocs (h : FreeFrom k s) (hn : k + n = s.sfs_super.sp_nblocks) :
    ∃ s', sfs_ballocs n s = .ok (.ok (List.range' k n), s') ∧ sfs_balloc s' = .ok (.error .ENOSPC, s') := by
  induction n generalizing k s with
  | zero =>
    obtain rfl : k = s.sfs_super.sp_nblocks := hn
    exact ⟨s, rfl, h.full⟩
  | succ n ih =>
    obtain ⟨s₁, hrun, h₁, hsuper⟩ := h.balloc (by omega)
    obtain ⟨s', hrun', hfull⟩ := ih h₁ (by rw [hsuper]; omega)
    refine ⟨s', ?_, hfull⟩
    rw [sfs_ballocs, bind_ok hrun, bind_ok hrun', List.range'_succ]
    rfl

end Free

section Mount

variable {s : Sfs} {d : Device} {volname name : CStr}

theorem sfs_domount_run {d' : Device} (hd : d.Works) (h : mksfs volname d = some d') (hlen : name.chars.length < 32)
    (hname : mksfs_volname volname = some name) :
    ∃ s, sfs_domount (Sfs.new d' []) = .ok (.ok (), s) ∧ s.heap = [] ∧ s.vnodes = (fun _ => none) ∧
      s.sfs_vnodes = array_create ∧ Inv 0 s ∧
      Inode.decode (s.sect SFS_ROOT_LOCATION) = ⟨0, SFS_TYPE_DIR, 1, fun _ => 0, 0⟩ ∧ s.sfs_super.sp_nblocks = d.d_blocks ∧
      cstr s.sfs_super.sp_volname SFS_VOLNAME_SIZE = name.chars ∧ FreeFrom (2 + SFS_BITBLOCKS d.d_blocks) s := by
  obtain ⟨hf, hblocks, heio, name', hname', hnamed⟩ := mksfs_formatted h hd.eio
  obtain rfl := Option.some.inj (hname.symm.trans hname')
  have hd' : d'.Works := ⟨hblocks ▸ hd.size, heio⟩
  obtain ⟨_, s, hrun, hm, hok⟩ := (sfs_domount_mounted (X := fun _ => False) [] (hf.mountable hd')).exists
  obtain ⟨rfl, hheap⟩ := hok rfl
  have hm := hm rfl
  have hinv := (hm.inv hf hd').1
  have hn : s.sfs_super.sp_nblocks = d'.d_blocks := by rw [hm.super, hf.nblocks hd']
  refine ⟨s, hrun, hheap, hm.vnodes, hm.table, hinv, ?_, hn.trans hblocks, ?_, hinv.good.volume, fun b hb => ?_⟩
  · rw [Sfs.sect, hm.device]
    exact hf.root_inode
  · have hlt := hd'.lt
    have hvol := (superblock_eq (by omega) hnamed).2.2
    rw [hm.super, ← cstr_strcpy hlen]
    refine cstr_congr fun q hq => (hvol q hq).trans ?_
    split
    · rename_i h31
      rw [h31, strcpy, List.getD_eq_default _ _ (by omega)]
    · rfl
  · rw [hm.nbits, hf.nblocks hd'] at hb
    rw [hm.marked hf hd' hb, hn, hblocks]

theorem sfs_getroot_run (hinv : Inv 0 s) (hheap : s.heap = []) (hvn : s.vnodes = fun _ => none)
    (htable : s.sfs_vnodes = array_create) :
    ∃ s' v, sfs_getroot s = .ok (.ok SFS_ROOT_LOCATION, s') ∧ s'.vnodes SFS_ROOT_LOCATION = some v ∧
      v.vn_ops = .dirops ∧ v.sv_i = Inode.decode (s.sect SFS_ROOT_LOCATION) := by
  have htype := hinv.type SFS_ROOT_LOCATION (live_root s)
  rw [inodeOf_none (congrFun hvn _)] at htype
  obtain ⟨a, hload⟩ := sfs_loadvnode_first_run .dirops hinv.good.volume (hinv.mem_used (live_root s)) hheap htable
    (by rw [htype]; rfl)
  refine ⟨{ s with sfs_vnodes := a }.setVnode SFS_ROOT_LOCATION
    (some ⟨.dirops, 1, 0, Inode.decode (s.sect SFS_ROOT_LOCATION), false⟩),
    ⟨.dirops, 1, 0, Inode.decode (s.sect SFS_ROOT_LOCATION), false⟩, ?_, by simp, rfl, rfl⟩
  rw [sfs_getroot, bind_ok (attempt_ok hload)]
  rfl

/-- Every disk and every name that `mksfs` accepts: the kernel mounts the volume, finds an empty root directory, and
hands out all other blocks, each once. -/
theorem mksfs_agrees (hlo : 3 ≤ d.d_blocks) (hhi : d.d_blocks ≤ 32 * 4096) (heio : d.eio = [])
    (hlen : name.chars.length < SFS_VOLNAME_SIZE) (hcolon : 0x3a ∉ name.chars) (hslash : 0x2f ∉ name.chars)
    (hvol : volname.chars = name.chars ∨ volname.chars = name.chars ++ [0x3a]) :
    ∃ d' s, mksfs volname d = some d' ∧ sfs_domount (Sfs.new d' []) = .ok (.ok (), s) ∧
      s.sfs_super.sp_nblocks = d.d_blocks ∧ cstr s.sfs_super.sp_volname SFS_VOLNAME_SIZE = name.chars ∧
      (∃ s' v, sfs_getroot s = .ok (.ok SFS_ROOT_LOCATION, s') ∧ s'.vnodes SFS_ROOT_LOCATION = some v ∧
        v.vn_ops = .dirops ∧ v.sv_i = ⟨0, SFS_TYPE_DIR, 1, fun _ => 0, 0⟩) ∧
      ∃ s', sfs_ballocs (d.d_blocks - (SFS_MAP_LOCATION + SFS_BITBLOCKS d.d_blocks)) s =
          .ok (.ok (List.range' (SFS_MAP_LOCATION + SFS_BITBLOCKS d.d_blocks)
            (d.d_blocks - (SFS_MAP_LOCATION + SFS_BITBLOCKS d.d_blocks))), s') ∧
        sfs_balloc s' = .ok (.error .ENOSPC, s') := by
  have hname := mksfs_volname_eq hcolon hslash hvol
  obtain ⟨hb32, hle⟩ := bitblocks_le hlo hhi
  obtain ⟨d', hformat⟩ := mksfs_isSome hname hlen hb32 hle
  have hd : d.Works := ⟨by omega, heio⟩
  obtain ⟨s, hrun, hheap, hvn, htable, hinv, hino, hn, hvolname, hfree⟩ := sfs_domount_run hd hformat hlen hname
  obtain ⟨s', v, hroot, hv, hops, hsv⟩ := sfs_getroot_run hinv hheap hvn htable
  refine ⟨d', s, hformat, hrun, hn, hvolname, ⟨s', v, hroot, hv, hops, hsv.trans hino⟩, ?_⟩
  · exact hfree.ballocs (by rw [hn]; simp only [SFS_MAP_LOCATION]; omega)

theorem mksfs_agrees_three_blocks : ∃ d' s, mksfs (.ofBytes [0x61, 0x3a]) ⟨3, fun _ _ => 0, []⟩ = some d' ∧
    sfs_domount (Sfs.new d' []) = .ok (.ok (), s) ∧ cstr s.sfs_super.sp_volname SFS_VOLNAME_SIZE = [0x61] ∧
    sfs_balloc s = .ok (.error .ENOSPC, s) := by
  obtain ⟨d', s, hformat, hrun, -, hname, -, s', hall, hnone⟩ := @mksfs_agrees ⟨3, fun _ _ => 0, []⟩
    (.ofBytes [0x61, 0x3a]) (.ofBytes [0x61]) (by decide) (by decide) rfl (by decide) (by decide)
    (by decide) (.inr (by decide))
  have hs : s' = s := by
    have hzero : sfs_ballocs 0 s = .ok (.ok [], s') := hall
    cases hzero
    rfl
  exact ⟨d', s, hformat, hrun, hname, hs ▸ hnone⟩

end Mount

end Os161
