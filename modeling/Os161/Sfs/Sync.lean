import Os161.Sfs.Reach
import Os161.Sfs.Retry

/-! # `sfs_sync` and the next mount

What a sync writes is what the next mount reads.
-/

namespace Os161

open Prog Words

/-! ## `sfs_sync` -/

def sfs_sync_vnodes : List Nat → Prog Panic Errno Sfs Unit
  | [] => pure ()
  | ino :: rest => do
    let _ ← attempt (VOP_FSYNC ino)
    sfs_sync_vnodes rest

def sfs_sync_freemap : Prog Panic Errno Sfs Unit := do
  let s ← get
  if s.sfs_freemapdirty then
    sfs_mapio .UIO_WRITE
    modify fun s => { s with sfs_freemapdirty := false }

def sfs_sync_super : Prog Panic Errno Sfs Unit := do
  let s ← get
  if s.sfs_superdirty then
    sfs_wblock s.sfs_super.encode SFS_SB_LOCATION
    modify fun s => { s with sfs_superdirty := false }

def sfs_sync : Prog Panic Errno Sfs Unit := do
  let s ← get
  sfs_sync_vnodes s.sfs_vnodes.toList
  sfs_sync_freemap
  sfs_sync_super

/-! ## The superblock and the freemap on the disk -/

structure Stored (s : Sfs) : Prop where
  super : s.sfs_super = s.sfs_device.superblock
  magic : s.sfs_super.sp_magic = SFS_MAGIC
  map_le : 2 + SFS_BITBLOCKS s.sfs_super.sp_nblocks ≤ s.sfs_super.sp_nblocks
  superdirty : s.sfs_superdirty = false
  bits : s.sfs_freemapdirty = false →
    ∀ x < 512 * SFS_BITBLOCKS s.sfs_super.sp_nblocks, s.sect (2 + x / 512) (x % 512) = s.sfs_freemap.v x

section Stored

variable {s t : Sfs} {d : Device}

theorem reserved_map {x : Nat} (hx : x < 512 * SFS_BITBLOCKS s.sfs_super.sp_nblocks) : s.Reserved (2 + x / 512) := by
  refine .inr ⟨Nat.le_add_right 2 _, ?_⟩
  simp only [SFS_MAP_LOCATION]
  omega

theorem Stored.of_frame (h : Stored s) (hf : Frame s t) : Stored t := by
  have hsb : t.sfs_device.sect SFS_SB_LOCATION = s.sfs_device.sect SFS_SB_LOCATION := hf.fixed _ (.inl rfl)
  refine ⟨?_, hf.super ▸ h.magic, hf.super ▸ h.map_le, hf.superdirty.trans h.superdirty, fun hd x hx => ?_⟩
  · rw [hf.super, h.super, Device.superblock, Device.superblock, hsb]
  · rw [hf.super] at hx
    rcases hf.map with hd' | ⟨hd', hm⟩
    · rw [hd] at hd'
      cases hd'
    · rw [hf.fixed _ (reserved_map hx), hm, h.bits (hd'.symm.trans hd) x hx]

theorem Mounted.stored (h : Mounted d s) (hf : Formatted d) (hd : d.Works) : Stored s := by
  have hn := hf.nblocks hd
  refine ⟨by rw [h.super, h.device], h.super ▸ (hf.mountable hd).magic, ?_, h.superdirty, fun _ x hx => ?_⟩
  · rw [h.super, hn]
    exact hf.map_lt
  · rw [h.super] at hx
    rw [Sfs.sect, h.device, h.bits x hx]

theorem Reach.stored (h : Reach s) : Stored s := by
  induction h with
  | mount disk format run =>
    obtain ⟨hf, hd, hm⟩ := (sfs_domount_spec (X := fun _ => False) _ disk format).post run rfl
    exact hm.stored hf hd
  | call reach valid run ih => exact ih.of_frame ((exec_spec reach.inv valid).post run).change.toFrame

end Stored

/-! ## Writing everything back -/

section Sync

variable {L : Licence} {s₀ s t : Sfs}

structure Synced (l : List Nat) (s t : Sfs) : Prop where
  files : SameFiles s t
  same : SameVolume s t
  freemap : t.sfs_freemap = s.sfs_freemap
  clean : ∀ i v', t.vnodes i = some v' → v'.sv_dirty = true → i ∉ l ∧ ∃ v, s.vnodes i = some v ∧ v.sv_dirty = true
  loaded : ∀ i v, s.vnodes i = some v → ∃ v', t.vnodes i = some v'

theorem sfs_sync_vnodes_spec {l : List Nat} (h : Since L s₀ 0 s) (hl : ∀ i ∈ l, ∃ v, s.vnodes i = some v) :
    Holds Panic.Refs (sfs_sync_vnodes l) s fun r t => r = .ok () ∧ Since L s₀ 0 t ∧ Synced l s t := by
  induction l generalizing s with
  | nil =>
    exact holds_pure ⟨rfl, h, .refl s, .refl s, rfl, fun i v' hv hd => ⟨by simp, v', hv, hd⟩, fun i v hv => ⟨v, hv⟩⟩
  | cons i l ih =>
    obtain ⟨v, hv⟩ := hl i List.mem_cons_self
    obtain ⟨s₁, hrun, h₁, hfiles, hsame, hmap, hvn⟩ := sfs_sync_inode_run h hv
    have hloaded : ∀ j w, s.vnodes j = some w → ∃ w', s₁.vnodes j = some w' := by
      intro j w hw
      by_cases hj : j = i
      · subst hj
        exact ⟨_, by rw [hvn, Function.update_self]⟩
      · exact ⟨w, by rw [hvn, Function.update_of_ne hj, hw]⟩
    rw [sfs_sync_vnodes]
    have hfsync : Holds Panic.Refs (VOP_FSYNC i) s fun _ t => t = s₁ := by
      rw [VOP_FSYNC]
      exact vnode_check_bind vnode_check_refs hv false (holds_of_run hrun rfl)
    refine hfsync.bind_attempt fun _ t ht => ?_
    subst ht
    refine (ih h₁ fun j hj => ?_).imp fun r u hu => ?_
    · obtain ⟨w, hw⟩ := hl j (List.mem_cons_of_mem i hj)
      exact hloaded j w hw
    obtain ⟨hr, hs, hsync⟩ := hu
    refine ⟨hr, hs, hfiles.trans hsync.files, hsame.trans hsync.same, hsync.freemap.trans hmap, fun j w' hw' hd => ?_,
      fun j w hw => ?_⟩
    · obtain ⟨hnot, w, hw, hwd⟩ := hsync.clean j w' hw' hd
      rw [hvn] at hw
      by_cases hj : j = i
      · subst hj
        rw [Function.update_self] at hw
        obtain rfl := Option.some.inj hw
        cases hwd
      · rw [Function.update_of_ne hj] at hw
        exact ⟨by simp [hj, hnot], w, hw, hwd⟩
    · obtain ⟨w', hw'⟩ := hloaded j w hw
      exact hsync.loaded j w' hw'

theorem sfs_mapio_write_run {n j : Nat} (hV : s.Volume) (hn : 2 + j + n ≤ s.sfs_super.sp_nblocks) :
    ∃ f : Nat → Mem, sfs_mapio_loop .UIO_WRITE n j s =
        .ok (.ok (), { s with sfs_device := { s.sfs_device with sect := f } }) ∧
      ∀ b, f b = if 2 + j ≤ b ∧ b < 2 + j + n then
        (fun q => if q < 512 then s.sfs_freemap.v ((b - 2) * 512 + q) else 0) else s.sect b := by
  induction n generalizing s j with
  | zero => exact ⟨s.sect, rfl, fun b => by rw [if_neg (by omega)]⟩
  | succ n ih =>
    have hblock : sfs_mapio_block .UIO_WRITE j s =
        .ok (.ok (), s.setBlock (2 + j) fun q => s.sfs_freemap.v (j * 512 + q)) := by
      rw [sfs_mapio_block, bind_ok (get_run s)]
      exact sfs_wblock_run hV (show 2 + j < _ by omega) _
    obtain ⟨f, hrun, hf⟩ := ih (hV.setBlock (2 + j) fun q => s.sfs_freemap.v (j * 512 + q)) (j := j + 1)
      (show 2 + (j + 1) + n ≤ s.sfs_super.sp_nblocks by omega)
    refine ⟨f, by rw [sfs_mapio_loop, bind_ok hblock, hrun]; rfl, fun b => ?_⟩
    rw [hf, setBlock_sect, setBlock_freemap]
    by_cases hb : b = 2 + j
    · subst hb
      rw [if_neg (by omega), if_pos (by omega), Function.update_self, Nat.add_sub_cancel_left]
    · rw [Function.update_of_ne hb]
      have : (2 + (j + 1) ≤ b ∧ b < 2 + (j + 1) + n) ↔ (2 + j ≤ b ∧ b < 2 + j + (n + 1)) := by omega
      simp only [this]

theorem Stored.mountable (h : Stored s) (hV : s.Volume) : s.sfs_device.Mountable := by
  have hle := h.map_le
  have hdev := hV.nblocks_le_device
  refine ⟨h.super ▸ h.magic, h.super ▸ hV.nblocks_le, ?_, hV.device_lt, hV.eio⟩
  rw [← h.super]
  omega

structure Flushed (s t : Sfs) : Prop where
  vnodes : t.vnodes = s.vnodes
  freemap : t.sfs_freemap = s.sfs_freemap
  volume : t.Volume
  super : t.sfs_super = s.sfs_super
  sect : ∀ b, ¬ s.Reserved b → t.sect b = s.sect b
  stored : Stored t
  freemapdirty : t.sfs_freemapdirty = false

structure MapFlushed (s t : Sfs) : Prop where
  vnodes : t.vnodes = s.vnodes
  freemap : t.sfs_freemap = s.sfs_freemap
  volume : t.Volume
  super : t.sfs_super = s.sfs_super
  superdirty : t.sfs_superdirty = s.sfs_superdirty
  sb : t.sect SFS_SB_LOCATION = s.sect SFS_SB_LOCATION
  sect : ∀ b, ¬ s.Reserved b → t.sect b = s.sect b
  bits : ∀ x < 512 * SFS_BITBLOCKS t.sfs_super.sp_nblocks, t.sect (2 + x / 512) (x % 512) = t.sfs_freemap.v x
  freemapdirty : t.sfs_freemapdirty = false

theorem sfs_sync_freemap_flush (hV : s.Volume)
    (hmap : 2 + SFS_BITBLOCKS s.sfs_super.sp_nblocks ≤ s.sfs_super.sp_nblocks)
    (hbits : s.sfs_freemapdirty = false →
      ∀ x < 512 * SFS_BITBLOCKS s.sfs_super.sp_nblocks, s.sect (2 + x / 512) (x % 512) = s.sfs_freemap.v x) :
    ∃ t, sfs_sync_freemap s = .ok (.ok (), t) ∧ MapFlushed s t := by
  rw [sfs_sync_freemap, bind_ok (get_run s)]
  cases hd : s.sfs_freemapdirty with
  | false =>
    rw [if_neg (by decide)]
    exact ⟨s, rfl, rfl, rfl, hV, rfl, rfl, rfl, fun _ _ => rfl, hbits hd, hd⟩
  | true =>
    rw [if_pos rfl]
    obtain ⟨f, hrun, hf⟩ := sfs_mapio_write_run (j := 0) hV hmap
    have hmapio : sfs_mapio .UIO_WRITE s = .ok (.ok (), { s with sfs_device := { s.sfs_device with sect := f } }) := by
      rw [sfs_mapio, bind_ok (get_run s), hrun]
    refine ⟨_, (bind_ok hmapio).trans (modify_run _ _), rfl, rfl,
      ⟨hV.nblocks_le, hV.nblocks_le_device, hV.device_lt, hV.eio, hV.nbits, hV.reserved, hV.beyond⟩, rfl, rfl, ?_,
      fun b hb => ?_, fun x hx => ?_, rfl⟩
    · exact (hf _).trans (if_neg (by simp only [SFS_SB_LOCATION]; omega))
    · refine (hf b).trans (if_neg fun hc => hb (.inr ⟨?_, ?_⟩))
      · exact hc.1
      · simpa using hc.2
    · refine (congrFun (hf _) _).trans ?_
      dsimp only at hx
      rw [if_pos (by omega), if_pos (Nat.mod_lt x (by omega)), Nat.add_sub_cancel_left]
      exact congrArg _ (by omega)

theorem sfs_sync_freemap_run (hV : s.Volume) (hst : Stored s) :
    ∃ t, sfs_sync_freemap s = .ok (.ok (), t) ∧ Flushed s t := by
  obtain ⟨t, hrun, h⟩ := sfs_sync_freemap_flush hV hst.map_le hst.bits
  have hsb : t.sfs_device.sect SFS_SB_LOCATION = s.sfs_device.sect SFS_SB_LOCATION := h.sb
  refine ⟨t, hrun, h.vnodes, h.freemap, h.volume, h.super, h.sect, ?_, h.freemapdirty⟩
  refine ⟨?_, h.super ▸ hst.magic, h.super ▸ hst.map_le, h.superdirty.trans hst.superdirty, fun _ => h.bits⟩
  rw [h.super, hst.super, Device.superblock, Device.superblock, hsb]

theorem sfs_sync_clean (h : Inv 0 s) (run : sfs_sync s = .ok (.ok (), t)) :
    ∃ s₁, Since ⟨True, True⟩ s 0 s₁ ∧ Synced s.sfs_vnodes.toList s s₁ ∧
      (∀ i v, s₁.vnodes i = some v → v.sv_dirty = false) ∧
      (do sfs_sync_freemap; sfs_sync_super) s₁ = .ok (.ok (), t) := by
  have hloop := sfs_sync_vnodes_spec (L := ⟨True, True⟩) ⟨h, .refl s⟩ fun i hi => (h.table i).mp hi
  rw [sfs_sync] at run
  obtain ⟨_, _, hget, run⟩ := bind_eq_ok.mp run
  cases hget
  obtain ⟨_, s₁, hvnodes, run⟩ := bind_eq_ok.mp run
  obtain ⟨-, hsince, hsync⟩ := hloop.post hvnodes
  refine ⟨s₁, hsince, hsync, fun i v hv => ?_, run⟩
  cases hd : v.sv_dirty with
  | false => rfl
  | true =>
    obtain ⟨hnot, w, hw, -⟩ := hsync.clean i v hv hd
    exact absurd ((h.table i).mpr ⟨w, hw⟩) hnot

theorem sfs_sync_spec (h : Reach s) (run : sfs_sync s = .ok (.ok (), t)) :
    ∃ s₁, Inv 0 s₁ ∧ SameFiles s s₁ ∧ s₁.sfs_freemap = s.sfs_freemap ∧
      (∀ i v, s₁.vnodes i = some v → v.sv_dirty = false) ∧ Flushed s₁ t := by
  obtain ⟨s₁, hsince, hsync, hclean, run⟩ := sfs_sync_clean h.inv run
  obtain ⟨s₂, hfreemap, hfl⟩ := sfs_sync_freemap_run hsince.good.volume (h.stored.of_frame hsync.same.toFrame)
  rw [bind_ok hfreemap, sfs_sync_super, bind_ok (get_run _), hfl.stored.superdirty, if_neg (by decide)] at run
  cases run
  exact ⟨s₁, hsince.toInv, hsync.files, hsync.freemap, hclean, hfl⟩

end Sync

/-! ## The next mount -/

section Remount

variable {s s₁ t u : Sfs} {i : Nat}

theorem SameFiles.of_used {δ : Nat → Int} (h : Inv δ s) (hino : ∀ j, s.Live j → t.inodeOf j = s.inodeOf j)
    (hsect : ∀ b ∈ s.used, t.sect b = s.sect b) :
    (∀ j, s.Live j → t.fileByte j = s.fileByte j) ∧ t.dirent = s.dirent := by
  have href : ∀ j, s.Live j → t.ref j = s.ref j := by
    intro j hj
    funext k
    have hind := h.good.holding.mem j hj .indirect
    simp only [Sfs.ref, Inode.ref] at hind
    rw [Sfs.ref, Sfs.ref, hino j hj]
    cases k <;> simp only [Inode.ref]
    split
    · rfl
    · rw [hsect _ (hind (by assumption))]
  have hbytes : ∀ j, s.Live j → t.fileByte j = s.fileByte j := by
    intro j hj
    refine fileByte_congr fun k _ _ q _ => ?_
    rw [Sfs.slotByte, Sfs.slotByte, href j hj]
    split
    · rfl
    · rw [hsect _ (h.good.holding.mem j hj k (by assumption))]
  exact ⟨hbytes, (dirent_congr (by rw [hino _ (live_root s)]) (hbytes _ (live_root s))).1⟩

theorem Flushed.marked (h : Flushed s t) (hm : Mounted t.sfs_device u) {b : Nat} (hb : b < s.sfs_freemap.nbits) :
    u.sfs_freemap.Marked b ↔ s.sfs_freemap.Marked b := by
  have hV := h.volume
  obtain ⟨hsize, -, -⟩ := bitmap_size hV.nblocks_le
  rw [← h.freemap, hV.nbits] at hb
  have hbyte : u.sfs_freemap.v (b / 8) = s.sfs_freemap.v (b / 8) := by
    rw [hm.bits _ (by rw [← h.stored.super]; omega), ← h.freemap]
    exact h.stored.bits h.freemapdirty _ (by omega)
  exact iff_of_eq (congrArg (fun w : Byte => w.getLsbD (b % 8) = true) hbyte)

theorem Flushed.remount (h : Flushed s t) (hinv : Inv 0 s) (hclean : ∀ i v, s.vnodes i = some v → v.sv_dirty = false)
    (hm : Mounted t.sfs_device u) :
    u.Volume ∧ u.used = s.used ∧ (∀ b ∈ s.used, u.sect b = s.sect b) ∧
      ∀ j, s.Live j → Inode.decode (u.sect j) = s.inodeOf j := by
  have hsuper : u.sfs_super = s.sfs_super := by rw [hm.super, ← h.stored.super, h.super]
  have hV := hinv.good.volume
  obtain ⟨-, hle, -⟩ := bitmap_size hV.nblocks_le
  have hnbits : u.sfs_freemap.nbits = s.sfs_freemap.nbits := by
    rw [hm.nbits, hV.nbits, ← h.stored.super, h.super]
  have hres : ∀ b, u.Reserved b ↔ s.Reserved b := fun b => by rw [Sfs.Reserved, Sfs.Reserved, hsuper]
  have hmark : ∀ b < s.sfs_freemap.nbits, u.sfs_freemap.Marked b ↔ s.sfs_freemap.Marked b := fun b hb => h.marked hm hb
  have hmap := h.stored.map_le
  have hreserved : ∀ b, s.Reserved b → b < s.sfs_freemap.nbits := by
    intro b hb
    rw [h.super] at hmap
    rw [hV.nbits]
    rcases hb with rfl | ⟨-, hb⟩
    · simp only [SFS_SB_LOCATION]; omega
    · simp only [SFS_MAP_LOCATION] at hb; omega
  have hdev := h.volume
  have hsect : ∀ b ∈ s.used, u.sect b = s.sect b := by
    intro b hb
    rw [Sfs.sect, hm.device]
    exact h.sect b hb.2.2
  refine ⟨⟨hsuper ▸ hV.nblocks_le, ?_, ?_, ?_, ?_, fun b hb => ?_, fun b hb hlt => ?_⟩, ?_, hsect, fun j hj => ?_⟩
  · rw [hsuper, hm.device, ← h.super]
    exact hdev.nblocks_le_device
  · rw [hm.device]
    exact hdev.device_lt
  · rw [hm.device]
    exact hdev.eio
  · rw [hnbits, hsuper, hV.nbits]
  · have hb' := (hres b).mp hb
    exact (hmark b (hreserved b hb')).mpr (hV.reserved b hb')
  · rw [hnbits] at hlt
    exact (hmark b hlt).mpr (hV.beyond b (hsuper ▸ hb) hlt)
  · ext b
    change (b < u.sfs_super.sp_nblocks ∧ _ ∧ _) ↔ (b < s.sfs_super.sp_nblocks ∧ _ ∧ _)
    rw [hsuper, hres]
    refine and_congr_right fun hb => and_congr_left fun _ => hmark b ?_
    rw [hV.nbits]
    omega
  · rw [hsect j (hinv.mem_used hj)]
    cases hv : s.vnodes j with
    | none => rw [inodeOf_none hv]
    | some v => rw [inodeOf_some hv, hinv.clean j v hv (hclean j v hv)]

/-- A sync that returns 0 leaves nothing dirty, and the next mount finds the same blocks in use, the same directory
and the same contents. -/
theorem sync_then_remount (h : Reach s) (run : sfs_sync s = .ok (.ok (), t)) :
    t.sfs_superdirty = false ∧ t.sfs_freemapdirty = false ∧ (∀ i v, t.vnodes i = some v → v.sv_dirty = false) ∧
    ∃ u, sfs_domount (Sfs.new t.sfs_device []) = .ok (.ok (), u) ∧
      u.sfs_freemap.nbits = s.sfs_freemap.nbits ∧
      (∀ b < s.sfs_freemap.nbits, u.sfs_freemap.Marked b ↔ s.sfs_freemap.Marked b) ∧
      u.dirent = s.dirent ∧
      ∀ i, s.Live i → ∃ u' v, sfs_loadvnode i SFS_TYPE_INVAL u = .ok (.ok i, u') ∧ u'.vnodes i = some v ∧
        v.sv_i = s.inodeOf i ∧ u'.fileByte i = s.fileByte i := by
  obtain ⟨s₁, hinv, hfiles, hmap, hclean, hfl⟩ := sfs_sync_spec h run
  obtain ⟨_, u, hmount, hm, hok⟩ :=
    (sfs_domount_mounted (X := fun _ => False) [] (hfl.stored.mountable hfl.volume)).exists
  obtain ⟨rfl, hheap⟩ := hok rfl
  have hm := hm rfl
  obtain ⟨hV, hused, hsect, hdec⟩ := hfl.remount hinv hclean hm
  have hino : ∀ j, s₁.Live j → u.inodeOf j = s₁.inodeOf j := fun j hj => by
    rw [inodeOf_none (by rw [hm.vnodes]), hdec j hj]
  obtain ⟨-, hdir⟩ := SameFiles.of_used hinv hino hsect
  refine ⟨hfl.stored.superdirty, hfl.freemapdirty, fun i v hv => hclean i v (hfl.vnodes ▸ hv), u, hmount, ?_,
    fun b hb => ?_, hdir.trans hfiles.dirent, fun i hi => ?_⟩
  · rw [hV.nbits, ← hmap, hinv.good.volume.nbits, hm.super, ← hfl.stored.super, hfl.super]
  · rw [hfl.marked hm (hmap ▸ hb), hmap]
  · have hi₁ := (hfiles.live i).mpr hi
    have htype : (Inode.decode (u.sect i)).sfi_type = typeOf i := by rw [hdec i hi₁, hinv.type i hi₁]
    have hops : sfs_loadvnode_ops (Inode.decode (u.sect i)).sfi_type u = .ok (.ok (opsOf i), u) := by
      rw [htype, sfs_loadvnode_ops, typeOf, opsOf]
      by_cases hr : i = SFS_ROOT_LOCATION
      · rw [if_pos hr, if_pos hr, if_neg (by decide), if_pos rfl, pure_run]
      · rw [if_neg hr, if_neg hr, if_pos rfl, pure_run]
    obtain ⟨a, hload⟩ := sfs_loadvnode_first_run (opsOf i) hV (hused ▸ hinv.mem_used hi₁) hheap hm.table hops
    refine ⟨_, _, hload, Function.update_self _ _ _, (hdec i hi₁).trans (hfiles.inodeOf i hi), ?_⟩
    refine Eq.trans ((SameFiles.of_used hinv (fun j hj => ?_) ?_).1 i hi₁) (hfiles.bytes i hi)
    swap
    · exact hsect
    by_cases hji : j = i
    · subst hji
      exact (inodeOf_some (Function.update_self _ _ _)).trans (hdec j hj)
    · rw [Sfs.inodeOf, setVnode_vnodes, Function.update_of_ne hji]
      exact hino j hj

theorem sync_then_remount_one_byte :
    ∃ s t u u' : Sfs, s.sfs_freemapdirty = true ∧ sfs_sync s = .ok (.ok (), t) ∧ t.sfs_freemapdirty = false ∧
      sfs_domount (Sfs.new t.sfs_device []) = .ok (.ok (), u) ∧ u.dirent 0 = some (3, [0x61]) ∧
      sfs_loadvnode 3 SFS_TYPE_INVAL u = .ok (.ok 3, u') ∧ u'.fileByte 3 0 = 0x62 := by
  obtain ⟨s, hs, hc⟩ := reach_runFresh
    [.getroot, .creat 1 (.ofBytes [0x61]) false, .write 3 (mk_kuio (fun _ => 0x62) 1 0 .UIO_WRITE)]
    (fun s => s.sfs_freemapdirty && decide (s.dirent 0 = some (3, [0x61])) && decide (s.fileByte 3 0 = 0x62) &&
      decide ((sfs_sync s).map Prod.fst = .ok (.ok ()))) (by decide +kernel)
  simp only [Bool.and_eq_true, decide_eq_true_eq] at hc
  obtain ⟨⟨⟨hdirty, hdir⟩, hbyte⟩, hrun⟩ := hc
  cases hsync : sfs_sync s with
  | error p => rw [hsync] at hrun; cases hrun
  | ok rt =>
    obtain ⟨r, t⟩ := rt
    rw [hsync] at hrun
    obtain rfl : r = .ok () := Except.ok.inj hrun
    have hlive : s.Live 3 := live_of_named (k := 0) (by rw [Sfs.named, hdir]; rfl)
    obtain ⟨-, hclean, -, u, hmount, -, -, hdir', hload⟩ := sync_then_remount hs hsync
    obtain ⟨u', v, hrun', -, -, hbytes⟩ := hload 3 hlive
    exact ⟨s, t, u, u', hdirty, hsync, hclean, hmount, hdir' ▸ hdir, hrun', by rw [hbytes, hbyte]⟩

end Remount

/-! ## What a result of 0 says -/

section Truth

variable {s t : Sfs}

theorem sfs_sync_super_run (hV : s.Volume) (hpos : 0 < s.sfs_super.sp_nblocks) :
    ∃ t, sfs_sync_super s = .ok (.ok (), t) ∧ t.vnodes = s.vnodes ∧ t.sfs_freemap = s.sfs_freemap ∧
      t.sfs_super = s.sfs_super ∧ t.sfs_freemapdirty = s.sfs_freemapdirty ∧ t.sfs_superdirty = false ∧
      ∀ b ≠ SFS_SB_LOCATION, t.sect b = s.sect b := by
  rw [sfs_sync_super, bind_ok (get_run s)]
  cases hd : s.sfs_superdirty with
  | false =>
    rw [if_neg (by decide)]
    exact ⟨s, rfl, rfl, rfl, rfl, rfl, hd, fun _ _ => rfl⟩
  | true =>
    rw [if_pos rfl]
    have hrun := sfs_wblock_run hV (show SFS_SB_LOCATION < s.sfs_super.sp_nblocks from hpos) s.sfs_super.encode
    exact ⟨_, (bind_ok hrun).trans (modify_run _ _), rfl, rfl, rfl, rfl, rfl, fun b hb => Function.update_of_ne hb _ _⟩

def Sfs.withErrors (s : Sfs) (eio : List Bool) : Sfs := { s with sfs_device := { s.sfs_device with eio := eio } }

end Truth

end Os161
