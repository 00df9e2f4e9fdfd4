import Os161.Sfs.Calls

/-! # `mksfs` and `sfs_domount`

A volume as `mksfs` writes it, and what mounting it gives.
-/

namespace Os161

open Prog Words

/-! ## `sbin/mksfs` -/

abbrev MAXBITBLOCKS : Nat := 32

/-- Each of these is `none` where `mksfs` exits with an error or an assertion fails. -/
def diskwrite (data : Mem) (block : Nat) (d : Device) : Option Device :=
  if block < d.d_blocks then
    some { d with sect := Function.update d.sect block fun i => if i < 512 then data i else 0 }
  else none

def writesuper (volname : CStr) (nblocks : Nat) (d : Device) : Option Device :=
  if volname.chars.length ≥ SFS_VOLNAME_SIZE then none
  else diskwrite (Super.encode ⟨SFS_MAGIC, nblocks, strcpy volname⟩) SFS_SB_LOCATION d

def writerootdir (d : Device) : Option Device :=
  diskwrite (Inode.encode ⟨0, SFS_TYPE_DIR, 1, fun _ => 0, 0⟩) SFS_ROOT_LOCATION d

def doallocbit (bitbuf : Mem) (bit : Nat) : Option Mem :=
  let byte := bit / 8
  let mask : Byte := 1#8 <<< (bit % 8)
  if bitbuf byte &&& mask = 0 then some (Function.update bitbuf byte (bitbuf byte ||| mask)) else none

def writebitmap_blocks (bitbuf : Mem) : Nat → Nat → Device → Option Device
  | 0, _, d => some d
  | n + 1, i, d => do
    let d ← diskwrite (fun q => bitbuf (i * SFS_BLOCKSIZE + q)) (SFS_MAP_LOCATION + i) d
    writebitmap_blocks bitbuf n (i + 1) d

def writebitmap (fsblocks : Nat) (d : Device) : Option Device := do
  let nbits := SFS_BITMAPSIZE fsblocks
  let nblocks := SFS_BITBLOCKS fsblocks
  if nblocks > MAXBITBLOCKS then none
  else
    let bitbuf ← doallocbit (fun _ => 0) SFS_SB_LOCATION
    let bitbuf ← doallocbit bitbuf SFS_ROOT_LOCATION
    let bitbuf ← (List.range' SFS_MAP_LOCATION nblocks).foldlM doallocbit bitbuf
    let bitbuf ← (List.range' fsblocks (nbits - fsblocks)).foldlM doallocbit bitbuf
    writebitmap_blocks bitbuf nblocks 0 d

def mksfs_volname (volname : CStr) : Option CStr :=
  let name := volname.chars.takeWhile (· ≠ 0x3a)
  if volname.chars.length > name.length + 1 then none
  else if 0x2f ∈ name then none
  else some ⟨name, fun c hc => volname.no_nul c (List.takeWhile_sublist _ |>.subset hc)⟩

def mksfs (volname : CStr) (d : Device) : Option Device := do
  let volname ← mksfs_volname volname
  let size := d.d_blocks
  let d ← writesuper volname size d
  let d ← writerootdir d
  writebitmap size d

/-! ## `sfs_fs.c` -/

def Sfs.setMapdata (s : Sfs) (v : Mem) : Sfs := { s with sfs_freemap := ⟨s.sfs_freemap.nbits, v⟩ }

def sfs_mapio_block (rw : UioRw) (j : Nat) : Prog Panic Errno Sfs Unit := do
  let s ← get
  match rw with
  | .UIO_READ =>
    let block ← sfs_rblock (SFS_MAP_LOCATION + j)
    modify fun s => s.setMapdata (Mem.copy s.sfs_freemap.v (j * SFS_BLOCKSIZE) block 0 SFS_BLOCKSIZE)
  | .UIO_WRITE => sfs_wblock (fun q => s.sfs_freemap.v (j * SFS_BLOCKSIZE + q)) (SFS_MAP_LOCATION + j)

def sfs_mapio_loop (rw : UioRw) : Nat → Nat → Prog Panic Errno Sfs Unit
  | 0, _ => pure ()
  | n + 1, j => do
    sfs_mapio_block rw j
    sfs_mapio_loop rw n (j + 1)

def sfs_mapio (rw : UioRw) : Prog Panic Errno Sfs Unit := do
  let s ← get
  sfs_mapio_loop rw (SFS_BITBLOCKS s.sfs_super.sp_nblocks) 0

def Sfs.new (dev : Device) (heap : Heap) : Sfs where
  sfs_super := ⟨0, 0, fun _ => 0⟩
  sfs_superdirty := false
  sfs_device := dev
  sfs_vnodes := array_create
  vnodes := fun _ => none
  sfs_freemap := ⟨0, fun _ => 0⟩
  sfs_freemapdirty := false
  heap := heap

def sfs_domount_super : Prog Panic Errno Sfs Unit := do
  let block ← sfs_rblock SFS_SB_LOCATION
  let super := Super.decode block
  if super.sp_magic ≠ SFS_MAGIC then
    throw .EINVAL
  else
    modify fun s => { s with sfs_super :=
      { super with sp_volname := Function.update super.sp_volname (SFS_VOLNAME_SIZE - 1) 0 } }

def sfs_domount_freemap : Prog Panic Errno Sfs Unit := do
  let s ← get
  match ← alloc (bitmap_create (SFS_BITMAPSIZE s.sfs_super.sp_nblocks)) with
  | none => throw .ENOMEM
  | some freemap =>
    modify fun s => { s with sfs_freemap := freemap }
    sfs_mapio .UIO_READ
    modify fun s => { s with sfs_superdirty := false, sfs_freemapdirty := false }

def sfs_domount : Prog Panic Errno Sfs Unit := do
  if ← alloc kmalloc then
    if ← alloc kmalloc then
      sfs_domount_super
      sfs_domount_freemap
    else
      throw .ENOMEM
  else
    throw .ENOMEM

/-! ## What `mksfs` leaves on the disk -/

section Format

variable {d d' : Device} {b : Nat}

def BitSet (bitbuf : Mem) (i : Nat) : Prop := Bitmap.Marked ⟨0, bitbuf⟩ i

theorem diskwrite_some {data : Mem} (h : diskwrite data b d = some d') :
    b < d.d_blocks ∧
      d' = { d with sect := Function.update d.sect b fun i => if i < 512 then data i else 0 } := by
  unfold diskwrite at h
  split at h
  · exact ⟨by assumption, (Option.some.inj h).symm⟩
  · cases h

theorem doallocbit_some {bitbuf buf' : Mem} {bit : Nat} (h : doallocbit bitbuf bit = some buf') (i : Nat) :
    BitSet buf' i ↔ i = bit ∨ BitSet bitbuf i := by
  unfold doallocbit at h
  dsimp only at h
  split at h
  · obtain rfl := Option.some.inj h
    exact marked_or ⟨0, bitbuf⟩ bit i
  · cases h

theorem doallocbits_some {l : List Nat} {bitbuf buf' : Mem} (h : l.foldlM doallocbit bitbuf = some buf')
    (i : Nat) : BitSet buf' i ↔ i ∈ l ∨ BitSet bitbuf i := by
  induction l generalizing bitbuf with
  | nil =>
    obtain rfl := Option.some.inj h
    simp
  | cons a l ih =>
    rw [List.foldlM_cons] at h
    obtain ⟨buf₁, h₁, h₂⟩ := Option.bind_eq_some_iff.mp h
    rw [ih h₂, doallocbit_some h₁, List.mem_cons]
    tauto

theorem writebitmap_blocks_some {bitbuf : Mem} {n i : Nat}
    (h : writebitmap_blocks bitbuf n i d = some d') :
    d'.d_blocks = d.d_blocks ∧ d'.eio = d.eio ∧ (n = 0 ∨ 2 + i + n ≤ d.d_blocks) ∧
      ∀ b, d'.sect b = if 2 + i ≤ b ∧ b < 2 + i + n
        then fun q => if q < 512 then bitbuf ((b - 2) * 512 + q) else 0 else d.sect b := by
  induction n generalizing i d with
  | zero =>
    obtain rfl := Option.some.inj h
    exact ⟨rfl, rfl, Or.inl rfl, fun b => by rw [if_neg (by omega)]⟩
  | succ n ih =>
    rw [writebitmap_blocks] at h
    obtain ⟨d₁, h₁, h₂⟩ := Option.bind_eq_some_iff.mp h
    obtain ⟨hlt, rfl⟩ := diskwrite_some h₁
    obtain ⟨hb, he, hle, hs⟩ := ih h₂
    dsimp only [SFS_MAP_LOCATION] at hlt hle
    refine ⟨hb, he, by omega, fun b => ?_⟩
    rw [hs]
    dsimp only
    by_cases hbi : b = 2 + i
    · subst hbi
      rw [if_neg (by omega), if_pos (by omega), Function.update_self, Nat.add_sub_cancel_left]
    · rw [Function.update_of_ne (show b ≠ SFS_MAP_LOCATION + i from hbi)]
      have : (2 + (i + 1) ≤ b ∧ b < 2 + (i + 1) + n) ↔ (2 + i ≤ b ∧ b < 2 + i + (n + 1)) := by omega
      simp only [this]

structure Formatted (d : Device) : Prop where
  one_lt : 1 < d.d_blocks
  map_lt : 2 + SFS_BITBLOCKS d.d_blocks ≤ d.d_blocks
  super : ∃ volname, ∀ q < 512, d.sect SFS_SB_LOCATION q = Super.encode ⟨SFS_MAGIC, d.d_blocks, volname⟩ q
  root : ∀ q < 512, d.sect SFS_ROOT_LOCATION q = Inode.encode ⟨0, SFS_TYPE_DIR, 1, fun _ => 0, 0⟩ q
  map : ∃ bitbuf : Mem,
    (∀ j < SFS_BITBLOCKS d.d_blocks, ∀ q < 512, d.sect (2 + j) q = bitbuf (j * 512 + q)) ∧
    ∀ i, BitSet bitbuf i ↔ i < 2 + SFS_BITBLOCKS d.d_blocks ∨
      d.d_blocks ≤ i ∧ i < SFS_BITMAPSIZE d.d_blocks

def Device.Named (d : Device) (name : CStr) : Prop :=
  ∀ q < 512, d.sect SFS_SB_LOCATION q = Super.encode ⟨SFS_MAGIC, d.d_blocks, strcpy name⟩ q

theorem mksfs_formatted {volname : CStr} (h : mksfs volname d = some d') (heio : d.eio = []) :
    Formatted d' ∧ d'.d_blocks = d.d_blocks ∧ d'.eio = [] ∧
      ∃ name, mksfs_volname volname = some name ∧ d'.Named name := by
  obtain ⟨name, hname, h⟩ := Option.bind_eq_some_iff.mp h
  obtain ⟨d₁, hsuper, h⟩ := Option.bind_eq_some_iff.mp h
  obtain ⟨d₂, hroot, h⟩ := Option.bind_eq_some_iff.mp h
  unfold writesuper at hsuper
  split at hsuper
  · cases hsuper
  obtain ⟨h0, rfl⟩ := diskwrite_some hsuper
  obtain ⟨h1, rfl⟩ := diskwrite_some hroot
  unfold writebitmap at h
  dsimp only at h
  split at h
  · cases h
  rename_i hle
  obtain ⟨buf₀, hb₀, h⟩ := Option.bind_eq_some_iff.mp h
  obtain ⟨buf₁, hb₁, h⟩ := Option.bind_eq_some_iff.mp h
  obtain ⟨buf₂, hb₂, h⟩ := Option.bind_eq_some_iff.mp h
  obtain ⟨buf₃, hb₃, h⟩ := Option.bind_eq_some_iff.mp h
  obtain ⟨hblocks, he, hmap, hsect⟩ := writebitmap_blocks_some h
  dsimp only [SFS_ROOT_LOCATION] at hblocks he hmap hsect h0 h1 hle
  have hbits : ∀ i, BitSet buf₃ i ↔ i < 2 + SFS_BITBLOCKS d.d_blocks ∨
      d.d_blocks ≤ i ∧ i < SFS_BITMAPSIZE d.d_blocks := by
    intro i
    have hzero : ¬ BitSet (fun _ => 0) i := by simp [BitSet, Bitmap.Marked]
    rw [doallocbits_some hb₃, doallocbits_some hb₂, doallocbit_some hb₁, doallocbit_some hb₀,
      List.mem_range'_1, List.mem_range'_1]
    simp only [hzero, or_false, SFS_SB_LOCATION, SFS_ROOT_LOCATION, SFS_MAP_LOCATION]
    omega
  have hsb : ∀ b < 2, d'.sect b = (Function.update (Function.update d.sect SFS_SB_LOCATION
      fun i => if i < 512 then Super.encode ⟨SFS_MAGIC, d.d_blocks, strcpy name⟩ i else 0) SFS_ROOT_LOCATION
      fun i => if i < 512 then Inode.encode ⟨0, SFS_TYPE_DIR, 1, fun _ => 0, 0⟩ i else 0) b := by
    intro b hb
    rw [hsect, if_neg (by omega)]
  have hnamed : d'.Named name := by
    intro q hq
    rw [hsb 0 (by omega), Function.update_of_ne (by decide), Function.update_self, if_pos hq, hblocks]
  refine ⟨⟨hblocks ▸ h1, by rw [hblocks]; omega, ⟨strcpy name, hnamed⟩, fun q hq => ?_,
    buf₃, fun j hj q hq => ?_, hblocks ▸ hbits⟩, hblocks, he.trans heio, name, hname, hnamed⟩
  · rw [hsb 1 (by omega), Function.update_self, if_pos hq]
  · rw [hblocks] at hj
    rw [hsect, if_pos (by omega), if_pos hq, Nat.add_sub_cancel_left]

end Format

/-! ## Mounting -/

section Mount

variable {X : Panic → Prop} {d : Device}

theorem Super.decode_encode {sp : Super} {m : Mem} (hm : ∀ q < 512, m q = sp.encode q)
    (h1 : sp.sp_magic < 2 ^ 32) (h2 : sp.sp_nblocks < 2 ^ 32) :
    (Super.decode m).sp_magic = sp.sp_magic ∧ (Super.decode m).sp_nblocks = sp.sp_nblocks := by
  have hw : ∀ k < 2, wordAt m k = (if k = 0 then sp.sp_magic else sp.sp_nblocks) % 2 ^ 32 := by
    intro k hk
    rw [← wordAt_bytesOf (fun k => if k = 0 then sp.sp_magic else sp.sp_nblocks) k]
    refine wordAt_congr fun q _ hq => ?_
    rw [hm q (by omega), Super.encode, if_pos (by omega)]
  exact ⟨(hw 0 (by omega)).trans (Nat.mod_eq_of_lt h1), (hw 1 (by omega)).trans (Nat.mod_eq_of_lt h2)⟩

theorem bitmap_size {n : Nat} (hn : n ≤ 2 ^ 22) :
    SFS_BITMAPSIZE n = 4096 * SFS_BITBLOCKS n ∧ n ≤ SFS_BITMAPSIZE n ∧ SFS_BITMAPSIZE n < 2 ^ 23 := by
  simp only [SFS_BITBLOCKS, SFS_BITMAPSIZE, SFS_ROUNDUP, SFS_BLOCKBITS, SFS_BLOCKSIZE]
  omega

def Device.superblock (d : Device) : Super :=
  let sp := Super.decode fun q => if q < 512 then d.sect SFS_SB_LOCATION q else 0
  { sp with sp_volname := Function.update sp.sp_volname (SFS_VOLNAME_SIZE - 1) 0 }

structure Device.Mountable (d : Device) : Prop where
  magic : d.superblock.sp_magic = SFS_MAGIC
  nblocks_le : d.superblock.sp_nblocks ≤ 2 ^ 22
  map_le : 2 + SFS_BITBLOCKS d.superblock.sp_nblocks ≤ d.d_blocks
  lt : d.d_blocks < 2 ^ 32
  eio : d.eio = []

structure Mounted (d : Device) (s : Sfs) : Prop where
  device : s.sfs_device = d
  super : s.sfs_super = d.superblock
  superdirty : s.sfs_superdirty = false
  table : s.sfs_vnodes = array_create
  vnodes : s.vnodes = fun _ => none
  nbits : s.sfs_freemap.nbits = SFS_BITMAPSIZE d.superblock.sp_nblocks
  bits : ∀ x < 512 * SFS_BITBLOCKS d.superblock.sp_nblocks, s.sfs_freemap.v x = d.sect (2 + x / 512) (x % 512)
  freemapdirty : s.sfs_freemapdirty = false

theorem sfs_domount_super_run {s : Sfs} (hd : s.sfs_device.Mountable) :
    sfs_domount_super s = .ok (.ok (), { s with sfs_super := s.sfs_device.superblock }) := by
  have hmap := hd.map_le
  have hread := sfs_rblock_device (s := s) (b := SFS_SB_LOCATION) (by decide) (by simp only [SFS_SB_LOCATION]; omega)
    hd.lt hd.eio
  rw [sfs_domount_super, bind_ok hread]
  exact (congrFun (if_neg (not_not.mpr hd.magic)) s).trans (modify_run _ _)

theorem sfs_mapio_block_run {s : Sfs} (heio : s.sfs_device.eio = []) (hlt : s.sfs_device.d_blocks < 2 ^ 32) {j : Nat}
    (hj : 2 + j < s.sfs_device.d_blocks) (hsmall : 2 + j < 2 ^ 22) :
    ∃ w : Mem, sfs_mapio_block .UIO_READ j s = .ok (.ok (), s.setMapdata w) ∧
      ∀ x, w x = if j * 512 ≤ x ∧ x < j * 512 + 512 then s.sect (2 + j) (x - j * 512) else s.sfs_freemap.v x := by
  have hread := sfs_rblock_device (s := s) hsmall hj hlt heio
  refine ⟨Mem.copy s.sfs_freemap.v (j * 512) (fun i => if i < 512 then s.sect (2 + j) i else 0) 0 512, ?_,
    fun x => ?_⟩
  · rw [sfs_mapio_block, bind_ok (get_run s)]
    exact (bind_ok hread).trans (modify_run _ _)
  · rw [Mem.copy, Nat.zero_add]
    by_cases h : j * 512 ≤ x ∧ x < j * 512 + 512
    · rw [if_pos h, if_pos h, if_pos (show x - j * 512 < 512 by omega)]
    · rw [if_neg h, if_neg h]

theorem sfs_mapio_loop_spec {s : Sfs} (heio : s.sfs_device.eio = []) (hlt : s.sfs_device.d_blocks < 2 ^ 32) {n j : Nat}
    (hn : 2 + j + n ≤ s.sfs_device.d_blocks) (hsmall : 2 + j + n ≤ 2 ^ 22) :
    ∃ v : Mem, sfs_mapio_loop .UIO_READ n j s = .ok (.ok (), s.setMapdata v) ∧
      ∀ x, v x = if j * 512 ≤ x ∧ x < (j + n) * 512 then s.sect (2 + x / 512) (x % 512) else s.sfs_freemap.v x := by
  induction n generalizing s j with
  | zero => exact ⟨s.sfs_freemap.v, rfl, fun x => by rw [if_neg (by omega)]⟩
  | succ n ih =>
    obtain ⟨w, hblock, hw⟩ := sfs_mapio_block_run heio hlt (j := j) (by omega) (by omega)
    obtain ⟨v, hrun, hv⟩ := ih (s := s.setMapdata w) (j := j + 1) heio hlt
      (show 2 + (j + 1) + n ≤ s.sfs_device.d_blocks by omega) (by omega)
    refine ⟨v, ?_, fun x => ?_⟩
    · rw [sfs_mapio_loop, bind_ok hblock, hrun]
      rfl
    · rw [hv, show (s.setMapdata w).sfs_freemap.v x = w x from rfl, show (s.setMapdata w).sect = s.sect from rfl, hw]
      by_cases h2 : j * 512 ≤ x ∧ x < j * 512 + 512
      · rw [if_neg (show ¬ ((j + 1) * 512 ≤ x ∧ x < (j + 1 + n) * 512) by omega), if_pos h2,
          if_pos (show j * 512 ≤ x ∧ x < (j + (n + 1)) * 512 by omega), show x / 512 = j by omega,
          show x % 512 = x - j * 512 by omega]
      · rw [if_neg h2]
        have : ((j + 1) * 512 ≤ x ∧ x < (j + 1 + n) * 512) ↔ (j * 512 ≤ x ∧ x < (j + (n + 1)) * 512) := by omega
        simp only [this]

theorem bitmap_create_nbits {n : Nat} {h h' : Heap} {m : Bitmap} (hm : bitmap_create n h = (some m, h')) :
    m.nbits = n := by
  unfold bitmap_create at hm
  dsimp only at hm
  repeat' split at hm
  all_goals cases hm
  all_goals rfl

theorem bitmap_create_isSome (n : Nat) : ∃ m, bitmap_create n [] = (some m, []) := by
  simp only [bitmap_create, kmalloc]
  split <;> exact ⟨_, rfl⟩

theorem sfs_domount_freemap_spec {s : Sfs} (hd : s.sfs_device.Mountable) (hsuper : s.sfs_super = s.sfs_device.superblock)
    (htable : s.sfs_vnodes = array_create) (hvn : s.vnodes = fun _ => none) :
    Holds X sfs_domount_freemap s fun r t =>
      (r = .ok () → Mounted s.sfs_device t) ∧ (s.heap = [] → r = .ok () ∧ t.heap = []) := by
  have hn := congrArg Super.sp_nblocks hsuper
  rw [sfs_domount_freemap]
  refine holds_bind_run (get_run s) (holds_bind_run (alloc_run _ _) ?_)
  cases hc : bitmap_create (SFS_BITMAPSIZE s.sfs_super.sp_nblocks) s.heap with
  | mk m heap =>
    dsimp only
    cases m with
    | none =>
      refine holds_throw ⟨nofun, fun hheap => ?_⟩
      obtain ⟨m, hm⟩ := bitmap_create_isSome (SFS_BITMAPSIZE s.sfs_super.sp_nblocks)
      rw [hheap, hm] at hc
      cases hc
    | some m =>
      obtain ⟨hsize, hle, hbig⟩ := bitmap_size hd.nblocks_le
      obtain ⟨v, hrun, hv⟩ := sfs_mapio_loop_spec (s := { s with heap := heap, sfs_freemap := m }) hd.eio hd.lt
        (n := SFS_BITBLOCKS s.sfs_device.superblock.sp_nblocks) (j := 0) hd.map_le (by omega)
      have hmapio : sfs_mapio .UIO_READ { s with heap := heap, sfs_freemap := m } =
          .ok (.ok (), Sfs.setMapdata { s with heap := heap, sfs_freemap := m } v) := by
        rw [sfs_mapio, bind_ok (get_run _)]
        dsimp only
        rw [hn, hrun]
      refine holds_bind_run (modify_run _ _) (holds_bind_run hmapio (holds_of_run (modify_run _ _) ⟨fun _ => ?_, ?_⟩))
      · refine ⟨rfl, hsuper, rfl, htable, hvn, (bitmap_create_nbits hc).trans (by rw [hn]), fun x hx => ?_, rfl⟩
        exact (hv x).trans (if_pos (by omega))
      · intro hheap
        obtain ⟨m', hm'⟩ := bitmap_create_isSome (SFS_BITMAPSIZE s.sfs_super.sp_nblocks)
        rw [hheap, hm'] at hc
        exact ⟨rfl, (Prod.mk.inj hc).2.symm⟩

theorem sfs_domount_mounted (heap : Heap) (hd : d.Mountable) :
    Holds X sfs_domount (Sfs.new d heap) fun r t =>
      (r = .ok () → Mounted d t) ∧ (heap = [] → r = .ok () ∧ t.heap = []) := by
  rw [sfs_domount]
  refine holds_bind_run (alloc_run _ _) ?_
  split
  rotate_left
  · rename_i hfail
    exact holds_throw ⟨nofun, fun hheap => absurd (hheap ▸ rfl) hfail⟩
  refine holds_bind_run (alloc_run _ _) ?_
  split
  rotate_left
  · rename_i hfail
    exact holds_throw ⟨nofun, fun hheap => absurd (hheap ▸ rfl) hfail⟩
  refine holds_bind_run (sfs_domount_super_run (s := { Sfs.new d heap with heap := _ }) hd) ?_
  refine (sfs_domount_freemap_spec hd rfl rfl rfl).imp fun r t ht => ⟨ht.1, fun hheap => ht.2 ?_⟩
  subst hheap
  rfl

/-! ## Mounting a fresh volume -/

/-- A disk that the kernel can address and that reports no errors. Byte positions are an `off_t`, a signed 32-bit
number. -/
structure Device.Works (d : Device) : Prop where
  size : d.d_blocks * 512 < 2 ^ 31
  eio : d.eio = []

theorem Device.Works.lt (h : d.Works) : d.d_blocks < 2 ^ 22 := by
  have := h.size
  omega

theorem superblock_eq {volname : Mem} (hlt : d.d_blocks < 2 ^ 32)
    (h : ∀ q < 512, d.sect SFS_SB_LOCATION q = Super.encode ⟨SFS_MAGIC, d.d_blocks, volname⟩ q) :
    d.superblock.sp_magic = SFS_MAGIC ∧ d.superblock.sp_nblocks = d.d_blocks ∧
      ∀ q < 32, d.superblock.sp_volname q = if q = 31 then 0 else volname q := by
  set block : Mem := fun i => if i < 512 then d.sect SFS_SB_LOCATION i else 0 with hblock
  have hdec : ∀ q < 512, block q = Super.encode ⟨SFS_MAGIC, d.d_blocks, volname⟩ q :=
    fun q hq => (if_pos hq).trans (h q hq)
  obtain ⟨hmagic, hn⟩ := Super.decode_encode hdec (show SFS_MAGIC < 2 ^ 32 by decide) hlt
  refine ⟨hmagic, hn, fun q hq => ?_⟩
  by_cases h31 : q = 31
  · rw [if_pos h31, h31]
    rfl
  · rw [if_neg h31]
    refine (Function.update_of_ne h31 _ _).trans ((hdec (8 + q) (by omega)).trans ?_)
    rw [Super.encode, if_neg (by omega), if_pos (by omega), Nat.add_sub_cancel_left]

theorem Formatted.nblocks (hf : Formatted d) (hd : d.Works) : d.superblock.sp_nblocks = d.d_blocks := by
  obtain ⟨volname, hsuper⟩ := hf.super
  have hlt := hd.lt
  exact (superblock_eq (by omega) hsuper).2.1

theorem Formatted.mountable (hf : Formatted d) (hd : d.Works) : d.Mountable := by
  obtain ⟨volname, hsuper⟩ := hf.super
  have hlt := hd.lt
  have hn := hf.nblocks hd
  refine ⟨(superblock_eq (by omega) hsuper).1, by omega, ?_, by omega, hd.eio⟩
  rw [hn]
  exact hf.map_lt

theorem Formatted.root_inode (hf : Formatted d) :
    Inode.decode (d.sect SFS_ROOT_LOCATION) = ⟨0, SFS_TYPE_DIR, 1, fun _ => 0, 0⟩ := by
  rw [← Inode.decode_encode (i := ⟨0, SFS_TYPE_DIR, 1, fun _ => 0, 0⟩) (fun _ => Nat.two_pow_pos 32) (Nat.two_pow_pos 32)]
  exact Inode.decode_congr hf.root

theorem Mounted.marked {s : Sfs} (h : Mounted d s) (hf : Formatted d) (hd : d.Works) {b : Nat}
    (hb : b < SFS_BITMAPSIZE d.d_blocks) :
    s.sfs_freemap.Marked b ↔ b < 2 + SFS_BITBLOCKS d.d_blocks ∨ d.d_blocks ≤ b := by
  have hlt := hd.lt
  obtain ⟨hsize, hle, hbig⟩ := bitmap_size (Nat.le_of_lt hlt)
  obtain ⟨bitbuf, hdisk, hbits⟩ := hf.map
  have hbyte : s.sfs_freemap.v (b / 8) = bitbuf (b / 8) := by
    rw [h.bits _ (by rw [hf.nblocks hd]; omega)]
    refine (hdisk (b / 8 / 512) (by omega) _ (Nat.mod_lt _ (by omega))).trans ?_
    rw [show b / 8 / 512 * 512 + b / 8 % 512 = b / 8 by omega]
  have hmarked : s.sfs_freemap.Marked b ↔ BitSet bitbuf b :=
    iff_of_eq (congrArg (fun w : Byte => w.getLsbD (b % 8) = true) hbyte)
  rw [hmarked, hbits]
  omega

theorem dirent_of_empty {s : Sfs} (hino : s.inodeOf SFS_ROOT_LOCATION = ⟨0, SFS_TYPE_DIR, 1, fun _ => 0, 0⟩) (k : Nat) :
    s.dirent k = none := by
  have hn : s.nentries = 0 := by rw [Sfs.nentries, hino]; rfl
  rw [Sfs.dirent, if_neg (by omega)]

theorem Mounted.dirent {s : Sfs} (h : Mounted d s) (hf : Formatted d) (k : Nat) : s.dirent k = none := by
  refine dirent_of_empty ?_ k
  rw [inodeOf_none (by rw [h.vnodes]), Sfs.sect, h.device]
  exact hf.root_inode

theorem Inv.of_empty {s : Sfs} (hV : s.Volume) (hvn : ∀ i, s.vnodes i = none) (htable : s.sfs_vnodes.toList = [])
    (h1 : SFS_ROOT_LOCATION ∈ s.used)
    (hroot : Inode.decode (s.sect SFS_ROOT_LOCATION) = ⟨0, SFS_TYPE_DIR, 1, fun _ => 0, 0⟩) : Inv 0 s := by
  have hino := (inodeOf_none (hvn SFS_ROOT_LOCATION)).trans hroot
  have hd := dirent_of_empty hino
  have hnamed : ∀ k, s.named k = none := fun k => by rw [Sfs.named, hd]; rfl
  have hlive : ∀ j, s.Live j → j = SFS_ROOT_LOCATION := by
    rintro j (hj | ⟨k, hk⟩ | ⟨w, hw⟩)
    · exact hj
    · rw [hnamed] at hk; cases hk
    · rw [hvn] at hw; cases hw
  have hlinks : s.links SFS_ROOT_LOCATION = 0 := by
    by_contra hpos
    obtain ⟨k, -, hk⟩ := Table.count_pos_iff.mp (Nat.pos_of_ne_zero hpos)
    rw [hnamed] at hk
    cases hk
  have href : ∀ k, s.ref SFS_ROOT_LOCATION k ≠ 0 → k = .inode := by
    intro k h0
    rw [Sfs.ref, hino] at h0
    cases k with
    | inode => rfl
    | direct | indirect | entry => exact absurd rfl h0
  refine ⟨⟨fun j hj => ?_, hV, ⟨fun j hj k h0 => ?_, fun j hj j' hj' k k' h0 he => ?_⟩⟩, ?_, fun j => ?_,
    fun j w hw => ?_, fun j w hw => ?_, fun j hj => ?_, ?_, ?_, fun k hk => ?_, fun k _ e _ hk => ?_, fun j hj => ?_⟩
  · rw [hlive j hj]; decide
  · obtain rfl := hlive j hj
    obtain rfl := href k h0
    exact h1
  · obtain rfl := hlive j hj
    obtain rfl := hlive j' hj'
    exact ⟨rfl, (href k h0).trans (href k' (he ▸ h0)).symm⟩
  · rw [htable]; exact List.nodup_nil
  · rw [htable, hvn]; simp
  · rw [hvn] at hw; cases hw
  · rw [hvn] at hw; cases hw
  · obtain rfl := hlive j hj
    rw [hino]; rfl
  · rw [hino]; rfl
  · rw [hino]; decide
  · exact absurd (hd k) hk
  · rw [hd] at hk; cases hk
  · obtain rfl := hlive j hj
    rw [hino, hlinks]; rfl

theorem Mounted.inv {s : Sfs} (h : Mounted d s) (hf : Formatted d) (hd : d.Works) : Inv 0 s ∧ s.Tight := by
  have hlt := hd.lt
  have h1 := hf.one_lt
  have hmap := hf.map_lt
  have hn : s.sfs_super.sp_nblocks = d.d_blocks := by rw [h.super, hf.nblocks hd]
  have hnbits : s.sfs_freemap.nbits = SFS_BITMAPSIZE d.d_blocks := by rw [h.nbits, hf.nblocks hd]
  have hdev := h.device
  obtain ⟨hsize, hle, hbig⟩ := bitmap_size (Nat.le_of_lt hlt)
  have hV : s.Volume := by
    refine ⟨by omega, by rw [hdev]; omega, by rw [hdev]; omega, by rw [hdev]; exact hd.eio, by rw [hnbits, hn],
      fun b hb => ?_, fun b hb hlt' => ?_⟩
    · have hb' : b = 0 ∨ 2 ≤ b ∧ b < 2 + SFS_BITBLOCKS s.sfs_super.sp_nblocks := hb
      rw [hn] at hb'
      exact (h.marked hf hd (by omega)).mpr (by omega)
    · rw [hnbits] at hlt'
      exact (h.marked hf hd hlt').mpr (by omega)
  constructor
  · refine Inv.of_empty hV (fun i => by rw [h.vnodes]) (by rw [h.table]; rfl) ⟨?_, ?_, ?_⟩ ?_
    · change 1 < s.sfs_super.sp_nblocks
      omega
    · exact (h.marked hf hd (b := 1) (by omega)).mpr (by omega)
    · rintro (h0 | ⟨h0, -⟩)
      · cases h0
      · exact absurd h0 (by decide)
    · rw [Sfs.sect, hdev]
      exact hf.root_inode
  · rintro b ⟨hb, hmark, hres⟩
    refine ⟨SFS_ROOT_LOCATION, .inode, live_root s, ?_⟩
    have hres' : ¬ (b = 0 ∨ 2 ≤ b ∧ b < 2 + SFS_BITBLOCKS s.sfs_super.sp_nblocks) := hres
    rw [h.marked hf hd (by omega)] at hmark
    rw [hn] at hres'
    change 1 = b
    omega

theorem sfs_domount_spec {volname : CStr} (heap : Heap) {d' : Device} (hd : d.Works) (h : mksfs volname d = some d') :
    Holds X sfs_domount (Sfs.new d' heap) fun r t =>
      r = .ok () → Formatted d' ∧ d'.Works ∧ Mounted d' t := by
  obtain ⟨hf, hblocks, heio, -⟩ := mksfs_formatted h hd.eio
  have hd' : d'.Works := ⟨hblocks ▸ hd.size, heio⟩
  exact (sfs_domount_mounted heap (hf.mountable hd')).imp fun r t ht hr => ⟨hf, hd', ht.1 hr⟩

end Mount

end Os161
