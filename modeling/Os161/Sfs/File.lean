import Os161.Kern.Array
import Os161.Kern.Bitmap
import Os161.Dev.Lhd
import Os161.Sfs.Format

/-! # The mounted file system: blocks and files

`sfs_io.c` and the block and file part of `sfs_vnode.c`.
-/

namespace Os161

open Prog Words

inductive VnodeOps where
  | fileops | dirops
  deriving DecidableEq, Repr

structure Vnode where
  vn_ops : VnodeOps
  vn_refcount : Int
  vn_opencount : Int
  sv_i : Inode
  sv_dirty : Bool

/-- `struct sfs_fs`. An inode has at most one vnode, so the table holds inode numbers in place of
pointers, and `vnodes` is the memory they point to. `heap` is what is to come of `kmalloc`. -/
structure Sfs where
  sfs_super : Super
  sfs_superdirty : Bool
  sfs_device : Device
  sfs_vnodes : KArray Nat
  vnodes : Nat → Option Vnode
  sfs_freemap : Bitmap
  sfs_freemapdirty : Bool
  heap : Heap

namespace Sfs

def sect (s : Sfs) : Nat → Mem := s.sfs_device.sect

def setVnode (s : Sfs) (ino : Nat) (v : Option Vnode) : Sfs :=
  { s with vnodes := Function.update s.vnodes ino v }

def setBlock (s : Sfs) (b : Nat) (data : Mem) : Sfs :=
  { s with sfs_device := { s.sfs_device with
      sect := Function.update s.sfs_device.sect b fun i => if i < 512 then data i else 0 } }

def setFreemap (s : Sfs) (m : Bitmap) : Sfs :=
  { s with sfs_freemap := m, sfs_freemapdirty := true }

end Sfs

def getv (ino : Nat) : Prog Panic Errno Sfs Vnode := do
  let s ← get
  match s.vnodes ino with
  | some v => pure v
  | none => stop .vnode_freed

def modv (ino : Nat) (f : Vnode → Vnode) : Prog Panic Errno Sfs Unit := do
  let v ← getv ino
  modify fun s => s.setVnode ino (some (f v))

/-! ## `sfs_io.c` -/

def onDevice (m : Prog Panic Errno (Device × Uio) Unit) : Prog Panic Errno (Sfs × Uio) Unit :=
  zoom (fun s => (s.1.sfs_device, s.2)) (fun d s => ({ s.1 with sfs_device := d.1 }, d.2)) m

def sfs_rwblock_retry : Nat → Prog Panic Errno (Sfs × Uio) Unit
  | 0 => do
    match ← attempt (onDevice lhd_io) with
    | .error .EINVAL => stop .d_io_EINVAL
    | r => finish r
  | tries + 1 => do
    match ← attempt (onDevice lhd_io) with
    | .error .EINVAL => stop .d_io_EINVAL
    | .error Errno.EIO => sfs_rwblock_retry tries
    | r => finish r

def sfs_rwblock : Prog Panic Errno (Sfs × Uio) Unit := sfs_rwblock_retry 10

def sfsuio (data : Mem) (block : Nat) (rw : UioRw) : Uio :=
  mk_kuio data SFS_BLOCKSIZE (toI32 (toI32 block * SFS_BLOCKSIZE)) rw

def sfs_rblock (block : Nat) : Prog Panic Errno Sfs Mem := do
  let (_, ku) ← withVar (sfsuio (fun _ => 0) block .UIO_READ) sfs_rwblock
  return ku.iov_mem

def sfs_wblock (data : Mem) (block : Nat) : Prog Panic Errno Sfs Unit := do
  let _ ← withVar (sfsuio data block .UIO_WRITE) sfs_rwblock

/-! ## Space allocation -/

def sfs_clearblock (block : Nat) : Prog Panic Errno Sfs Unit := sfs_wblock (fun _ => 0) block

def sfs_sync_inode (ino : Nat) : Prog Panic Errno Sfs Unit := do
  let sv ← getv ino
  if sv.sv_dirty then
    sfs_wblock sv.sv_i.encode ino
    modv ino fun sv => { sv with sv_dirty := false }

def sfs_balloc : Prog Panic Errno Sfs Nat := do
  let s ← get
  match bitmap_alloc s.sfs_freemap with
  | none => stop .bitmap_alloc
  | some (.error e) => throw e
  | some (.ok (freemap, diskblock)) =>
    set (s.setFreemap freemap)
    ensure (diskblock < s.sfs_super.sp_nblocks) .balloc_invalid
    sfs_clearblock diskblock
    return diskblock

def sfs_bfree (diskblock : Nat) : Prog Panic Errno Sfs Unit := do
  let s ← get
  match bitmap_unmark s.sfs_freemap diskblock with
  | none => stop .bitmap_unmark
  | some freemap => set (s.setFreemap freemap)

def sfs_bused (diskblock : Nat) : Prog Panic Errno Sfs Bool := do
  let s ← get
  ensure (diskblock < s.sfs_super.sp_nblocks) .bused_range
  return bitmap_isset s.sfs_freemap diskblock

/-! ## Block mapping -/

def Vnode.setDirect (sv : Vnode) (fileblock : Fin 15) (block : Nat) : Vnode :=
  { sv with
    sv_i := { sv.sv_i with sfi_direct := Function.update sv.sv_i.sfi_direct fileblock block }
    sv_dirty := true }

def Vnode.setIndirect (sv : Vnode) (block : Nat) : Vnode :=
  { sv with sv_i := { sv.sv_i with sfi_indirect := block }, sv_dirty := true }

def Vnode.setSize (sv : Vnode) (size : Int) : Vnode :=
  { sv with sv_i := { sv.sv_i with sfi_size := UInt32.ofNat (toU32 size) }, sv_dirty := true }

def sfs_bmap_check (block : Nat) : Prog Panic Errno Sfs Nat := do
  if block ≠ 0 then
    let used ← sfs_bused block
    ensure used .bmap_marked_free
  return block

def sfs_bmap_direct (ino : Nat) (fileblock : Fin 15) (doalloc : Bool) : Prog Panic Errno Sfs Nat := do
  let sv ← getv ino
  let block := sv.sv_i.sfi_direct fileblock
  if block = 0 ∧ doalloc = true then
    let block ← sfs_balloc
    modv ino fun sv => sv.setDirect fileblock block
    sfs_bmap_check block
  else
    sfs_bmap_check block

def sfs_bmap_entry (idblock : Nat) (idbuf : Nat → Nat) (idoff : Nat) (doalloc : Bool) : Prog Panic Errno Sfs Nat := do
  let block := idbuf idoff
  if block = 0 ∧ doalloc = true then
    let block ← sfs_balloc
    sfs_wblock (bytesOf (Function.update idbuf idoff block)) idblock
    sfs_bmap_check block
  else
    sfs_bmap_check block

def sfs_bmap_indirect (ino : Nat) (idoff : Nat) (doalloc : Bool) : Prog Panic Errno Sfs Nat := do
  let sv ← getv ino
  let idblock := sv.sv_i.sfi_indirect
  if idblock = 0 ∧ doalloc = false then
    return 0
  else if idblock = 0 then
    let idblock ← sfs_balloc
    modv ino fun sv => sv.setIndirect idblock
    sfs_bmap_entry idblock (fun _ => 0) idoff doalloc
  else
    let idbuf ← sfs_rblock idblock
    sfs_bmap_entry idblock (wordAt idbuf) idoff doalloc

def sfs_bmap (ino fileblock : Nat) (doalloc : Bool) : Prog Panic Errno Sfs Nat :=
  if h : fileblock < 15 then
    sfs_bmap_direct ino ⟨fileblock, h⟩ doalloc
  else
    let fileblock := fileblock - SFS_NDIRECT
    let idnum := fileblock / SFS_DBPERIDB
    let idoff := fileblock % SFS_DBPERIDB
    if idnum > 0 then throw .EINVAL else sfs_bmap_indirect ino idoff doalloc

/-! ## File-level I/O -/

def Uio.fileblock (uio : Uio) : Nat := toU32 (uio.uio_offset.tdiv SFS_BLOCKSIZE)

def Uio.blkoff (uio : Uio) : Nat := toU32 (uio.uio_offset.tmod SFS_BLOCKSIZE)

def Uio.setResid (uio : Uio) (n : Nat) : Uio := { uio with uio_resid := n }

def uiomove_at (iobuf : Mem) (skipstart len : Nat) : Prog Panic Errno Uio Mem := do
  let buf ← uiomove (fun i => iobuf (skipstart + i)) len
  return fun i => if i < skipstart then iobuf i else buf (i - skipstart)

def sfs_partialio_buf (diskblock : Nat) : Prog Panic Errno (Sfs × Uio) Mem := do
  let (_, uio) ← get
  if diskblock = 0 then
    ensure (uio.uio_rw = .UIO_READ) .partialio_rw
    return fun _ => 0
  else
    first (sfs_rblock diskblock)

def sfs_partialio (ino skipstart len : Nat) : Prog Panic Errno (Sfs × Uio) Unit := do
  let (_, uio) ← get
  let doalloc := uio.uio_rw = .UIO_WRITE
  ensure ((skipstart + len) % 2 ^ 32 ≤ SFS_BLOCKSIZE) .partialio_len
  let diskblock ← first (sfs_bmap ino uio.fileblock doalloc)
  let iobuf ← sfs_partialio_buf diskblock
  ensure (len = 0 ∨ skipstart + len ≤ SFS_BLOCKSIZE) .iobuf_bounds
  let iobuf ← second (uiomove_at iobuf skipstart len)
  if uio.uio_rw = .UIO_WRITE then
    first (sfs_wblock iobuf diskblock)

def sfs_blockio_direct (diskblock : Nat) : Prog Panic Errno (Sfs × Uio) Unit := do
  let (_, uio) ← get
  let saveoff := uio.uio_offset
  let diskoff := toI32 (toU32 (diskblock * SFS_BLOCKSIZE))
  ensure (SFS_BLOCKSIZE ≤ uio.uio_resid) .blockio_resid
  let saveres := toI32 uio.uio_resid
  second (set { uio with uio_offset := diskoff, uio_resid := SFS_BLOCKSIZE })
  let result ← attempt sfs_rwblock
  second (modify fun uio => { uio with
    uio_offset := toI32 (uio.uio_offset - diskoff + saveoff)
    uio_resid := toU32 (uio.uio_resid - SFS_BLOCKSIZE + saveres) })
  finish result

def sfs_blockio (ino : Nat) : Prog Panic Errno (Sfs × Uio) Unit := do
  let (_, uio) ← get
  let doalloc := uio.uio_rw = .UIO_WRITE
  let diskblock ← first (sfs_bmap ino uio.fileblock doalloc)
  if diskblock = 0 then
    ensure (uio.uio_rw = .UIO_READ) .blockio_rw
    second (uiomovezeros SFS_BLOCKSIZE)
  else
    sfs_blockio_direct diskblock

def sfs_io_blocks (ino : Nat) : Nat → Prog Panic Errno (Sfs × Uio) Unit
  | 0 => pure ()
  | nblocks + 1 => do
    sfs_blockio ino
    sfs_io_blocks ino nblocks

def sfs_io_aligned (ino : Nat) : Prog Panic Errno (Sfs × Uio) Unit := do
  let (_, uio) ← get
  if uio.uio_resid = 0 then
    pure ()
  else
    ensure (uio.uio_offset.tmod SFS_BLOCKSIZE = 0) .io_unaligned
    sfs_io_blocks ino (uio.uio_resid / SFS_BLOCKSIZE)
    let (_, uio) ← get
    ensure (uio.uio_resid < SFS_BLOCKSIZE) .io_resid
    if uio.uio_resid > 0 then
      sfs_partialio ino 0 uio.uio_resid

def sfs_io_transfer (ino : Nat) : Prog Panic Errno (Sfs × Uio) Unit := do
  let (_, uio) ← get
  if uio.blkoff ≠ 0 then
    sfs_partialio ino uio.blkoff (min (toU32 (SFS_BLOCKSIZE - uio.blkoff)) uio.uio_resid)
  sfs_io_aligned ino

/-- The check for EOF: what to add back to `uio_resid`, or `none` to return at once. -/
def sfs_io_eof (ino : Nat) : Prog Panic Errno (Sfs × Uio) (Option Nat) := do
  let (_, uio) ← get
  let sv ← first (getv ino)
  let size := toI32 sv.sv_i.sfi_size.toNat
  let endpos := toI32 (uio.uio_offset + uio.uio_resid)
  match uio.uio_rw with
  | .UIO_WRITE => return some 0
  | .UIO_READ =>
    if uio.uio_offset ≥ size then
      return none
    else if endpos > size then
      let extraresid := toU32 (endpos - size)
      ensure (uio.uio_resid > extraresid) .io_extraresid
      second (set (uio.setResid (uio.uio_resid - extraresid)))
      return some extraresid
    else
      return some 0

def sfs_io_out (ino extraresid : Nat) : Prog Panic Errno (Sfs × Uio) Unit := do
  let (_, uio) ← get
  let sv ← first (getv ino)
  if uio.uio_rw = .UIO_WRITE ∧ uio.uio_offset > toI32 sv.sv_i.sfi_size.toNat then
    first (modv ino fun sv => sv.setSize uio.uio_offset)
  second (set (uio.setResid (toU32 (uio.uio_resid + extraresid))))

def sfs_io (ino : Nat) : Prog Panic Errno (Sfs × Uio) Unit := do
  match ← sfs_io_eof ino with
  | none => pure ()
  | some extraresid =>
    let result ← attempt (sfs_io_transfer ino)
    sfs_io_out ino extraresid
    finish result

def sfs_read (ino : Nat) : Prog Panic Errno (Sfs × Uio) Unit := do
  let (_, uio) ← get
  ensure (uio.uio_rw = .UIO_READ) .read_rw
  sfs_io ino

def sfs_write (ino : Nat) : Prog Panic Errno (Sfs × Uio) Unit := do
  let (_, uio) ← get
  ensure (uio.uio_rw = .UIO_WRITE) .write_rw
  sfs_io ino

/-! ## Truncation -/

def sfs_truncate_direct (ino blocklen : Nat) (i : Fin 15) : Prog Panic Errno Sfs Unit := do
  let sv ← getv ino
  let block := sv.sv_i.sfi_direct i
  if blocklen ≤ i ∧ block ≠ 0 then
    sfs_bfree block
    modv ino fun sv => sv.setDirect i 0

def sfs_truncate_directs (ino blocklen : Nat) : List (Fin 15) → Prog Panic Errno Sfs Unit
  | [] => pure ()
  | i :: rest => do
    sfs_truncate_direct ino blocklen i
    sfs_truncate_directs ino blocklen rest

def sfs_truncate_entries (blocklen : Nat) : List Nat → (Nat → Nat) → Bool → Bool →
    Prog Panic Errno Sfs ((Nat → Nat) × Bool × Bool)
  | [], idbuf, hasnonzero, iddirty => pure (idbuf, hasnonzero, iddirty)
  | j :: rest, idbuf, hasnonzero, iddirty => do
    if blocklen < SFS_NDIRECT + j ∧ idbuf j ≠ 0 then
      sfs_bfree (idbuf j)
      sfs_truncate_entries blocklen rest (Function.update idbuf j 0) hasnonzero true
    else
      sfs_truncate_entries blocklen rest idbuf (hasnonzero || idbuf j ≠ 0) iddirty

def sfs_truncate_indirect (ino blocklen : Nat) : Prog Panic Errno Sfs Unit := do
  let sv ← getv ino
  let idblock := sv.sv_i.sfi_indirect
  let highblock := SFS_NDIRECT + SFS_DBPERIDB - 1
  if blocklen < highblock ∧ idblock ≠ 0 then
    let idbuf ← sfs_rblock idblock
    let (idbuf, hasnonzero, iddirty) ←
      sfs_truncate_entries blocklen (List.range SFS_DBPERIDB) (wordAt idbuf) false false
    if hasnonzero = false then
      sfs_bfree idblock
      modv ino fun sv => sv.setIndirect 0
    else if iddirty then
      sfs_wblock (bytesOf idbuf) idblock

def sfs_truncate (ino : Nat) (len : Int) : Prog Panic Errno Sfs Unit := do
  let blocklen := toU32 ((toI32 (len + SFS_BLOCKSIZE - 1)).tdiv SFS_BLOCKSIZE)
  sfs_truncate_directs ino blocklen (List.finRange 15)
  sfs_truncate_indirect ino blocklen
  modv ino fun sv => sv.setSize len

end Os161
