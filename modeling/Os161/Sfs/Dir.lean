import Os161.Sfs.File

/-! # The mounted file system: vnodes and the directory

`vnode.c` and the directory and vnode part of `sfs_vnode.c`.
-/

namespace Os161

open Prog Words

/-! ## `vnode.c` -/

def vnode_check (ino : Nat) (reclaim : Bool) : Prog Panic Errno Sfs Unit := do
  let v ← getv ino
  ensure (0 ≤ v.vn_refcount) .vnode_check
  ensure (v.vn_refcount ≠ 0 ∨ reclaim = true) .vnode_check
  ensure (0 ≤ v.vn_opencount) .vnode_check

def vnode_incref (ino : Nat) : Prog Panic Errno Sfs Unit :=
  modv ino fun v => { v with vn_refcount := toI32 (v.vn_refcount + 1) }

def vnode_kill (ino : Nat) : Prog Panic Errno Sfs Unit := do
  let v ← getv ino
  ensure (v.vn_refcount = 1 ∧ v.vn_opencount = 0) .vnode_kill

def VOP_TRUNCATE (ino : Nat) (len : Int) : Prog Panic Errno Sfs Unit := do
  vnode_check ino false
  let v ← getv ino
  match v.vn_ops with
  | .fileops => sfs_truncate ino len
  | .dirops => throw .EISDIR

def sfs_reclaim_remove (ino : Nat) : Prog Panic Errno Sfs Unit := do
  let s ← get
  match (List.finRange s.sfs_vnodes.num).find? fun i => array_getguy s.sfs_vnodes i = ino with
  | none => stop .reclaim_not_in_pool
  | some ix =>
    set { s with sfs_vnodes := array_remove s.sfs_vnodes ix }
    vnode_kill ino
    modify fun s => s.setVnode ino none

def sfs_reclaim_erase (ino : Nat) : Prog Panic Errno Sfs Unit := do
  let sv ← getv ino
  if sv.sv_i.sfi_linkcount = 0 then
    VOP_TRUNCATE ino 0

def sfs_reclaim_discard (ino : Nat) : Prog Panic Errno Sfs Unit := do
  let sv ← getv ino
  if sv.sv_i.sfi_linkcount = 0 then
    sfs_bfree ino

def sfs_reclaim_last (ino : Nat) : Prog Panic Errno Sfs Unit := do
  sfs_reclaim_erase ino
  sfs_sync_inode ino
  sfs_reclaim_discard ino
  sfs_reclaim_remove ino

def sfs_reclaim (ino : Nat) : Prog Panic Errno Sfs Unit := do
  let sv ← getv ino
  if sv.vn_refcount ≠ 1 then
    ensure (sv.vn_refcount > 1) .reclaim_refcount
    modv ino fun v => { v with vn_refcount := v.vn_refcount - 1 }
    throw .EBUSY
  else
    sfs_reclaim_last ino

/-- An error of `VOP_RECLAIM` is only reported. -/
def vnode_decref (ino : Nat) : Prog Panic Errno Sfs Unit := do
  let v ← getv ino
  ensure (v.vn_refcount > 0) .vnode_decref
  if v.vn_refcount > 1 then
    modv ino fun v => { v with vn_refcount := v.vn_refcount - 1 }
  else
    vnode_check ino true
    let _ ← attempt (sfs_reclaim ino)

def vnode_incopen (ino : Nat) : Prog Panic Errno Sfs Unit :=
  modv ino fun v => { v with vn_opencount := toI32 (v.vn_opencount + 1) }

def VOP_FSYNC (ino : Nat) : Prog Panic Errno Sfs Unit := do
  vnode_check ino false
  sfs_sync_inode ino

/-- The last close syncs the vnode; an error is only reported. -/
def vnode_decopen (ino : Nat) : Prog Panic Errno Sfs Unit := do
  let v ← getv ino
  ensure (v.vn_opencount > 0) .vnode_decopen
  modv ino fun v => { v with vn_opencount := v.vn_opencount - 1 }
  if v.vn_opencount - 1 > 0 then
    pure ()
  else
    vnode_check ino false
    let _ ← attempt (VOP_FSYNC ino)

/-! ## Loading a vnode -/

def alloc {α : Type} (m : Alloc α) : Prog Panic Errno Sfs α := do
  let s ← get
  set { s with heap := (m s.heap).2 }
  return (m s.heap).1

/-- The allocations of `lock_create`, true if both succeed. -/
def lock_create : Alloc Bool := fun h =>
  match kmalloc h with
  | (false, h) => (false, h)
  | (true, h) => kmalloc h

/-- The search of the table in `sfs_loadvnode`, true if the vnode is there. -/
def sfs_loadvnode_search (ino : Nat) (forcetype : UInt16) : List Nat → Prog Panic Errno Sfs Bool
  | [] => pure false
  | sv_ino :: rest => do
    let used ← sfs_bused sv_ino
    ensure (used = true) .loadvnode_found_unallocated
    if sv_ino = ino then
      ensure (forcetype = SFS_TYPE_INVAL) .loadvnode_forcetype
      vnode_incref ino
      return true
    else
      sfs_loadvnode_search ino forcetype rest

def sfs_loadvnode_inode (sv_i : Inode) (forcetype : UInt16) : Prog Panic Errno Sfs (Inode × Bool) := do
  if forcetype ≠ SFS_TYPE_INVAL then
    ensure (sv_i.sfi_type = SFS_TYPE_INVAL) .loadvnode_type_set
    return ({ sv_i with sfi_type := forcetype }, true)
  else
    return (sv_i, false)

def sfs_loadvnode_ops (sfi_type : UInt16) : Prog Panic Errno Sfs VnodeOps :=
  if sfi_type = SFS_TYPE_FILE then pure .fileops
  else if sfi_type = SFS_TYPE_DIR then pure .dirops
  else stop .loadvnode_type

def sfs_loadvnode_new (ino : Nat) (forcetype : UInt16) : Prog Panic Errno Sfs Nat := do
  if ← alloc kmalloc then
    let used ← sfs_bused ino
    ensure (used = true) .loadvnode_unallocated
    let block ← sfs_rblock ino
    let (sv_i, sv_dirty) ← sfs_loadvnode_inode (Inode.decode block) forcetype
    let vn_ops ← sfs_loadvnode_ops sv_i.sfi_type
    if ← alloc lock_create then
      let s ← get
      match ← alloc (array_add s.sfs_vnodes ino) with
      | .error e => throw e
      | .ok sfs_vnodes =>
        modify fun s => { s with sfs_vnodes := sfs_vnodes }.setVnode ino
          (some { vn_ops := vn_ops, vn_refcount := 1, vn_opencount := 0, sv_i := sv_i, sv_dirty := sv_dirty })
        return ino
    else
      throw .ENOMEM
  else
    throw .ENOMEM

def sfs_loadvnode (ino : Nat) (forcetype : UInt16) : Prog Panic Errno Sfs Nat := do
  let s ← get
  if ← sfs_loadvnode_search ino forcetype s.sfs_vnodes.toList then
    return ino
  else
    sfs_loadvnode_new ino forcetype

def sfs_makeobj (type : UInt16) : Prog Panic Errno Sfs Nat := do
  let ino ← sfs_balloc
  sfs_loadvnode ino type

/-- Panics if the root cannot be loaded. -/
def sfs_getroot : Prog Panic Errno Sfs Nat := do
  match ← attempt (sfs_loadvnode SFS_ROOT_LOCATION SFS_TYPE_INVAL) with
  | .ok ino => return ino
  | .error _ => stop .getroot

/-! ## Directory I/O -/

def sfs_readdir (ino slot : Nat) : Prog Panic Errno Sfs Dir := do
  let actualpos := toI32 (slot * SFS_DIRSIZE)
  let (_, ku) ← withVar (mk_kuio (fun _ => 0) SFS_DIRSIZE actualpos .UIO_READ) (sfs_io ino)
  ensure (ku.uio_resid = 0) .readdir_short
  return Dir.decode ku.iov_mem

def sfs_writedir (ino : Nat) (sd : Dir) (slot : Nat) : Prog Panic Errno Sfs Unit := do
  let actualpos := toI32 (slot * SFS_DIRSIZE)
  let (_, ku) ← withVar (mk_kuio sd.encode SFS_DIRSIZE actualpos .UIO_WRITE) (sfs_io ino)
  ensure (ku.uio_resid = 0) .writedir_short

def sfs_dir_nentries (ino : Nat) : Prog Panic Errno Sfs Nat := do
  let sv ← getv ino
  ensure (sv.sv_i.sfi_type = SFS_TYPE_DIR) .nentries_type
  ensure (sv.sv_i.sfi_size.toNat % SFS_DIRSIZE = 0) .nentries_size
  return sv.sv_i.sfi_size.toNat / SFS_DIRSIZE

structure Lookup where
  found : Option (Nat × Nat)
  emptyslot : Option Nat

def sfs_dir_findname_slot (ino : Nat) (name : CStr) (i : Nat) (l : Lookup) : Prog Panic Errno Sfs Lookup := do
  let tsd ← sfs_readdir ino i
  if tsd.sfd_ino = SFS_NOINO then
    return { l with emptyslot := some i }
  else if cstr (Function.update tsd.sfd_name (SFS_NAMELEN - 1) 0) SFS_NAMELEN = name.chars then
    ensure (l.found = none) .findname_found
    return { l with found := some (tsd.sfd_ino, i) }
  else
    return l

def sfs_dir_findname_loop (ino : Nat) (name : CStr) : Nat → Nat → Lookup → Prog Panic Errno Sfs Lookup
  | 0, _, l => pure l
  | n + 1, i, l => do
    let l ← sfs_dir_findname_slot ino name i l
    sfs_dir_findname_loop ino name n (i + 1) l

/-- `ENOENT` is `found = none`. -/
def sfs_dir_findname (ino : Nat) (name : CStr) : Prog Panic Errno Sfs Lookup := do
  let nentries ← sfs_dir_nentries ino
  sfs_dir_findname_loop ino name nentries 0 ⟨none, none⟩

def sfs_dir_link_slot (ino : Nat) : Option Nat → Prog Panic Errno Sfs Nat
  | some emptyslot => pure emptyslot
  | none => sfs_dir_nentries ino

def sfs_dir_link (sv : Nat) (name : CStr) (ino : Nat) : Prog Panic Errno Sfs Nat := do
  let l ← sfs_dir_findname sv name
  if l.found ≠ none then
    throw .EEXIST
  else if name.chars.length + 1 > SFS_NAMELEN then
    throw .ENAMETOOLONG
  else
    let slot ← sfs_dir_link_slot sv l.emptyslot
    sfs_writedir sv ⟨ino, strcpy name⟩ slot
    return slot

def sfs_dir_unlink (sv slot : Nat) : Prog Panic Errno Sfs Unit :=
  sfs_writedir sv ⟨SFS_NOINO, fun _ => 0⟩ slot

def sfs_lookonce (sv : Nat) (name : CStr) : Prog Panic Errno Sfs (Nat × Nat) := do
  let l ← sfs_dir_findname sv name
  match l.found with
  | none => throw .ENOENT
  | some (ino, slot) =>
    let ret ← sfs_loadvnode ino SFS_TYPE_INVAL
    let v ← getv ret
    ensure (v.sv_i.sfi_linkcount ≠ 0) .lookonce_linkcount
    return (ret, slot)

/-! ## Vnode operations -/

def Vnode.setLinkcount (sv : Vnode) (n : UInt16) : Vnode :=
  { sv with sv_i := { sv.sv_i with sfi_linkcount := n }, sv_dirty := true }

def sfs_linkcount_inc (ino : Nat) : Prog Panic Errno Sfs Unit :=
  modv ino fun sv => sv.setLinkcount (sv.sv_i.sfi_linkcount + 1)

def sfs_linkcount_dec (ino : Nat) : Prog Panic Errno Sfs Unit :=
  modv ino fun sv => sv.setLinkcount (sv.sv_i.sfi_linkcount - 1)

def sfs_creat_new (sv : Nat) (name : CStr) : Prog Panic Errno Sfs Nat := do
  let newguy ← sfs_makeobj SFS_TYPE_FILE
  match ← attempt (sfs_dir_link sv name newguy) with
  | .error e =>
    vnode_decref newguy
    throw e
  | .ok _ =>
    sfs_linkcount_inc newguy
    return newguy

def sfs_creat (sv : Nat) (name : CStr) (excl : Bool) : Prog Panic Errno Sfs Nat := do
  let l ← sfs_dir_findname sv name
  match l.found with
  | some (ino, _) => if excl then throw .EEXIST else sfs_loadvnode ino SFS_TYPE_INVAL
  | none => sfs_creat_new sv name

def sfs_link (sv : Nat) (name : CStr) (f : Nat) : Prog Panic Errno Sfs Unit := do
  let _ ← sfs_dir_link sv name f
  sfs_linkcount_inc f

def sfs_remove (sv : Nat) (name : CStr) : Prog Panic Errno Sfs Unit := do
  let (victim, slot) ← sfs_lookonce sv name
  match ← attempt (sfs_dir_unlink sv slot) with
  | .ok _ =>
    let v ← getv victim
    ensure (v.sv_i.sfi_linkcount > 0) .remove_linkcount
    sfs_linkcount_dec victim
    vnode_decref victim
  | .error e =>
    vnode_decref victim
    throw e

def sfs_rename_unlink (sv g1 slot1 slot2 : Nat) : Prog Panic Errno Sfs Unit := do
  match ← attempt (sfs_dir_unlink sv slot1) with
  | .ok _ =>
    let v ← getv g1
    ensure (v.sv_i.sfi_linkcount > 0) .rename_linkcount
    sfs_linkcount_dec g1
    vnode_decref g1
  | .error e =>
    match ← attempt (sfs_dir_unlink sv slot2) with
    | .error _ => stop .rename_recover
    | .ok _ =>
      modv g1 fun v => { v with sv_i := { v.sv_i with sfi_linkcount := v.sv_i.sfi_linkcount - 1 } }
      vnode_decref g1
      throw e

def sfs_rename (sv : Nat) (n1 n2 : CStr) : Prog Panic Errno Sfs Unit := do
  ensure (sv = SFS_ROOT_LOCATION) .rename_root
  let (g1, slot1) ← sfs_lookonce sv n1
  let v ← getv g1
  ensure (v.sv_i.sfi_type = SFS_TYPE_FILE) .rename_type
  match ← attempt (sfs_dir_link sv n2 g1) with
  | .error e =>
    vnode_decref g1
    throw e
  | .ok slot2 =>
    sfs_linkcount_inc g1
    sfs_rename_unlink sv g1 slot1 slot2

def sfs_lookup (sv : Nat) (path : CStr) : Prog Panic Errno Sfs Nat := do
  let v ← getv sv
  if v.sv_i.sfi_type ≠ SFS_TYPE_DIR then
    throw .ENOTDIR
  else
    let (final, _) ← sfs_lookonce sv path
    return final

/-! ## Calls -/

/-- The calls on a mounted file system. A vnode is the inode number that stands for its pointer. -/
inductive Op where
  | creat (dir : Nat) (name : CStr) (excl : Bool)
  | link (dir : Nat) (name : CStr) (file : Nat)
  | remove (dir : Nat) (name : CStr)
  | rename (dir : Nat) (n1 n2 : CStr)
  | lookup (dir : Nat) (path : CStr)
  | getroot
  | read (v : Nat) (uio : Uio)
  | write (v : Nat) (uio : Uio)
  | truncate (v : Nat) (len : Int)
  | fsync (v : Nat)
  | incref (v : Nat)
  | decref (v : Nat)
  | incopen (v : Nat)
  | decopen (v : Nat)

def vop (v : Nat) (file dir : Prog Panic Errno Sfs Unit) : Prog Panic Errno Sfs Unit := do
  vnode_check v false
  let sv ← getv v
  match sv.vn_ops with
  | .fileops => file
  | .dirops => dir

def exec : Op → Prog Panic Errno Sfs Unit
  | .creat dir name excl => vop dir (throw .ENOTDIR) do let _ ← sfs_creat dir name excl
  | .link dir name file => vop dir (throw .ENOTDIR) (sfs_link dir name file)
  | .remove dir name => vop dir (throw .ENOTDIR) (sfs_remove dir name)
  | .rename dir n1 n2 => vop dir (throw .ENOTDIR) (sfs_rename dir n1 n2)
  | .lookup dir path => vop dir (throw .ENOTDIR) do let _ ← sfs_lookup dir path
  | .getroot => do let _ ← sfs_getroot
  | .read v uio => vop v (do let _ ← withVar uio (sfs_read v)) (throw .EISDIR)
  | .write v uio => vop v (do let _ ← withVar uio (sfs_write v)) (throw .EISDIR)
  | .truncate v len => VOP_TRUNCATE v len
  | .fsync v => VOP_FSYNC v
  | .incref v => vnode_incref v
  | .decref v => vnode_decref v
  | .incopen v => vnode_incopen v
  | .decopen v => vnode_decopen v

end Os161
