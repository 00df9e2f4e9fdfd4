import Os161.Sfs.Dir
import Os161.Vfs.Devices

/-! # `fs/vfs/vfslookup.c`, `vfscwd.c` and `vfspath.c`: names of files

A path names a device or a file of a mounted SFS volume. A file system is the number of its `fs_data`,
and a vnode of it is the number of its inode.
-/

namespace Os161

open Prog

inductive VnodePtr where
  | dev (vnode : Nat)
  | sfs (fs ino : Nat)
  deriving DecidableEq, Repr

structure DevInfo where
  d_open : UInt32 → Option Errno
  d_blocks : UInt32
  d_blocksize : UInt32

structure Mounts where
  knowndevs : List Knowndev
  devs : Nat → DevInfo
  vol : Nat → Sfs
  t_cwd : Option VnodePtr
  bootfs_vnode : Option VnodePtr

inductive PathPanic where
  | fs (p : Panic)
  | list (p : VfsPanic)
  | getdevice_fs | gettype | link_fs | rename_dirs
  deriving DecidableEq, Repr

abbrev PathProg := Prog PathPanic Errno Mounts

def onVol {α : Type} (fs : Nat) (m : Prog Panic Errno Sfs α) : PathProg α := fun w =>
  match m (w.vol fs) with
  | .ok (r, s) => .ok (r, { w with vol := Function.update w.vol fs s })
  | .error p => .error (.fs p)

/-! ## `kern/unistd.h` and `kern/limits.h` -/

def O_RDONLY : UInt32 := 0
def O_WRONLY : UInt32 := 1
def O_RDWR : UInt32 := 2
def O_CREAT : UInt32 := 4
def O_EXCL : UInt32 := 8
def O_TRUNC : UInt32 := 16
def O_APPEND : UInt32 := 32
def O_ACCMODE : UInt32 := 3
def NAME_MAX : Nat := 255

/-! ## Calls on vnodes -/

/-- A count of a vnode. Nothing reads those of a device, which is never reclaimed. -/
def countop (v : VnodePtr) (m : Nat → Prog Panic Errno Sfs Unit) : PathProg Unit :=
  match v with
  | .dev _ => pure ()
  | .sfs fs ino => onVol fs (m ino)

def VOP_INCREF (v : VnodePtr) : PathProg Unit := countop v vnode_incref
def VOP_DECREF (v : VnodePtr) : PathProg Unit := countop v vnode_decref
def VOP_INCOPEN (v : VnodePtr) : PathProg Unit := countop v vnode_incopen
def VOP_DECOPEN (v : VnodePtr) : PathProg Unit := countop v vnode_decopen

def vop_ops (ino : Nat) : Prog Panic Errno Sfs VnodeOps := do
  vnode_check ino false
  let sv ← getv ino
  return sv.vn_ops

def dirop {α : Type} (v : VnodePtr) (m : Nat → Nat → PathProg α) : PathProg α :=
  match v with
  | .dev _ => throw .ENOTDIR
  | .sfs fs ino => do
    match ← onVol fs (vop_ops ino) with
    | .fileops => throw .ENOTDIR
    | .dirops => m fs ino

def sfs_lookparent (sv : Nat) (path : CStr) (buflen : Nat) : Prog Panic Errno Sfs (Nat × CStr) := do
  let v ← getv sv
  if v.sv_i.sfi_type ≠ SFS_TYPE_DIR then
    throw .ENOTDIR
  else if path.chars.length + 1 > buflen then
    throw .ENAMETOOLONG
  else
    vnode_incref sv
    return (sv, path)

def dev_lookup (n : Nat) (path : CStr) : PathProg VnodePtr :=
  if path.chars.length > 0 then
    throw .ENOENT
  else do
    VOP_INCREF (.dev n)
    return .dev n

def VOP_LOOKUP (v : VnodePtr) (path : CStr) : PathProg VnodePtr :=
  match v with
  | .dev n => dev_lookup n path
  | .sfs fs ino => dirop (.sfs fs ino) fun fs ino => do
    let f ← onVol fs (sfs_lookup ino path)
    return .sfs fs f

def VOP_LOOKPARENT (v : VnodePtr) (path : CStr) (buflen : Nat) : PathProg (VnodePtr × CStr) :=
  dirop v fun fs ino => do
    let (dir, name) ← onVol fs (sfs_lookparent ino path buflen)
    return (.sfs fs dir, name)

def VOP_CREAT (dir : VnodePtr) (name : CStr) (excl : Bool) : PathProg VnodePtr :=
  dirop dir fun fs ino => do
    let f ← onVol fs (sfs_creat ino name excl)
    return .sfs fs f

/-- `sfs_link` asserts that the file is on the volume of the directory. -/
def VOP_LINK (dir : VnodePtr) (name : CStr) (file : VnodePtr) : PathProg Unit :=
  dirop dir fun fs ino =>
    match file with
    | .dev _ => stop .link_fs
    | .sfs fs' f => do
      ensure (fs' = fs) .link_fs
      onVol fs (sfs_link ino name f)

def VOP_REMOVE (dir : VnodePtr) (name : CStr) : PathProg Unit :=
  dirop dir fun fs ino => onVol fs (sfs_remove ino name)

/-- `sfs_rename` asserts that the two directories are one. -/
def VOP_RENAME (d1 : VnodePtr) (n1 : CStr) (d2 : VnodePtr) (n2 : CStr) : PathProg Unit :=
  dirop d1 fun fs ino => do
    ensure (d1 = d2) .rename_dirs
    onVol fs (sfs_rename ino n1 n2)

def dev_open (n : Nat) (flags : UInt32) : PathProg Unit := do
  let w ← get
  if flags &&& (O_CREAT ||| O_TRUNC ||| O_EXCL ||| O_APPEND) ≠ 0 then
    throw .EINVAL
  else
    match (w.devs n).d_open flags with
    | some e => throw e
    | none => pure ()

def sfs_open (openflags : UInt32) : PathProg Unit :=
  if openflags &&& O_APPEND ≠ 0 then throw .EUNIMP else pure ()

def sfs_opendir (openflags : UInt32) : PathProg Unit :=
  if openflags &&& O_ACCMODE ≠ O_RDONLY then throw .EISDIR
  else if openflags &&& O_APPEND ≠ 0 then throw .EISDIR
  else pure ()

def VOP_OPEN (v : VnodePtr) (openflags : UInt32) : PathProg Unit :=
  match v with
  | .dev n => dev_open n openflags
  | .sfs fs ino => do
    match ← onVol fs (vop_ops ino) with
    | .fileops => sfs_open openflags
    | .dirops => sfs_opendir openflags

def dev_truncate (n : Nat) (len : Int) : PathProg Unit := do
  let w ← get
  let d := w.devs n
  if d.d_blocks > 0 ∧ (d.d_blocks * d.d_blocksize).toInt32.toInt = len then pure () else throw .EINVAL

def VOP_TRUNCATE_any (v : VnodePtr) (len : Int) : PathProg Unit :=
  match v with
  | .dev n => dev_truncate n len
  | .sfs fs ino => onVol fs (VOP_TRUNCATE ino len)

/-- `vn_fs`, `none` for a device. -/
def vn_fs (v : VnodePtr) : PathProg (Option Nat) :=
  match v with
  | .dev _ => pure none
  | .sfs fs ino => do
    let _ ← onVol fs (getv ino)
    return some fs

/-- `VOP_GETTYPE` and `S_ISDIR`; a device is never a directory. -/
def vop_isdir (v : VnodePtr) : PathProg Bool :=
  match v with
  | .dev _ => pure false
  | .sfs fs ino => do
    let _ ← onVol fs (vop_ops ino)
    let sv ← onVol fs (getv ino)
    if sv.sv_i.sfi_type = SFS_TYPE_FILE then pure false
    else if sv.sv_i.sfi_type = SFS_TYPE_DIR then pure true
    else stop .gettype

/-! ## `vfscwd.c` -/

def vfs_getcurdir : PathProg VnodePtr := do
  match (← get).t_cwd with
  | some v =>
    VOP_INCREF v
    return v
  | none => throw .ENOENT

def vop_drop (old : Option VnodePtr) : PathProg Unit :=
  match old with
  | some v => VOP_DECREF v
  | none => pure ()

def vfs_setcurdir (dir : VnodePtr) : PathProg Unit := do
  if ← vop_isdir dir then
    VOP_INCREF dir
    let w ← get
    set { w with t_cwd := some dir }
    vop_drop w.t_cwd
  else
    throw .ENOTDIR

def vfs_clearcurdir : PathProg Unit := do
  let w ← get
  set { w with t_cwd := none }
  vop_drop w.t_cwd

/-! ## `vfslookup.c` -/

def FSOP_GETROOT (fs : Nat) : PathProg VnodePtr := do
  let ino ← onVol fs sfs_getroot
  return .sfs fs ino

def vfs_getroot_ref (devname : CStr) : PathProg VnodePtr := do
  match vfs_getroot (← get).knowndevs devname with
  | .error p => stop (.list p)
  | .ok (.error e) => throw e
  | .ok (.ok (.fs fs)) => FSOP_GETROOT fs.fs_data
  | .ok (.ok (.device n)) =>
    VOP_INCREF (.dev n)
    return .dev n

def SLASH : Byte := 0x2f
def COLON : Byte := 0x3a

def CStr.skip (path : CStr) (i : Nat) : CStr := .ofBytes ((path.chars.drop i).dropWhile (· = SLASH))

def getdevice_boot : PathProg VnodePtr := do
  match (← get).bootfs_vnode with
  | some v =>
    VOP_INCREF v
    return v
  | none => throw .ENOENT

def getdevice_root : PathProg VnodePtr := do
  let vn ← vfs_getcurdir
  match ← vn_fs vn with
  | none => stop .getdevice_fs
  | some fs =>
    let startvn ← FSOP_GETROOT fs
    VOP_DECREF vn
    return startvn

def getdevice (path : CStr) : PathProg (CStr × VnodePtr) :=
  match path.chars.findIdx? fun c => c = COLON ∨ c = SLASH with
  | none => do return (path, ← vfs_getcurdir)
  | some 0 =>
    if path.chars.head? = some SLASH then do return (path.skip 1, ← getdevice_boot)
    else do return (path.skip 1, ← getdevice_root)
  | some i =>
    if path.chars[i]? = some COLON then
      do return (path.skip (i + 1), ← vfs_getroot_ref (.ofBytes (path.chars.take i)))
    else do return (path, ← vfs_getcurdir)

def vfs_lookparent (path : CStr) (buflen : Nat) : PathProg (VnodePtr × CStr) := do
  let (path, startvn) ← getdevice path
  let result ← attempt (if path.chars.length = 0 then throw .EINVAL else VOP_LOOKPARENT startvn path buflen)
  VOP_DECREF startvn
  finish result

def vfs_lookup (path : CStr) : PathProg VnodePtr := do
  let (path, startvn) ← getdevice path
  if path.chars.length = 0 then
    return startvn
  else
    let result ← attempt (VOP_LOOKUP startvn path)
    VOP_DECREF startvn
    finish result

def vfs_chdir (path : CStr) : PathProg Unit := do
  let vn ← vfs_lookup path
  let result ← attempt (vfs_setcurdir vn)
  VOP_DECREF vn
  finish result

def change_bootfs (newguy : Option VnodePtr) : PathProg Unit := do
  let w ← get
  set { w with bootfs_vnode := newguy }
  vop_drop w.bootfs_vnode

def vfs_setbootfs (fsname : CStr) : PathProg Unit :=
  let tmp := fsname.chars.take (NAME_MAX + 1 - 2)
  if COLON ∈ tmp then
    throw .EINVAL
  else do
    vfs_chdir (.ofBytes (tmp ++ [COLON]))
    let newguy ← vfs_getcurdir
    change_bootfs (some newguy)

/-! ## `vfspath.c` -/

def vfs_open_vnode (path : CStr) (openflags : UInt32) : PathProg VnodePtr :=
  if openflags &&& O_CREAT ≠ 0 then do
    let (dir, name) ← vfs_lookparent path (NAME_MAX + 1)
    let result ← attempt (VOP_CREAT dir name (openflags &&& O_EXCL ≠ 0))
    VOP_DECREF dir
    finish result
  else
    vfs_lookup path

def vfs_open_trunc (vn : VnodePtr) (openflags : UInt32) : PathProg Unit :=
  if openflags &&& O_TRUNC ≠ 0 then
    if openflags &&& O_ACCMODE = O_RDONLY then throw .EINVAL else VOP_TRUNCATE_any vn 0
  else
    pure ()

def vfs_open (path : CStr) (openflags : UInt32) : PathProg VnodePtr :=
  let how := openflags &&& O_ACCMODE
  if how ≠ O_RDONLY ∧ how ≠ O_WRONLY ∧ how ≠ O_RDWR then
    throw .EINVAL
  else do
    let vn ← vfs_open_vnode path openflags
    match ← attempt (VOP_OPEN vn openflags) with
    | .error e =>
      VOP_DECREF vn
      throw e
    | .ok _ =>
      VOP_INCOPEN vn
      match ← attempt (vfs_open_trunc vn openflags) with
      | .error e =>
        VOP_DECOPEN vn
        VOP_DECREF vn
        throw e
      | .ok _ => return vn

def vfs_close (vn : VnodePtr) : PathProg Unit := do
  VOP_DECOPEN vn
  VOP_DECREF vn

def vfs_remove (path : CStr) : PathProg Unit := do
  let (dir, name) ← vfs_lookparent path (NAME_MAX + 1)
  let result ← attempt (VOP_REMOVE dir name)
  VOP_DECREF dir
  finish result

def vfs_onefs (vn dir : VnodePtr) (call : PathProg Unit) : PathProg Unit := do
  let fs ← vn_fs vn
  let fs' ← vn_fs dir
  let result ← attempt (if fs = none ∨ fs' = none ∨ fs ≠ fs' then throw .EXDEV else call)
  VOP_DECREF dir
  VOP_DECREF vn
  finish result

def vfs_rename (oldpath newpath : CStr) : PathProg Unit := do
  let (olddir, oldname) ← vfs_lookparent oldpath (NAME_MAX + 1)
  match ← attempt (vfs_lookparent newpath (NAME_MAX + 1)) with
  | .error e =>
    VOP_DECREF olddir
    throw e
  | .ok (newdir, newname) => vfs_onefs olddir newdir (VOP_RENAME olddir oldname newdir newname)

def vfs_link (oldpath newpath : CStr) : PathProg Unit := do
  let oldfile ← vfs_lookup oldpath
  match ← attempt (vfs_lookparent newpath (NAME_MAX + 1)) with
  | .error e =>
    VOP_DECREF oldfile
    throw e
  | .ok (newdir, newname) => vfs_onefs oldfile newdir (VOP_LINK newdir newname oldfile)

/-! ## Calls -/

inductive PathCall where
  | open (path : CStr) (openflags : UInt32)
  | close (vn : VnodePtr)
  | remove (path : CStr)
  | rename (oldpath newpath : CStr)
  | link (oldpath newpath : CStr)
  | chdir (path : CStr)
  | clearcurdir
  | setbootfs (fsname : CStr)
  | clearbootfs

def PathCall.exec : PathCall → PathProg Unit
  | .open path openflags => do let _ ← vfs_open path openflags
  | .close vn => vfs_close vn
  | .remove path => vfs_remove path
  | .rename oldpath newpath => vfs_rename oldpath newpath
  | .link oldpath newpath => vfs_link oldpath newpath
  | .chdir path => vfs_chdir path
  | .clearcurdir => vfs_clearcurdir
  | .setbootfs fsname => vfs_setbootfs fsname
  | .clearbootfs => change_bootfs none

end Os161
