import Mathlib.Algebra.Group.Pi.Basic
import Mathlib.Algebra.Group.Prod
import Mathlib.Algebra.Ring.Int.Defs
import Mathlib.Tactic.Abel
import Mathlib.Tactic.NormNum
import Os161.Lib.Ledger
import Os161.Vfs.Path

/-! # References and opens of the VFS layer

`vfslookup.c`, `vfscwd.c` and `vfspath.c` over the counts of `vnode.c`, with any file system below. The file
system answers as it likes; where it hands a vnode back, the vnode comes with a reference.
-/

namespace Os161.AnyFs

open Prog

/-! ## The file system -/

inductive Reclaimed where
  | killed
  | kept (result : Option Errno)
  deriving DecidableEq, Repr

structure Ops (ν σ : Type) where
  vn_fs : ν → Option Fs
  kd_vnode : Nat → ν
  /-- `none` for a null pointer. -/
  fs_getroot : Fs → σ → Option ν × σ
  vop_lookup : ν → CStr → σ → Except Errno ν × σ
  vop_lookparent : ν → CStr → Nat → σ → Except Errno (ν × CStr) × σ
  vop_creat : ν → CStr → Bool → σ → Except Errno ν × σ
  vop_open : ν → UInt32 → σ → Except Errno Unit × σ
  vop_close : ν → σ → Except Errno Unit × σ
  vop_reclaim : ν → σ → Reclaimed × σ
  vop_truncate : ν → Int → σ → Except Errno Unit × σ
  vop_remove : ν → CStr → σ → Except Errno Unit × σ
  vop_rename : ν → CStr → ν → CStr → σ → Except Errno Unit × σ
  vop_link : ν → CStr → Option ν → σ → Except Errno Unit × σ
  /-- `VOP_GETTYPE` and `S_ISDIR`. -/
  vop_isdir : ν → σ → Except Errno Bool × σ
  vop_namefile : ν → Uio → σ → (Except Errno Unit × Uio) × σ

/-- `left` has the vnodes that a `VOP_RECLAIM` did not destroy, one entry for each such call. -/
structure Vnodes (ν σ : Type) where
  fs : σ
  knowndevs : List Knowndev
  vn_refcount : ν → Int
  vn_opencount : ν → Int
  t_cwd : Option ν
  bootfs_vnode : Option ν
  left : List ν

inductive VopPanic where
  | null | incref | decref | incopen | decopen | kill
  | check_refcount | check_opencount
  | list (p : VfsPanic)
  | uio (p : Panic)
  | getdevice_fs | open_null | getcwd_rw | getcwd_fs | getcwd_name
  deriving DecidableEq, Repr

abbrev VopProg (ν σ : Type) := Prog VopPanic Errno (Vnodes ν σ)

variable {ν σ : Type} [DecidableEq ν] (ops : Ops ν σ)

def call {α : Type} (f : σ → α × σ) : VopProg ν σ α := fun s =>
  let (r, fs) := f s.fs
  .ok (.ok r, { s with fs })

/-! ## `vnode.c` -/

def deref (vn : Option ν) (p : VopPanic) : VopProg ν σ ν :=
  match vn with
  | some v => pure v
  | none => stop p

def vnode_check (vn : Option ν) (reclaim : Bool) : VopProg ν σ ν := do
  let v ← deref vn .null
  let s ← get
  ensure (0 < s.vn_refcount v ∨ s.vn_refcount v = 0 ∧ reclaim) .check_refcount
  ensure (0 ≤ s.vn_opencount v) .check_opencount
  return v

def vop {α : Type} (vn : Option ν) (f : ν → σ → Except Errno α × σ) : VopProg ν σ α := do
  let v ← vnode_check vn false
  let r ← call (f v)
  finish r

def addref (v : ν) (n : Int) : VopProg ν σ Unit :=
  modify fun s => { s with vn_refcount := Function.update s.vn_refcount v (s.vn_refcount v + n) }

def addopen (v : ν) (n : Int) : VopProg ν σ Unit :=
  modify fun s => { s with vn_opencount := Function.update s.vn_opencount v (s.vn_opencount v + n) }

def vnode_incref (vn : Option ν) : VopProg ν σ Unit := do
  let v ← deref vn .incref
  addref v 1

/-- `VOP_RECLAIM` of a vnode with one reference. A vnode that is destroyed goes through `vnode_kill`. An
error is printed and forgotten. -/
def vop_reclaim (v : ν) : VopProg ν σ Unit := do
  let _ ← vnode_check (some v) true
  match ← call (ops.vop_reclaim v) with
  | .killed =>
    let s ← get
    ensure (s.vn_refcount v = 1 ∧ s.vn_opencount v = 0) .kill
    addref v (-1)
  | .kept _ => modify fun s => { s with left := v :: s.left }

def vnode_decref (vn : Option ν) : VopProg ν σ Unit := do
  let v ← deref vn .decref
  let s ← get
  ensure (s.vn_refcount v > 0) .decref
  if s.vn_refcount v > 1 then
    addref v (-1)
  else
    vop_reclaim ops v

def vnode_incopen (vn : Option ν) : VopProg ν σ Unit := do
  let v ← deref vn .incopen
  addopen v 1

def vop_close (v : ν) : VopProg ν σ Unit := do
  let v ← vnode_check (some v) false
  let _ ← call (ops.vop_close v)

def vnode_decopen (vn : Option ν) : VopProg ν σ Unit := do
  let v ← deref vn .decopen
  let s ← get
  ensure (s.vn_opencount v > 0) .decopen
  addopen v (-1)
  if s.vn_opencount v - 1 > 0 then
    pure ()
  else
    vop_close ops v

/-! ## Calls that hand a vnode back -/

def FSOP_GETROOT (fs : Fs) : VopProg ν σ (Option ν) := do
  match ← call (ops.fs_getroot fs) with
  | some v =>
    addref v 1
    return some v
  | none => return none

def VOP_LOOKUP (vn : Option ν) (path : CStr) : VopProg ν σ ν := do
  let v ← vop vn fun v => ops.vop_lookup v path
  addref v 1
  return v

def VOP_LOOKPARENT (vn : Option ν) (path : CStr) (buflen : Nat) : VopProg ν σ (ν × CStr) := do
  let (v, name) ← vop vn fun v => ops.vop_lookparent v path buflen
  addref v 1
  return (v, name)

def VOP_CREAT (dir : ν) (name : CStr) (excl : Bool) : VopProg ν σ ν := do
  let v ← vop (some dir) fun v => ops.vop_creat v name excl
  addref v 1
  return v

/-! ## `vfscwd.c` -/

def vfs_getcurdir : VopProg ν σ ν := do
  match (← get).t_cwd with
  | some v =>
    vnode_incref (some v)
    return v
  | none => throw .ENOENT

def vop_drop (old : Option ν) : VopProg ν σ Unit :=
  match old with
  | some v => vnode_decref ops (some v)
  | none => pure ()

def setcwd (dir : Option ν) : VopProg ν σ Unit := do
  let s ← get
  set { s with t_cwd := dir }
  vop_drop ops s.t_cwd

def vfs_setcurdir (dir : Option ν) : VopProg ν σ Unit := do
  if ← vop dir ops.vop_isdir then
    vnode_incref dir
    setcwd ops dir
  else
    throw .ENOTDIR

/-! ## `vfslookup.c` -/

def vfs_getroot_ref (devname : CStr) : VopProg ν σ (Option ν) := do
  match vfs_getroot (← get).knowndevs devname with
  | .error p => stop (.list p)
  | .ok (.error e) => throw e
  | .ok (.ok (.fs fs)) => FSOP_GETROOT ops fs
  | .ok (.ok (.device n)) =>
    vnode_incref (some (ops.kd_vnode n))
    return some (ops.kd_vnode n)

def getdevice_boot : VopProg ν σ (Option ν) := do
  match (← get).bootfs_vnode with
  | some v =>
    vnode_incref (some v)
    return some v
  | none => throw .ENOENT

def getdevice_root : VopProg ν σ (Option ν) := do
  let vn ← vfs_getcurdir
  match ops.vn_fs vn with
  | none => stop .getdevice_fs
  | some fs =>
    let startvn ← FSOP_GETROOT ops fs
    vnode_decref ops (some vn)
    return startvn

def getdevice_cwd : VopProg ν σ (Option ν) := do return some (← vfs_getcurdir)

def getdevice_start (path : CStr) : CStr × VopProg ν σ (Option ν) :=
  match path.chars.findIdx? fun c => c = COLON ∨ c = SLASH with
  | none => (path, getdevice_cwd)
  | some 0 =>
    if path.chars.head? = some SLASH then (path.skip 1, getdevice_boot) else (path.skip 1, getdevice_root ops)
  | some i =>
    if path.chars[i]? = some COLON then (path.skip (i + 1), vfs_getroot_ref ops (.ofBytes (path.chars.take i)))
    else (path, getdevice_cwd)

def getdevice (path : CStr) : VopProg ν σ (CStr × Option ν) := do
  let startvn ← (getdevice_start ops path).2
  return ((getdevice_start ops path).1, startvn)

def vfs_lookparent (path : CStr) (buflen : Nat) : VopProg ν σ (ν × CStr) := do
  let (path, startvn) ← getdevice ops path
  let result ← attempt (if path.chars.length = 0 then throw .EINVAL else VOP_LOOKPARENT ops startvn path buflen)
  vnode_decref ops startvn
  finish result

/-- A root that could not be read is handed back as a null pointer. -/
def vfs_lookup (path : CStr) : VopProg ν σ (Option ν) := do
  let (path, startvn) ← getdevice ops path
  if path.chars.length = 0 then
    return startvn
  else
    let result ← attempt (VOP_LOOKUP ops startvn path)
    vnode_decref ops startvn
    finish (result.map some)

def vfs_chdir (path : CStr) : VopProg ν σ Unit := do
  let vn ← vfs_lookup ops path
  let result ← attempt (vfs_setcurdir ops vn)
  vnode_decref ops vn
  finish result

def vfs_getcwd_name (knowndevs : List Knowndev) (fs : Fs) : Option CStr :=
  match fs.volname with
  | some name => some name
  | none => (knowndevs.find? fun kd => kd.kd_fs = some fs).map Knowndev.kd_name

def uiomove_str (name : CStr) : Prog VopPanic Errno (Vnodes ν σ × Uio) Unit := fun (s, uio) =>
  match uiomove (fun i => name.chars.getD i 0) name.chars.length uio with
  | .ok (r, uio) => .ok (r.map fun _ => (), (s, uio))
  | .error p => .error (.uio p)

def VOP_NAMEFILE (v : ν) : Prog VopPanic Errno (Vnodes ν σ × Uio) Unit := do
  let v ← first (vnode_check (some v) false)
  let (_, uio) ← get
  let (r, uio) ← first (call (ops.vop_namefile v uio))
  modify fun (s, _) => (s, uio)
  finish r

def colon : CStr := ⟨[COLON], by decide⟩

def vfs_getcwd : Prog VopPanic Errno (Vnodes ν σ × Uio) Unit := do
  let (_, uio) ← get
  ensure (uio.uio_rw = .UIO_READ) .getcwd_rw
  let cwd ← first vfs_getcurdir
  match ops.vn_fs cwd with
  | none => stop .getcwd_fs
  | some fs =>
    let (s, _) ← get
    match vfs_getcwd_name s.knowndevs fs with
    | none => stop .getcwd_name
    | some name =>
      let result ← attempt do
        uiomove_str name
        uiomove_str colon
        VOP_NAMEFILE ops cwd
      first (vnode_decref ops (some cwd))
      finish result

def change_bootfs (newguy : Option ν) : VopProg ν σ Unit := do
  let s ← get
  set { s with bootfs_vnode := newguy }
  vop_drop ops s.bootfs_vnode

def vfs_setbootfs (fsname : CStr) : VopProg ν σ Unit :=
  let tmp := fsname.chars.take (NAME_MAX + 1 - 2)
  if COLON ∈ tmp then
    throw .EINVAL
  else do
    vfs_chdir ops (.ofBytes (tmp ++ [COLON]))
    let newguy ← vfs_getcurdir
    change_bootfs ops (some newguy)

/-! ## `vfspath.c` -/

def vfs_open_vnode (path : CStr) (openflags : UInt32) : VopProg ν σ (Option ν) :=
  if openflags &&& O_CREAT ≠ 0 then do
    let (dir, name) ← vfs_lookparent ops path (NAME_MAX + 1)
    let result ← attempt (VOP_CREAT ops dir name (openflags &&& O_EXCL ≠ 0))
    vnode_decref ops (some dir)
    finish (result.map some)
  else
    vfs_lookup ops path

def vfs_open_trunc (vn : ν) (openflags : UInt32) : VopProg ν σ Unit :=
  if openflags &&& O_TRUNC ≠ 0 then
    if openflags &&& O_ACCMODE = O_RDONLY then throw .EINVAL else vop (some vn) fun v => ops.vop_truncate v 0
  else
    pure ()

def vfs_open (path : CStr) (openflags : UInt32) : VopProg ν σ ν :=
  let how := openflags &&& O_ACCMODE
  if how ≠ O_RDONLY ∧ how ≠ O_WRONLY ∧ how ≠ O_RDWR then
    throw .EINVAL
  else do
    let vn ← vfs_open_vnode ops path openflags
    let vn ← deref vn .open_null
    match ← attempt (vop (some vn) fun v => ops.vop_open v openflags) with
    | .error e =>
      vnode_decref ops (some vn)
      throw e
    | .ok _ =>
      vnode_incopen (some vn)
      match ← attempt (vfs_open_trunc ops vn openflags) with
      | .error e =>
        vnode_decopen ops (some vn)
        vnode_decref ops (some vn)
        throw e
      | .ok _ => return vn

def vfs_close (vn : ν) : VopProg ν σ Unit := do
  vnode_decopen ops (some vn)
  vnode_decref ops (some vn)

def vfs_remove (path : CStr) : VopProg ν σ Unit := do
  let (dir, name) ← vfs_lookparent ops path (NAME_MAX + 1)
  let result ← attempt (vop (some dir) fun v => ops.vop_remove v name)
  vnode_decref ops (some dir)
  finish result

def vfs_onefs (vn : Option ν) (dir : ν) (m : VopProg ν σ Unit) : VopProg ν σ Unit := do
  let v ← deref vn .null
  let result ← attempt (if ops.vn_fs v = none ∨ ops.vn_fs dir = none ∨ ops.vn_fs v ≠ ops.vn_fs dir
    then throw .EXDEV else m)
  vnode_decref ops (some dir)
  vnode_decref ops vn
  finish result

def vfs_rename (oldpath newpath : CStr) : VopProg ν σ Unit := do
  let (olddir, oldname) ← vfs_lookparent ops oldpath (NAME_MAX + 1)
  match ← attempt (vfs_lookparent ops newpath (NAME_MAX + 1)) with
  | .error e =>
    vnode_decref ops (some olddir)
    throw e
  | .ok (newdir, newname) =>
    vfs_onefs ops (some olddir) newdir (vop (some olddir) fun v => ops.vop_rename v oldname newdir newname)

def vfs_link (oldpath newpath : CStr) : VopProg ν σ Unit := do
  let oldfile ← vfs_lookup ops oldpath
  match ← attempt (vfs_lookparent ops newpath (NAME_MAX + 1)) with
  | .error e =>
    vnode_decref ops oldfile
    throw e
  | .ok (newdir, newname) =>
    vfs_onefs ops oldfile newdir (vop (some newdir) fun v => ops.vop_link v newname oldfile)

/-! ## Calls -/

inductive Call (ν : Type) where
  | open (path : CStr) (openflags : UInt32)
  | close (vn : ν)
  | lookup (path : CStr)
  | lookparent (path : CStr) (buflen : Nat)
  | remove (path : CStr)
  | rename (oldpath newpath : CStr)
  | link (oldpath newpath : CStr)
  | chdir (path : CStr)
  | getcwd (uio : Uio)
  | setbootfs (fsname : CStr)

def Call.exec : Call ν → VopProg ν σ (Option ν)
  | .open path openflags => do return some (← vfs_open ops path openflags)
  | .close vn => do
    vfs_close ops vn
    return none
  | .lookup path => vfs_lookup ops path
  | .lookparent path buflen => do return some (← vfs_lookparent ops path buflen).1
  | .remove path => do
    vfs_remove ops path
    return none
  | .rename oldpath newpath => do
    vfs_rename ops oldpath newpath
    return none
  | .link oldpath newpath => do
    vfs_link ops oldpath newpath
    return none
  | .chdir path => do
    vfs_chdir ops path
    return none
  | .getcwd uio => do
    let _ ← withVar uio (vfs_getcwd ops)
    return none
  | .setbootfs fsname => do
    vfs_setbootfs ops fsname
    return none

/-! ## The ledger -/

def one (o : Option ν) (v : ν) : Int := if o = some v then 1 else 0

def installed (s : Vnodes ν σ) (v : ν) : Int := one s.t_cwd v + one s.bootfs_vnode v

def counts (s : Vnodes ν σ) (v : ν) : Int × Int :=
  (s.vn_refcount v - s.left.count v - installed s v, s.vn_opencount v)

def places (s : Vnodes ν σ) (p : Option ν × Option ν) : Int := if p = (s.t_cwd, s.bootfs_vnode) then 1 else 0

abbrev Entry (ν : Type) := (ν → Int × Int) × (Option ν × Option ν → Int)

def ledger (s : Vnodes ν σ) : Entry ν := (counts s, places s)

def ref (o : Option ν) : Entry ν := (fun v => (one o v, 0), 0)

def opened (o : Option ν) : Entry ν := (fun v => (0, one o v), 0)

@[simp] theorem ref_none : ref (none : Option ν) = 0 := by
  ext v <;> simp [ref, one]

def got {α : Type} (f : α → Option ν) : Except Errno α → Entry ν
  | .ok a => ref (f a)
  | .error _ => 0

@[simp] theorem got_ok {α : Type} (f : α → Option ν) (a : α) : got f (.ok a) = ref (f a) := rfl

@[simp] theorem got_error {α : Type} (f : α → Option ν) (e : Errno) : got f (.error e) = 0 := rfl

/-! ## Entries of `vnode.c` -/

theorem ledger_eq_add {s t : Vnodes ν σ} {x : Entry ν} (hcwd : t.t_cwd = s.t_cwd)
    (hboot : t.bootfs_vnode = s.bootfs_vnode) (hx : x.2 = 0)
    (h : ∀ v, counts t v = counts s v + x.1 v) : ledger t = ledger s + x := by
  have hplaces : places t = places s := by
    funext p
    rw [places, places, hcwd, hboot]
  refine Prod.ext (funext h) ?_
  simp [ledger, hx, hplaces]

theorem call_pays {α : Type} (f : σ → α × σ) : Pays ledger (call f : VopProg ν σ α) fun _ => 0 := by
  intro d hd s r t h
  simp only [call, Except.ok.injEq, Prod.mk.injEq] at h
  obtain ⟨rfl, rfl⟩ := h
  rw [hd]
  exact (add_zero _).symm

theorem adds_deref_bind {α : Type} {vn : Option ν} {p : VopPanic} {f : ν → VopProg ν σ α}
    {d : Except Errno α → Entry ν} (h : ∀ v, vn = some v → Adds ledger (f v) d) :
    Adds ledger (deref vn p >>= f) d := by
  cases vn with
  | none => exact adds_stop
  | some v => exact h v rfl

theorem zsmul_ref (n : Int) (o : Option ν) (v : ν) : (n • ref o).1 v = (n * one o v, 0) :=
  Prod.ext (zsmul_eq_mul (one o v) n) (zsmul_zero n)

theorem zsmul_opened (n : Int) (o : Option ν) (v : ν) : (n • opened o).1 v = (0, n * one o v) :=
  Prod.ext (zsmul_zero n) (zsmul_eq_mul (one o v) n)

theorem addref_pays (v : ν) (n : Int) :
    Pays ledger (addref v n : VopProg ν σ Unit) fun _ => n • ref (some v) := by
  refine pays_modify fun s => ledger_eq_add rfl rfl (zsmul_zero n) fun w => ?_
  rw [zsmul_ref]
  by_cases hw : v = w
  · subst hw
    simp [counts, installed, one]
    omega
  · simp [counts, installed, one, hw, Function.update_of_ne (Ne.symm hw)]

theorem addopen_pays (v : ν) (n : Int) :
    Pays ledger (addopen v n : VopProg ν σ Unit) fun _ => n • opened (some v) := by
  refine pays_modify fun s => ledger_eq_add rfl rfl (zsmul_zero n) fun w => ?_
  rw [zsmul_opened]
  by_cases hw : v = w
  · subst hw
    simp [counts, installed, one]
  · simp [counts, installed, one, hw, Function.update_of_ne (Ne.symm hw)]

theorem vnode_check_pays (vn : Option ν) (reclaim : Bool) :
    Pays ledger (vnode_check vn reclaim : VopProg ν σ ν) fun _ => 0 := by
  intro d hd
  refine adds_deref_bind fun v _ => adds_get_bind fun s => ?_
  exact adds_ensure_bind fun _ => adds_ensure_bind fun _ => adds_pure (hd v)

theorem vop_adds {α : Type} (vn : Option ν) (f : ν → σ → Except Errno α × σ) :
    Adds ledger (vop vn f : VopProg ν σ α) fun _ => 0 :=
  (vnode_check_pays vn false).bind_zero fun _ => (call_pays _).bind_zero fun _ => adds_finish rfl

theorem vnode_incref_pays (vn : Option ν) : Pays ledger (vnode_incref vn : VopProg ν σ Unit) fun _ => ref vn := by
  intro d hd
  refine adds_deref_bind fun v hv => (addref_pays v 1).adds fun a => ?_
  rw [hd, hv, one_zsmul]

theorem vop_reclaim_pays (v : ν) : Pays ledger (vop_reclaim ops v) fun _ => -ref (some v) := by
  intro d hd
  refine (vnode_check_pays _ _).bind_zero fun _ => (call_pays _).bind_zero fun r => ?_
  cases r with
  | killed =>
    refine adds_get_bind fun s => adds_ensure_bind fun _ => (addref_pays v (-1)).adds fun a => ?_
    rw [hd, neg_one_zsmul]
  | kept e =>
    refine (pays_modify fun s => ?_).adds hd
    refine ledger_eq_add rfl rfl (by simp [ref]) fun w => ?_
    by_cases hw : v = w
    · subst hw
      simp [counts, installed, ref, one]
      omega
    · simp [counts, installed, ref, one, hw]

theorem vnode_decref_pays (vn : Option ν) : Pays ledger (vnode_decref ops vn) fun _ => -ref vn := by
  intro d hd
  refine adds_deref_bind fun v hv => adds_get_bind fun s => adds_ensure_bind fun _ => ?_
  split
  · refine (addref_pays v (-1)).adds fun a => ?_
    rw [hd, hv, neg_one_zsmul]
  · refine (vop_reclaim_pays ops v).adds fun a => ?_
    rw [hd, hv]

theorem vnode_incopen_pays (vn : Option ν) :
    Pays ledger (vnode_incopen vn : VopProg ν σ Unit) fun _ => opened vn := by
  intro d hd
  refine adds_deref_bind fun v hv => (addopen_pays v 1).adds fun a => ?_
  rw [hd, hv, one_zsmul]

theorem vop_close_pays (v : ν) : Pays ledger (vop_close ops v) fun _ => 0 := by
  intro d hd
  exact (vnode_check_pays _ _).bind_zero fun _ => (call_pays _).bind_zero fun _ => adds_pure (hd ())

theorem vnode_decopen_pays (vn : Option ν) : Pays ledger (vnode_decopen ops vn) fun _ => -opened vn := by
  intro d hd
  refine adds_deref_bind fun v hv => adds_get_bind fun s => adds_ensure_bind fun _ => ?_
  refine (addopen_pays v (-1)).bind fun _ => ?_
  have hrest : ∀ a, d (.ok a) - (-1 : Int) • opened (some v) = 0 := by
    intro a
    rw [hd, hv, neg_one_zsmul, sub_self]
  split
  · exact adds_pure (hrest ())
  · exact (vop_close_pays ops v).adds hrest

/-! ## Entries of lookups -/

theorem FSOP_GETROOT_pays (fs : Fs) : Pays ledger (FSOP_GETROOT ops fs) ref := by
  intro d hd
  refine (call_pays _).bind_zero fun r => ?_
  cases r with
  | none => exact adds_pure (by rw [hd, ref_none])
  | some v => exact (addref_pays v 1).bind fun _ => adds_pure (by rw [hd, one_zsmul, sub_self])

theorem vop_ref_adds {α : Type} (vn : Option ν) (f : ν → σ → Except Errno α × σ) (g : α → ν) :
    Adds ledger (vop vn f >>= fun a => addref (g a) 1 >>= fun _ => pure a : VopProg ν σ α)
      (got fun a => some (g a)) := by
  refine (vop_adds vn f).bind (fun e => rfl) fun a => (addref_pays (g a) 1).bind fun _ => adds_pure ?_
  rw [got_ok, sub_zero, one_zsmul, sub_self]

theorem VOP_LOOKUP_adds (vn : Option ν) (path : CStr) : Adds ledger (VOP_LOOKUP ops vn path) (got some) :=
  vop_ref_adds vn _ id

theorem VOP_LOOKPARENT_adds (vn : Option ν) (path : CStr) (buflen : Nat) :
    Adds ledger (VOP_LOOKPARENT ops vn path buflen) (got fun x => some x.1) :=
  vop_ref_adds vn _ Prod.fst

theorem VOP_CREAT_adds (dir : ν) (name : CStr) (excl : Bool) :
    Adds ledger (VOP_CREAT ops dir name excl) (got some) :=
  vop_ref_adds (some dir) _ id

theorem incref_adds {α : Type} (v : ν) (a : α) (f : α → Option ν) (h : f a = some v) :
    Adds ledger (vnode_incref (some v) >>= fun _ => pure a : VopProg ν σ α) (got f) :=
  (vnode_incref_pays _).bind fun _ => adds_pure (by rw [got_ok, h, sub_self])

theorem vfs_getcurdir_adds : Adds ledger (vfs_getcurdir : VopProg ν σ ν) (got some) := by
  refine adds_get_bind fun s => ?_
  cases s.t_cwd with
  | none => exact adds_throw rfl
  | some v => exact incref_adds v v some rfl

theorem getdevice_boot_adds : Adds ledger (getdevice_boot : VopProg ν σ (Option ν)) (got id) := by
  refine adds_get_bind fun s => ?_
  cases s.bootfs_vnode with
  | none => exact adds_throw rfl
  | some v => exact incref_adds v (some v) id rfl

theorem getdevice_cwd_adds : Adds ledger (getdevice_cwd : VopProg ν σ (Option ν)) (got id) :=
  vfs_getcurdir_adds.bind (fun _ => rfl) fun _ => adds_pure (sub_self _)

theorem getdevice_root_adds : Adds ledger (getdevice_root ops) (got id) := by
  refine vfs_getcurdir_adds.bind (fun _ => rfl) fun vn => ?_
  cases ops.vn_fs vn with
  | none => exact adds_stop
  | some fs =>
    refine (FSOP_GETROOT_pays ops fs).bind fun startvn => (vnode_decref_pays ops _).bind fun _ => adds_pure ?_
    simp only [got_ok, id]
    abel

theorem vfs_getroot_ref_adds (devname : CStr) : Adds ledger (vfs_getroot_ref ops devname) (got id) := by
  refine adds_get_bind fun s => ?_
  rcases vfs_getroot s.knowndevs devname with p | e | fs | n
  · exact adds_stop
  · exact adds_throw rfl
  · exact (FSOP_GETROOT_pays ops fs).adds fun _ => rfl
  · exact incref_adds _ _ id rfl

theorem getdevice_start_adds (path : CStr) : Adds ledger (getdevice_start ops path).2 (got id) := by
  rw [getdevice_start]
  split
  · exact getdevice_cwd_adds
  · split
    · exact getdevice_boot_adds
    · exact getdevice_root_adds ops
  · split
    · exact vfs_getroot_ref_adds ops _
    · exact getdevice_cwd_adds

theorem getdevice_adds (path : CStr) : Adds ledger (getdevice ops path) (got Prod.snd) :=
  (getdevice_start_adds ops path).bind (fun _ => rfl) fun _ => adds_pure (sub_self _)

theorem vfs_lookparent_adds (path : CStr) (buflen : Nat) :
    Adds ledger (vfs_lookparent ops path buflen) (got fun x => some x.1) := by
  refine (getdevice_adds ops path).bind (fun _ => rfl) ?_
  rintro ⟨rest, startvn⟩
  have hlook : Adds ledger (if rest.chars.length = 0 then throw .EINVAL else
      VOP_LOOKPARENT ops startvn rest buflen) (got fun x => some x.1) := by
    split
    · exact adds_throw rfl
    · exact VOP_LOOKPARENT_adds ops startvn rest buflen
  refine hlook.bind_attempt fun r => (vnode_decref_pays ops startvn).bind fun _ => adds_finish ?_
  simp only [got_ok]
  abel

theorem vfs_lookup_adds (path : CStr) : Adds ledger (vfs_lookup ops path) (got id) := by
  refine (getdevice_adds ops path).bind (fun _ => rfl) ?_
  rintro ⟨rest, startvn⟩
  dsimp only
  split
  · exact adds_pure (sub_self _)
  · refine (VOP_LOOKUP_adds ops startvn rest).bind_attempt fun r =>
      (vnode_decref_pays ops startvn).bind fun _ => adds_finish ?_
    cases r <;> simp [Except.map]

/-! ## Entries of the calls -/

theorem vop_drop_pays (old : Option ν) : Pays ledger (vop_drop ops old) fun _ => -ref old := by
  cases old with
  | none => exact fun d hd => adds_pure (by rw [hd, ref_none, neg_zero])
  | some v => exact vnode_decref_pays ops (some v)

theorem vfs_open_vnode_adds (path : CStr) (openflags : UInt32) :
    Adds ledger (vfs_open_vnode ops path openflags) (got id) := by
  rw [vfs_open_vnode]
  split
  · refine (vfs_lookparent_adds ops path _).bind (fun _ => rfl) ?_
    rintro ⟨dir, name⟩
    refine (VOP_CREAT_adds ops dir name _).bind_attempt fun r =>
      (vnode_decref_pays ops (some dir)).bind fun _ => adds_finish ?_
    cases r <;> simp [Except.map]
  · exact vfs_lookup_adds ops path

theorem vfs_open_trunc_adds (vn : ν) (openflags : UInt32) :
    Adds ledger (vfs_open_trunc ops vn openflags) fun _ => 0 := by
  rw [vfs_open_trunc]
  split
  · split
    · exact adds_throw rfl
    · exact vop_adds _ _
  · exact adds_pure rfl

def gotOpen : Except Errno ν → Entry ν
  | .ok v => ref (some v) + opened (some v)
  | .error _ => 0

theorem vfs_open_adds (path : CStr) (openflags : UInt32) :
    Adds ledger (vfs_open ops path openflags) gotOpen := by
  rw [vfs_open]
  split
  · exact adds_throw rfl
  · refine (vfs_open_vnode_adds ops path openflags).bind (fun _ => rfl) fun o => ?_
    refine adds_deref_bind fun vn ho => (vop_adds _ _).bind_attempt fun r => ?_
    subst ho
    cases r with
    | error e => exact (vnode_decref_pays ops _).bind fun _ => adds_throw (by simp [gotOpen])
    | ok _ =>
      refine (vnode_incopen_pays _).bind fun _ => (vfs_open_trunc_adds ops vn openflags).bind_attempt fun r => ?_
      cases r with
      | error e =>
        exact (vnode_decopen_pays ops _).bind fun _ => (vnode_decref_pays ops _).bind fun _ =>
          adds_throw (by simp [gotOpen])
      | ok _ => exact adds_pure (by simp [gotOpen])

theorem vfs_close_adds (vn : ν) :
    Adds ledger (vfs_close ops vn) fun _ => -(ref (some vn) + opened (some vn)) := by
  refine (vnode_decopen_pays ops _).bind fun _ => (vnode_decref_pays ops _).adds fun _ => ?_
  abel

theorem vfs_remove_adds (path : CStr) : Adds ledger (vfs_remove ops path) fun _ => 0 := by
  refine (vfs_lookparent_adds ops path _).bind (fun _ => rfl) ?_
  rintro ⟨dir, name⟩
  refine (vop_adds _ _).bind_attempt fun r => (vnode_decref_pays ops _).bind fun _ => adds_finish ?_
  simp

theorem vfs_onefs_adds (vn : Option ν) (dir : ν) (m : VopProg ν σ Unit) (hm : Adds ledger m fun _ => 0) :
    Adds ledger (vfs_onefs ops vn dir m) fun _ => -(ref vn + ref (some dir)) := by
  refine adds_deref_bind fun v _ => ?_
  have hcall : Adds ledger (if ops.vn_fs v = none ∨ ops.vn_fs dir = none ∨ ops.vn_fs v ≠ ops.vn_fs dir
      then throw .EXDEV else m) fun _ => 0 := by
    split
    · exact adds_throw rfl
    · exact hm
  refine hcall.bind_attempt fun r => (vnode_decref_pays ops _).bind fun _ =>
    (vnode_decref_pays ops _).bind fun _ => adds_finish ?_
  abel

theorem second_path_adds (vn : Option ν) (newpath : CStr) (m : ν → CStr → VopProg ν σ Unit)
    (hm : ∀ dir name, Adds ledger (m dir name) fun _ => 0) :
    Adds ledger (attempt (vfs_lookparent ops newpath (NAME_MAX + 1)) >>= fun r =>
      match r with
      | .error e => vnode_decref ops vn >>= fun _ => throw e
      | .ok (newdir, newname) => vfs_onefs ops vn newdir (m newdir newname)) fun _ => -ref vn := by
  refine (vfs_lookparent_adds ops newpath _).bind_attempt fun r => ?_
  rcases r with e | ⟨newdir, newname⟩
  · exact (vnode_decref_pays ops vn).bind fun _ => adds_throw (by simp)
  · refine (vfs_onefs_adds ops vn newdir _ (hm newdir newname)).congr fun _ => ?_
    rw [got_ok]
    abel

theorem vfs_rename_adds (oldpath newpath : CStr) : Adds ledger (vfs_rename ops oldpath newpath) fun _ => 0 := by
  refine (vfs_lookparent_adds ops oldpath _).bind (fun _ => rfl) ?_
  rintro ⟨olddir, oldname⟩
  refine (second_path_adds ops (some olddir) newpath _ fun dir name => vop_adds _ _).congr fun _ => ?_
  rw [got_ok, zero_sub]

theorem vfs_link_adds (oldpath newpath : CStr) : Adds ledger (vfs_link ops oldpath newpath) fun _ => 0 := by
  refine (vfs_lookup_adds ops oldpath).bind (fun _ => rfl) fun oldfile => ?_
  refine (second_path_adds ops oldfile newpath _ fun dir name => vop_adds _ _).congr fun _ => ?_
  rw [got_ok, zero_sub, id]

theorem uiomove_str_adds (name : CStr) :
    Adds (fun s => ledger s.1) (uiomove_str name : Prog VopPanic Errno (Vnodes ν σ × Uio) Unit) fun _ => 0 := by
  rintro ⟨s, uio⟩ r t h
  simp only [uiomove_str] at h
  split at h
  · simp only [Except.ok.injEq, Prod.mk.injEq] at h
    obtain ⟨rfl, rfl⟩ := h
    exact (add_zero _).symm
  · cases h

theorem VOP_NAMEFILE_adds (v : ν) : Adds (fun s => ledger s.1) (VOP_NAMEFILE ops v) fun _ => 0 := by
  refine (vnode_check_pays _ _).first.bind_zero fun v => adds_get_bind ?_
  rintro ⟨s, uio⟩
  refine (call_pays _).first.bind_zero ?_
  rintro ⟨r, uio'⟩
  exact (pays_modify fun s => (add_zero _).symm).bind_zero fun _ => adds_finish rfl

theorem vfs_getcwd_adds : Adds (fun s => ledger s.1) (vfs_getcwd ops) fun _ => 0 := by
  refine adds_get_bind ?_
  rintro ⟨s, uio⟩
  refine adds_ensure_bind fun _ => vfs_getcurdir_adds.first.bind (fun _ => rfl) fun cwd => ?_
  cases ops.vn_fs cwd with
  | none => exact adds_stop
  | some fs =>
    refine adds_get_bind ?_
    rintro ⟨s', uio'⟩
    dsimp only
    cases vfs_getcwd_name s'.knowndevs fs with
    | none => exact adds_stop
    | some name =>
      have hmove : Adds (fun s => ledger s.1) (uiomove_str name >>= fun _ => uiomove_str colon >>= fun _ =>
          VOP_NAMEFILE ops cwd) fun _ => 0 := by
        refine (uiomove_str_adds name).bind (fun _ => rfl) fun _ => ?_
        refine (uiomove_str_adds colon).bind (fun _ => rfl) fun _ => ?_
        exact (VOP_NAMEFILE_adds ops cwd).congr fun _ => by simp
      refine hmove.bind_attempt fun r => (vnode_decref_pays ops _).first.bind fun _ => adds_finish ?_
      simp

/-! ## The current directory and the boot volume

The calls that move one of them, on the counts alone.
-/

instance : Nontrivial (Entry ν) := ⟨⟨(0, 0), (0, 1), by simp [funext_iff]⟩⟩

theorem counts_adds {α : Type} {m : VopProg ν σ α} {d : Except Errno α → Entry ν} (h : Adds ledger m d) :
    Adds counts m fun r => (d r).1 :=
  h.map (.fst _ _)

theorem counts_pays {α : Type} {m : VopProg ν σ α} {d : α → Entry ν} (h : Pays ledger m d) :
    Pays counts m fun a => (d a).1 :=
  h.map (.fst _ _)

theorem setcwd_pays (dir : Option ν) : Pays counts (setcwd ops dir) fun _ => -(ref dir).1 := by
  intro d hd
  refine adds_replace fun s => (counts_pays (vop_drop_pays ops s.t_cwd)).adds fun _ => ?_
  rw [hd]
  funext v
  simp [counts, installed, ref]
  omega

theorem change_bootfs_pays (newguy : Option ν) : Pays counts (change_bootfs ops newguy) fun _ => -(ref newguy).1 := by
  intro d hd
  refine adds_replace fun s => (counts_pays (vop_drop_pays ops s.bootfs_vnode)).adds fun _ => ?_
  rw [hd]
  funext v
  simp [counts, installed, ref]
  omega

theorem vfs_setcurdir_adds (dir : Option ν) : Adds counts (vfs_setcurdir ops dir) fun _ => 0 := by
  refine (counts_adds (vop_adds dir ops.vop_isdir)).bind (fun _ => rfl) fun isdir => ?_
  split
  · refine (counts_pays (vnode_incref_pays dir)).bind fun _ => (setcwd_pays ops dir).adds fun _ => ?_
    simp
  · exact adds_throw (sub_self _)

theorem vfs_chdir_adds (path : CStr) : Adds counts (vfs_chdir ops path) fun _ => 0 := by
  refine (counts_adds (vfs_lookup_adds ops path)).bind (fun _ => rfl) fun vn => ?_
  refine (vfs_setcurdir_adds ops vn).bind_attempt fun r =>
    (counts_pays (vnode_decref_pays ops vn)).bind fun _ => adds_finish ?_
  simp

theorem vfs_setbootfs_adds (fsname : CStr) : Adds counts (vfs_setbootfs ops fsname) fun _ => 0 := by
  rw [vfs_setbootfs]
  split
  · exact adds_throw rfl
  · refine (vfs_chdir_adds ops _).bind (fun _ => rfl) fun _ => ?_
    refine (counts_adds vfs_getcurdir_adds).bind (fun _ => rfl) fun newguy =>
      (change_bootfs_pays ops _).adds fun _ => ?_
    simp

/-! ## Every call -/

def Call.closes : Call ν → Option ν
  | .close vn => some vn
  | _ => none

def Call.installs : Call ν → Bool
  | .chdir _ | .setbootfs _ => true
  | _ => false

def handed : Except Errno (Option ν) → Option ν
  | .ok o => o
  | .error _ => none

def Call.opens : Call ν → Except Errno (Option ν) → Option ν
  | .open _ _, r => handed r
  | _, _ => none

def Call.entry (c : Call ν) (r : Except Errno (Option ν)) : Entry ν :=
  ref (handed r) + opened (c.opens r) - (ref c.closes + opened c.closes)

@[simp] theorem opened_none : opened (none : Option ν) = 0 := by
  ext v <;> simp [opened, one]

omit [DecidableEq ν] in
theorem Call.opens_none (c : Call ν) {r : Except Errno (Option ν)} (hr : handed r = none) : c.opens r = none := by
  cases c <;> simp [opens, hr]

theorem Call.entry_none (c : Call ν) {r : Except Errno (Option ν)} (hr : handed r = none) :
    c.entry r = -(ref c.closes + opened c.closes) := by
  rw [entry, hr, c.opens_none hr, ref_none, opened_none, zero_add, zero_sub]

theorem Call.entry_of_none {α : Type} {A : Type} [AddCommGroup A] {μ : Vnodes ν σ → A} {m : VopProg ν σ α}
    (c : Call ν) (f : Entry ν → A) (h : Adds μ m fun _ => f (-(ref c.closes + opened c.closes))) :
    Adds μ (m >>= fun _ => pure none) fun r => f (c.entry r) := by
  refine h.bind (fun e => ?_) fun _ => adds_pure ?_
  · rw [c.entry_none rfl]
  · rw [c.entry_none rfl, sub_self]

theorem Call.entry_of_quiet {α : Type} {m : VopProg ν σ α} (c : Call ν) (hc : c.closes = none)
    (h : Adds ledger m fun _ => 0) : Adds ledger (m >>= fun _ => pure none) c.entry := by
  refine c.entry_of_none id (h.congr fun _ => ?_)
  simp [hc]

theorem Call.exec_ledger (c : Call ν) (hc : c.installs = false) : Adds ledger (c.exec ops) c.entry := by
  cases c with
  | «open» path openflags =>
    refine (vfs_open_adds ops path openflags).bind (fun e => ?_) fun v => adds_pure ?_
    · simp [entry, handed, opens, closes, gotOpen]
    · simp [entry, handed, opens, closes, gotOpen]
  | close vn => exact (Call.close vn).entry_of_none id (vfs_close_adds ops vn)
  | lookup path =>
    refine (vfs_lookup_adds ops path).congr fun r => ?_
    cases r <;> simp [entry, handed, opens, closes]
  | lookparent path buflen =>
    refine (vfs_lookparent_adds ops path buflen).bind (fun e => ?_) fun x => adds_pure ?_
    · simp [entry, handed, opens, closes]
    · simp [entry, handed, opens, closes]
  | remove path => exact Call.entry_of_quiet _ rfl (vfs_remove_adds ops path)
  | rename oldpath newpath => exact Call.entry_of_quiet _ rfl (vfs_rename_adds ops oldpath newpath)
  | link oldpath newpath => exact Call.entry_of_quiet _ rfl (vfs_link_adds ops oldpath newpath)
  | getcwd uio =>
    refine Call.entry_of_quiet _ rfl ?_
    exact (vfs_getcwd_adds ops).withVar (fun _ _ => rfl) fun _ => rfl
  | chdir path => cases hc
  | setbootfs fsname => cases hc

theorem Call.exec_counts (c : Call ν) : Adds counts (c.exec ops) fun r => (c.entry r).1 := by
  by_cases hc : c.installs = false
  · exact counts_adds (c.exec_ledger ops hc)
  cases c with
  | chdir path =>
    refine Call.entry_of_none _ Prod.fst ((vfs_chdir_adds ops path).congr fun _ => ?_)
    simp [closes]
  | setbootfs fsname =>
    refine Call.entry_of_none _ Prod.fst ((vfs_setbootfs_adds ops fsname).congr fun _ => ?_)
    simp [closes]
  | _ => exact absurd rfl hc

theorem places_inj {s t : Vnodes ν σ} (h : places t = places s) :
    t.t_cwd = s.t_cwd ∧ t.bootfs_vnode = s.bootfs_vnode := by
  have ht := congrFun h (t.t_cwd, t.bootfs_vnode)
  simpa [places] using ht

/-- Where every vnode that a call reclaims is destroyed, references change by the vnode handed back, the one closed,
and those installed and replaced, and opens by the vnode opened or closed. -/
theorem references_balanced (c : Call ν) (s t : Vnodes ν σ) (r : Except Errno (Option ν))
    (hrun : c.exec ops s = .ok (r, t)) (hreclaimed : t.left = s.left) :
    (∀ v, t.vn_refcount v =
      s.vn_refcount v + one (handed r) v - one c.closes v + (installed t v - installed s v)) ∧
    (∀ v, t.vn_opencount v = s.vn_opencount v + one (c.opens r) v - one c.closes v) ∧
    (c.installs = false → t.t_cwd = s.t_cwd ∧ t.bootfs_vnode = s.bootfs_vnode) := by
  have hcounts : ∀ v, counts t v = counts s v + (c.entry r).1 v :=
    congrFun (c.exec_counts ops s r t hrun)
  refine ⟨fun v => ?_, fun v => ?_, fun hc => ?_⟩
  · have h := congrArg Prod.fst (hcounts v)
    simp only [counts, Call.entry, ref, opened, hreclaimed] at h
    simp at h
    omega
  · have h := congrArg Prod.snd (hcounts v)
    simp [counts, Call.entry, ref, opened] at h
    omega
  · have h := congrArg Prod.snd (c.exec_ledger ops hc s r t hrun)
    refine places_inj (h.trans ?_)
    simp [ledger, Call.entry, ref, opened]

/-! ## A volume with one file

Vnode 0 is the root of the volume on device `d`, and vnode 1 is its file `f`. `VOP_RECLAIM` answers `res`.
-/

def oneFile (res : Reclaimed) : Ops Nat Unit where
  vn_fs := fun _ => some ⟨0, none⟩
  kd_vnode := fun n => n + 2
  fs_getroot := fun _ u => (some 0, u)
  vop_lookup := fun _ _ u => (.ok 1, u)
  vop_lookparent := fun v path _ u => (.ok (v, path), u)
  vop_creat := fun _ _ _ u => (.ok 1, u)
  vop_open := fun _ _ u => (.ok (), u)
  vop_close := fun _ u => (.ok (), u)
  vop_reclaim := fun _ u => (res, u)
  vop_truncate := fun _ _ u => (.ok (), u)
  vop_remove := fun _ _ u => (.ok (), u)
  vop_rename := fun _ _ _ _ u => (.ok (), u)
  vop_link := fun _ _ _ u => (.ok (), u)
  vop_isdir := fun v u => (.ok (v = 0), u)
  vop_namefile := fun _ uio u => ((.ok (), uio), u)

def fileOpen (n : Int) : Vnodes Nat Unit where
  fs := ()
  knowndevs := [⟨⟨[0x64], by decide⟩, some ⟨[0x72], by decide⟩, some 0, 0, some ⟨0, none⟩⟩]
  vn_refcount := fun v => if v = 1 then n else 0
  vn_opencount := fun v => if v = 1 then n else 0
  t_cwd := none
  bootfs_vnode := none
  left := []

def filePath : CStr := ⟨[0x64, COLON, 0x66], by decide⟩

theorem references_balanced_open : ∃ t,
    (Call.open filePath O_RDWR).exec (oneFile .killed) (fileOpen 0) = .ok (.ok (some 1), t) ∧
    t.left = (fileOpen 0).left ∧
    ∀ v, t.vn_refcount v = (fileOpen 0).vn_refcount v + one (some 1) v - one none v +
      (installed t v - installed (fileOpen 0) v) := by
  have hrun : ∃ t, (Call.open filePath O_RDWR).exec (oneFile .killed) (fileOpen 0) = .ok (.ok (some 1), t) ∧
      t.left = (fileOpen 0).left := ⟨_, rfl, rfl⟩
  obtain ⟨t, hrun, hleft⟩ := hrun
  exact ⟨t, hrun, hleft, (references_balanced _ _ _ _ _ hrun hleft).1⟩

/-- A file is closed, and writing its inode back fails: the reference that was given up is still counted. -/
theorem reference_left_by_close : ∃ t,
    (Call.close 1).exec (oneFile (.kept (some Errno.EIO))) (fileOpen 1) = .ok (.ok none, t) ∧
    t.vn_refcount 1 = (fileOpen 1).vn_refcount 1 ∧ t.vn_opencount 1 = (fileOpen 1).vn_opencount 1 - 1 ∧
    t.t_cwd = none ∧ t.bootfs_vnode = none :=
  ⟨_, rfl, rfl, rfl, rfl, rfl⟩

end Os161.AnyFs
