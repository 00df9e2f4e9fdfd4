import Os161.Lib.Lts
import Os161.Sfs.Dir

/-! # `fs/vfs/vfslist.c`: the named devices

The table of devices with their names, and what a name in front of a colon stands for.
-/

namespace Os161

open Prog

instance : DecidableEq CStr := fun a b =>
  decidable_of_iff (a.chars = b.chars) ⟨fun h => by cases a; cases b; simp_all, fun h => by rw [h]⟩

structure Fs where
  fs_data : Nat
  volname : Option CStr
  deriving DecidableEq

structure Knowndev where
  kd_name : CStr
  kd_rawname : Option CStr
  kd_device : Option Nat
  kd_vnode : Nat
  kd_fs : Option Fs
  deriving DecidableEq

instance : Inhabited Knowndev := ⟨⟨⟨[], nofun⟩, none, none, 0, none⟩⟩

structure Vfs where
  knowndevs : KArray Knowndev
  nvnodes : Nat
  heap : Heap

inductive VfsPanic where
  | dev_create_vnode
  | getroot_rawname | getroot_device
  | mount_rawname | mount_device | unmount_rawname | unmount_device
  deriving DecidableEq, Repr

namespace Vfs

def devs (s : Vfs) : List Knowndev := s.knowndevs.toList

def alloc {α : Type} (m : Alloc α) : Prog VfsPanic Errno Vfs α := do
  let s ← get
  set { s with heap := (m s.heap).2 }
  return (m s.heap).1

end Vfs

/-! ## Names -/

def rawsuffix : List Byte := [0x72, 0x61, 0x77]

def mkrawname (name : CStr) : CStr :=
  ⟨name.chars ++ rawsuffix, fun c hc => by
    rcases List.mem_append.mp hc with hc | hc
    · exact name.no_nul c hc
    · exact (by decide : ∀ c ∈ rawsuffix, c ≠ 0) c hc⟩

def samestring (a b : Option CStr) : Bool :=
  match a, b with
  | some a, some b => a = b
  | _, _ => false

def samestring3 (a b c d : Option CStr) : Bool := samestring a b || samestring a c || samestring a d

def Knowndev.volname (kd : Knowndev) : Option CStr := kd.kd_fs.bind Fs.volname

def badname (n1 n2 n3 : Option CStr) (kd : Knowndev) : Bool :=
  samestring3 kd.volname n1 n2 n3 || samestring3 kd.kd_rawname n1 n2 n3 || samestring3 (some kd.kd_name) n1 n2 n3

def badnames (knowndevs : List Knowndev) (n1 n2 n3 : Option CStr) : Bool := knowndevs.any (badname n1 n2 n3)

/-! ## Lookup -/

inductive Root where
  | fs (fs : Fs)
  | device (vnode : Nat)
  deriving DecidableEq

/-- One turn of the loop of `vfs_getroot`; `none` goes on to the next device. -/
def vfs_getroot_at (devname : CStr) (kd : Knowndev) : Option (Except VfsPanic (Except Errno Root)) :=
  match kd.kd_fs with
  | some fs =>
    if kd.kd_name = devname ∨ fs.volname = some devname then some (.ok (.ok (.fs fs)))
    else if kd.kd_rawname = some devname then
      if kd.kd_device = none then some (.error .getroot_device) else some (.ok (.ok (.device kd.kd_vnode)))
    else none
  | none =>
    if kd.kd_rawname ≠ none ∧ kd.kd_name = devname then some (.ok (.error Errno.ENXIO))
    else if kd.kd_name = devname then
      if kd.kd_rawname ≠ none then some (.error .getroot_rawname)
      else if kd.kd_device = none then some (.error .getroot_device)
      else some (.ok (.ok (.device kd.kd_vnode)))
    else if kd.kd_rawname = some devname then
      if kd.kd_device = none then some (.error .getroot_device) else some (.ok (.ok (.device kd.kd_vnode)))
    else none

def vfs_getroot (knowndevs : List Knowndev) (devname : CStr) : Except VfsPanic (Except Errno Root) :=
  match knowndevs.findSome? (vfs_getroot_at devname) with
  | some r => r
  | none => .ok (.error .ENODEV)

/-! ## Adding -/

/-- `none` where the vnode cannot be allocated; a lock that cannot be allocated stops the machine. -/
def dev_create_vnode : Prog VfsPanic Errno Vfs (Option Nat) := do
  if ← Vfs.alloc kmalloc then
    if ← Vfs.alloc lock_create then
      let s ← get
      set { s with nvnodes := s.nvnodes + 1 }
      return some s.nvnodes
    else
      stop .dev_create_vnode
  else
    return none

/-- The allocation of `mkrawname`, true if it is not needed. -/
def vfs_doadd_rawname (mountable : Bool) : Prog VfsPanic Errno Vfs Bool :=
  if mountable then Vfs.alloc kmalloc else pure true

def vfs_doadd_insert (kd : Knowndev) : Prog VfsPanic Errno Vfs Unit := do
  let s ← get
  if badnames s.devs (some kd.kd_name) kd.kd_rawname kd.volname then
    throw .EEXIST
  else
    match ← Vfs.alloc (array_add s.knowndevs kd) with
    | .error e => throw e
    | .ok knowndevs => modify fun s => { s with knowndevs := knowndevs }

def vfs_doadd (dname : CStr) (mountable : Bool) (dev : Option Nat) (fs : Option Fs) :
    Prog VfsPanic Errno Vfs Unit := do
  if ← Vfs.alloc kmalloc then
    if ← vfs_doadd_rawname mountable then
      match ← dev_create_vnode with
      | none => throw .ENOMEM
      | some vnode =>
        if ← Vfs.alloc kmalloc then
          vfs_doadd_insert ⟨dname, if mountable then some (mkrawname dname) else none, dev, vnode, fs⟩
        else
          throw .ENOMEM
    else
      throw .ENOMEM
  else
    throw .ENOMEM

def vfs_adddev (devname : CStr) (dev : Nat) (mountable : Bool) : Prog VfsPanic Errno Vfs Unit :=
  vfs_doadd devname mountable (some dev) none

def vfs_addfs (devname : CStr) (fs : Fs) : Prog VfsPanic Errno Vfs Unit :=
  vfs_doadd devname false none (some fs)

/-! ## Mounting -/

def findmount (knowndevs : KArray Knowndev) (devname : CStr) : Option (Fin knowndevs.num) :=
  (List.finRange knowndevs.num).find? fun i =>
    (array_getguy knowndevs i).kd_rawname ≠ none ∧ devname = (array_getguy knowndevs i).kd_name

def vfs_mount (devname : CStr) (mountfunc : Nat → Except Errno Fs) : Prog VfsPanic Errno Vfs CStr := do
  let s ← get
  match findmount s.knowndevs devname with
  | none => throw .ENODEV
  | some i =>
    let kd := array_getguy s.knowndevs i
    if kd.kd_fs ≠ none then
      throw .EBUSY
    else
      ensure (kd.kd_rawname ≠ none) .mount_rawname
      match kd.kd_device with
      | none => stop .mount_device
      | some dev =>
        match mountfunc dev with
        | .error e => throw e
        | .ok fs =>
          set { s with knowndevs := array_setguy s.knowndevs i { kd with kd_fs := some fs } }
          return kd.kd_name

def vfs_unmount (devname : CStr) (sync drop : Except Errno Unit) : Prog VfsPanic Errno Vfs CStr := do
  let s ← get
  match findmount s.knowndevs devname with
  | none => throw .ENODEV
  | some i =>
    let kd := array_getguy s.knowndevs i
    if kd.kd_fs = none then
      throw .EINVAL
    else
      ensure (kd.kd_rawname ≠ none) .unmount_rawname
      ensure (kd.kd_device ≠ none) .unmount_device
      finish sync
      finish drop
      set { s with knowndevs := array_setguy s.knowndevs i { kd with kd_fs := none } }
      return kd.kd_name

/-! ## Calls in any order -/

inductive VfsOp where
  | adddev (devname : CStr) (dev : Nat) (mountable : Bool)
  | addfs (devname : CStr) (fs : Fs)
  | mount (devname : CStr) (mountfunc : Nat → Except Errno Fs)
  | unmount (devname : CStr) (sync drop : Except Errno Unit)

inductive VfsEvent where
  | added (dev : Nat) | mounted (kd_name : CStr) | unmounted (kd_name : CStr)
  deriving DecidableEq

def VfsOp.exec : VfsOp → Prog VfsPanic Errno Vfs (List VfsEvent)
  | .adddev devname dev mountable => do vfs_adddev devname dev mountable; return [.added dev]
  | .addfs devname fs => do vfs_addfs devname fs; return []
  | .mount devname mountfunc => do return [.mounted (← vfs_mount devname mountfunc)]
  | .unmount devname sync drop => do return [.unmounted (← vfs_unmount devname sync drop)]

/-- From `vfs_bootstrap` on, with any outcomes of `kmalloc`. A failed call is a step too. -/
def vfslist : Machine Vfs VfsOp VfsEvent VfsPanic where
  init s := ∃ heap, s = ⟨array_create, 0, heap⟩
  step s op :=
    match op.exec s with
    | .ok (.ok es, t) => .ok (t, es)
    | .ok (.error _, t) => .ok (t, [])
    | .error p => .error p

/-! ## What each call does to the table -/

section Specs

variable {s t : Vfs} {X : VfsPanic → Prop}

theorem Vfs.alloc_run {α : Type} (m : Alloc α) (s : Vfs) :
    Vfs.alloc m s = .ok (.ok (m s.heap).1, { s with heap := (m s.heap).2 }) := rfl

theorem dev_create_vnode_spec (s : Vfs) :
    Holds (fun _ => True) dev_create_vnode s fun _ t => t.devs = s.devs := by
  rw [dev_create_vnode]
  refine holds_bind_run (Vfs.alloc_run _ _) ?_
  split
  · refine holds_bind_run (Vfs.alloc_run _ _) ?_
    split
    · exact holds_bind_run (get_run _) (holds_bind_run (set_run _ _) (holds_pure rfl))
    · exact holds_stop trivial
  · exact holds_pure rfl

theorem vfs_doadd_insert_spec (kd : Knowndev) (s : Vfs) :
    Holds (fun _ => True) (vfs_doadd_insert kd) s fun r t =>
      t.devs = s.devs ∧ r ≠ .ok () ∨
        r = .ok () ∧ t.devs = s.devs ++ [kd] ∧ badnames s.devs (some kd.kd_name) kd.kd_rawname kd.volname = false := by
  rw [vfs_doadd_insert]
  refine holds_bind_run (get_run s) ?_
  split
  · exact holds_throw (.inl ⟨rfl, nofun⟩)
  rename_i hbad
  refine holds_bind_run (Vfs.alloc_run _ _) ?_
  generalize hadd : array_add s.knowndevs kd s.heap = res
  obtain ⟨r, heap⟩ := res
  cases r with
  | error e => exact holds_throw (.inl ⟨rfl, nofun⟩)
  | ok knowndevs => exact holds_of_run (modify_run _ _) (.inr ⟨rfl, (array_add_cases hadd).1, by simpa using hbad⟩)

theorem vfs_doadd_spec (dname : CStr) (mountable : Bool) (dev : Option Nat) (fs : Option Fs) (s : Vfs) :
    Holds (fun _ => True) (vfs_doadd dname mountable dev fs) s fun r t =>
      t.devs = s.devs ∧ r ≠ .ok () ∨ r = .ok () ∧ ∃ vnode,
        let kd : Knowndev := ⟨dname, if mountable then some (mkrawname dname) else none, dev, vnode, fs⟩
        t.devs = s.devs ++ [kd] ∧ badnames s.devs (some kd.kd_name) kd.kd_rawname kd.volname = false := by
  rw [vfs_doadd]
  refine holds_bind_run (Vfs.alloc_run _ _) ?_
  split
  rotate_left
  · exact holds_throw (.inl ⟨rfl, nofun⟩)
  have hraw : ∃ ok heap, vfs_doadd_rawname mountable { s with heap := (kmalloc s.heap).2 } =
      .ok (.ok ok, { s with heap := heap }) := by
    cases mountable
    · exact ⟨_, _, rfl⟩
    · exact ⟨_, _, rfl⟩
  obtain ⟨ok, heap, hraw⟩ := hraw
  refine holds_bind_run hraw ?_
  split
  rotate_left
  · exact holds_throw (.inl ⟨rfl, nofun⟩)
  refine (dev_create_vnode_spec _).bind ?_ fun _ _ ht => .inl ⟨ht, nofun⟩
  intro vnode t ht
  have ht : t.devs = s.devs := ht
  cases vnode with
  | none => exact holds_throw (.inl ⟨ht, nofun⟩)
  | some vnode =>
    refine holds_bind_run (Vfs.alloc_run _ _) ?_
    split
    rotate_left
    · exact holds_throw (.inl ⟨ht, nofun⟩)
    refine (vfs_doadd_insert_spec _ _).imp ?_
    rintro r u (⟨hu, hr⟩ | ⟨rfl, hu, hbad⟩)
    · exact .inl ⟨hu.trans ht, hr⟩
    · exact .inr ⟨rfl, vnode, hu.trans (congrArg (· ++ [_]) ht), ht ▸ hbad⟩

theorem findmount_some {a : KArray Knowndev} {devname : CStr} {i : Fin a.num} (h : findmount a devname = some i) :
    (array_getguy a i).kd_rawname ≠ none ∧ (array_getguy a i).kd_name = devname := by
  have := List.find?_some h
  simp only [decide_eq_true_eq] at this
  exact ⟨this.1, this.2.symm⟩

def vfs_mount_volname (s : Vfs) (devname : CStr) (mountfunc : Nat → Except Errno Fs) : Option CStr :=
  match findmount s.knowndevs devname with
  | none => none
  | some i =>
    match (array_getguy s.knowndevs i).kd_fs, (array_getguy s.knowndevs i).kd_device with
    | none, some dev => (mountfunc dev).toOption.bind Fs.volname
    | _, _ => none

inductive VfsMoves (s : Vfs) : VfsOp → Vfs → List VfsEvent → Prop where
  | stay {op : VfsOp} {t : Vfs} (hdevs : t.devs = s.devs) : VfsMoves s op t []
  | adddev {n : CStr} {dev vnode : Nat} {mountable : Bool} {t : Vfs}
      (hdevs : t.devs = s.devs ++
        [⟨n, if mountable then some (mkrawname n) else none, some dev, vnode, none⟩])
      (hbad : badnames s.devs (some n) (if mountable then some (mkrawname n) else none) none = false) :
      VfsMoves s (.adddev n dev mountable) t [.added dev]
  | addfs {n : CStr} {fs : Fs} {vnode : Nat} {t : Vfs}
      (hdevs : t.devs = s.devs ++ [⟨n, none, none, vnode, some fs⟩])
      (hbad : badnames s.devs (some n) none fs.volname = false) : VfsMoves s (.addfs n fs) t []
  | mount {n : CStr} {f : Nat → Except Errno Fs} {i : Nat} {kd : Knowndev} {fs : Fs} {t : Vfs}
      (hi : s.devs[i]? = some kd) (hraw : kd.kd_rawname ≠ none) (hname : kd.kd_name = n) (hfs : kd.kd_fs = none)
      (hvol : vfs_mount_volname s n f = fs.volname) (hdevs : t.devs = s.devs.set i { kd with kd_fs := some fs }) :
      VfsMoves s (.mount n f) t [.mounted n]
  | unmount {n : CStr} {sync drop : Except Errno Unit} {i : Nat} {kd : Knowndev} {t : Vfs}
      (hi : s.devs[i]? = some kd) (hraw : kd.kd_rawname ≠ none) (hname : kd.kd_name = n) (hfs : kd.kd_fs ≠ none)
      (hdevs : t.devs = s.devs.set i { kd with kd_fs := none }) : VfsMoves s (.unmount n sync drop) t [.unmounted n]

theorem getguy_devs (s : Vfs) (i : Fin s.knowndevs.num) : s.devs[i.val]? = some (array_getguy s.knowndevs i) := by
  rw [Vfs.devs, KArray.getElem?_toList, if_pos i.isLt]
  rfl

theorem vfs_mount_spec (n : CStr) (f : Nat → Except Errno Fs) (s : Vfs) :
    Holds (fun _ => True) (vfs_mount n f) s fun r t =>
      t.devs = s.devs ∧ (∀ name, r ≠ .ok name) ∨ r = .ok n ∧ VfsMoves s (.mount n f) t [.mounted n] := by
  rw [vfs_mount]
  refine holds_bind_run (get_run s) ?_
  cases hfind : findmount s.knowndevs n with
  | none => exact holds_throw (.inl ⟨rfl, (by simp)⟩)
  | some i =>
    obtain ⟨hraw, hname⟩ := findmount_some hfind
    dsimp only
    split
    · exact holds_throw (.inl ⟨rfl, (by simp)⟩)
    rename_i hfs
    rw [not_not] at hfs
    refine holds_ensure_bind (.inl hraw) fun _ => ?_
    cases hdev : (array_getguy s.knowndevs i).kd_device with
    | none => exact holds_stop trivial
    | some dev =>
      dsimp only
      cases hmount : f dev with
      | error e => exact holds_throw (.inl ⟨rfl, (by simp)⟩)
      | ok fs =>
        refine holds_bind_run (set_run _ _) (holds_pure (.inr ⟨by rw [hname], ?_⟩))
        refine .mount (getguy_devs s i) hraw hname hfs ?_ (by rw [hdev]; exact array_setguy_toList _ _ _)
        rw [vfs_mount_volname, hfind]
        simp only [hfs, hdev, hmount]
        rfl

theorem vfs_unmount_spec (n : CStr) (sync drop : Except Errno Unit) (s : Vfs) :
    Holds (fun _ => True) (vfs_unmount n sync drop) s fun r t =>
      t.devs = s.devs ∧ (∀ name, r ≠ .ok name) ∨ r = .ok n ∧ VfsMoves s (.unmount n sync drop) t [.unmounted n] := by
  rw [vfs_unmount]
  refine holds_bind_run (get_run s) ?_
  cases hfind : findmount s.knowndevs n with
  | none => exact holds_throw (.inl ⟨rfl, (by simp)⟩)
  | some i =>
    obtain ⟨hraw, hname⟩ := findmount_some hfind
    dsimp only
    split
    · exact holds_throw (.inl ⟨rfl, (by simp)⟩)
    rename_i hfs
    refine holds_ensure_bind (.inl hraw) fun _ => holds_ensure_bind (.inr trivial) fun _ => ?_
    cases sync with
    | error e => exact holds_of_run (bind_error (finish_run _ _)) (.inl ⟨rfl, (by simp)⟩)
    | ok =>
      refine holds_bind_run (finish_run _ _) ?_
      cases drop with
      | error e => exact holds_of_run (bind_error (finish_run _ _)) (.inl ⟨rfl, (by simp)⟩)
      | ok =>
        refine holds_bind_run (finish_run _ _) (holds_bind_run (set_run _ _) (holds_pure (.inr ⟨by rw [hname], ?_⟩)))
        exact .unmount (getguy_devs s i) hraw hname hfs (array_setguy_toList _ _ _)

theorem vfslist_moves {op : VfsOp} {es : List VfsEvent} (h : vfslist.step s op = .ok (t, es)) :
    VfsMoves s op t es := by
  have hspec : Holds (fun _ => True) op.exec s fun r t =>
      match r with
      | .ok es => VfsMoves s op t es
      | .error _ => t.devs = s.devs := by
    cases op with
    | adddev n dev mountable =>
      refine (vfs_doadd_spec n mountable (some dev) none s).bind ?_ ?_
      · rintro ⟨⟩ t (⟨-, hr⟩ | ⟨-, vnode, hdevs, hbad⟩)
        · exact absurd rfl hr
        · exact holds_pure (.adddev hdevs hbad)
      · rintro e t (⟨hdevs, -⟩ | ⟨hr, -⟩)
        · exact hdevs
        · cases hr
    | addfs n fs =>
      refine (vfs_doadd_spec n false none (some fs) s).bind ?_ ?_
      · rintro ⟨⟩ t (⟨-, hr⟩ | ⟨-, vnode, hdevs, hbad⟩)
        · exact absurd rfl hr
        · exact holds_pure (.addfs hdevs hbad)
      · rintro e t (⟨hdevs, -⟩ | ⟨hr, -⟩)
        · exact hdevs
        · cases hr
    | mount n f =>
      refine (vfs_mount_spec n f s).bind ?_ ?_
      · rintro name t (⟨-, hr⟩ | ⟨hr, hm⟩)
        · exact absurd rfl (hr name)
        · cases hr; exact holds_pure hm
      · rintro e t (⟨hdevs, -⟩ | ⟨hr, -⟩)
        · exact hdevs
        · cases hr
    | unmount n sync drop =>
      refine (vfs_unmount_spec n sync drop s).bind ?_ ?_
      · rintro name t (⟨-, hr⟩ | ⟨hr, hm⟩)
        · exact absurd rfl (hr name)
        · cases hr; exact holds_pure hm
      · rintro e t (⟨hdevs, -⟩ | ⟨hr, -⟩)
        · exact hdevs
        · cases hr
  simp only [vfslist] at h
  split at h
  · rename_i hr
    cases h
    exact hspec.post hr
  · rename_i hr
    cases h
    exact .stay (hspec.post hr)
  · cases h

end Specs

end Os161
