import Os161.Lib.Lts
import Os161.Sfs.Reach
import Os161.Vfs.Path

/-! # What the entries of a directory name

As long as no link is made to the root of a volume, every entry names a file. The calls are free to
use vnodes that are gone: the machine then stops.
-/

namespace Os161

open Prog

/-! ## Calls on one volume -/

structure Sfs.Plain (s : Sfs) : Prop where
  inv : Inv 0 s
  root : ∀ k, s.named k ≠ some SFS_ROOT_LOCATION

section Volume

variable {α : Type} {s : Sfs} {i : Nat} {v : Vnode} {m : Prog Panic Errno Sfs α} {Q : Except Errno α → Sfs → Prop}

def Panic.Other (p : Panic) : Prop := p ≠ .rename_type

theorem Panic.Refs.other {p : Panic} (h : p.Refs) : p.Other := h.2

theorem Sfs.Plain.since (h : s.Plain) : Since ⟨False, True⟩ s 0 s := ⟨h.inv, .refl s⟩

theorem Sfs.Plain.of_since {t : Sfs} (h : s.Plain) (ht : Since ⟨False, True⟩ s 0 t) : t.Plain := by
  refine ⟨ht.toInv, fun k hk => ?_⟩
  rcases ht.change.named ⟨k, hk⟩ with hf | ⟨k', hk'⟩
  · exact hf
  · exact h.root k' hk'

theorem Sfs.Plain.keeps (h : s.Plain) (hm : Holds Panic.Refs m s (Kept ⟨False, True⟩ s)) :
    Holds Panic.Other m s fun _ t => t.Plain :=
  hm.mono (fun _ _ ht => h.of_since ht) fun _ hp => hp.other

def Reads (i : Nat) (m : Prog Panic Errno Sfs α) : Prop := ∀ s, s.vnodes i = none → m s = .error .vnode_freed

theorem reads_getv (i : Nat) : Reads i (getv i) := by
  intro s hs
  rw [getv, bind_ok (get_run s), hs]
  rfl

theorem Reads.bind {β : Type} {f : α → Prog Panic Errno Sfs β} (h : Reads i m) : Reads i (m >>= f) := by
  intro s hs
  rw [bind_run, h s hs]

theorem Reads.holds_of {X : Panic → Prop} (hx : X .vnode_freed) (hm : Reads i m)
    (h : ∀ v, s.vnodes i = some v → Holds X m s Q) : Holds X m s Q := by
  cases hv : s.vnodes i with
  | some v => exact h v hv
  | none => exact .panic (hm s hv) hx

theorem Reads.holds (hm : Reads i m) (h : ∀ v, s.vnodes i = some v → Holds Panic.Other m s Q) :
    Holds Panic.Other m s Q :=
  hm.holds_of nofun h

theorem reads_check (i : Nat) (reclaim : Bool) : Reads i (vnode_check i reclaim) := (reads_getv i).bind

theorem getv_plain (i : Nat) :
    Holds Panic.Other (getv i) s fun r t => t = s ∧ ∃ v, r = .ok v ∧ s.vnodes i = some v :=
  (reads_getv i).holds fun v hv => holds_of_run (getv_run hv) ⟨rfl, v, rfl, hv⟩

theorem vop_ops_spec {X : Panic → Prop} (hx : X .vnode_freed ∧ X .vnode_check) (h : Inv 0 s) (i : Nat) :
    Holds X (vop_ops i) s fun r t => t = s ∧ r = .ok (opsOf i) ∧ ∃ v, s.vnodes i = some v := by
  rw [vop_ops]
  refine (reads_check i false).bind.holds_of hx.1 fun v hv => vnode_check_bind hx.2 hv false ?_
  refine holds_bind_run (getv_run hv) (holds_pure ⟨rfl, ?_, v, hv⟩)
  rw [h.ops i v hv]

theorem vop_ops_plain (h : s.Plain) (i : Nat) : Holds Panic.Other (vop_ops i) s fun _ t => t = s :=
  (vop_ops_spec ⟨nofun, nofun⟩ h.inv i).imp fun _ _ ht => ht.1

theorem modv_plain {f : Vnode → Vnode} (h : s.Plain) (i : Nat)
    (hf : ∀ v, (f v).vn_ops = v.vn_ops ∧ (f v).sv_i = v.sv_i ∧ (f v).sv_dirty = v.sv_dirty) :
    Holds Panic.Other (modv i f) s fun _ t => t.Plain :=
  (reads_getv i).bind.holds fun v hv =>
    holds_of_run (modv_run hv f) (h.of_since (h.since.set_refs hv (hf v).1 (hf v).2.1 (hf v).2.2))

theorem vnode_decref_plain (h : s.Plain) (i : Nat) : Holds Panic.Other (vnode_decref i) s fun _ t => t.Plain :=
  (reads_getv i).bind.holds fun _ hv => h.keeps (vnode_decref_spec h.since hv)

theorem vnode_decopen_plain (h : s.Plain) (i : Nat) : Holds Panic.Other (vnode_decopen i) s fun _ t => t.Plain :=
  (reads_getv i).bind.holds fun _ hv => h.keeps (vnode_decopen_spec h.since hv)

theorem VOP_TRUNCATE_plain (h : s.Plain) (i : Nat) (len : Int) :
    Holds Panic.Other (VOP_TRUNCATE i len) s fun _ t => t.Plain :=
  (reads_check i false).bind.holds fun _ hv => h.keeps (VOP_TRUNCATE_spec h.since hv len)

theorem sfs_lookparent_plain (h : s.Plain) (i : Nat) (path : CStr) (buflen : Nat) :
    Holds Panic.Other (sfs_lookparent i path buflen) s fun _ t => t.Plain := by
  rw [sfs_lookparent]
  refine (reads_getv i).bind.holds fun v hv => holds_bind_run (getv_run hv) ?_
  split
  · exact holds_throw h
  split
  · exact holds_throw h
  · have hinc : Holds Panic.Other (vnode_incref i) s fun _ t => t.Plain := modv_plain h i fun _ => ⟨rfl, rfl, rfl⟩
    exact hinc.bind (fun _ _ ht => holds_pure ht) fun _ _ ht => ht

theorem sfs_rename_plain (h : s.Plain) (hv : s.vnodes SFS_ROOT_LOCATION = some v) (n1 n2 : CStr) :
    Holds Panic.Other (sfs_rename SFS_ROOT_LOCATION n1 n2) s fun _ t => t.Plain := by
  refine (sfs_rename_spec h.since hv (fun _ hp => hp.other) ?_).imp fun _ _ ht => h.of_since ht
  rintro ⟨k, hk⟩
  exact absurd hk (h.root k)

end Volume

/-! ## Calls on paths -/

def Mounts.Plain (w : Mounts) : Prop := ∀ fs, (w.vol fs).Plain

def PathPanic.Other (p : PathPanic) : Prop := p ≠ .fs .rename_type

def Calm {α : Type} (m : PathProg α) : Prop :=
  ∀ w : Mounts, w.Plain → Holds PathPanic.Other m w fun _ w' => w'.Plain

section Calm

variable {α β : Type} {m : PathProg α} {w : Mounts} {fs : Nat} {v : VnodePtr}

theorem calm_pure (a : α) : Calm (pure a : PathProg α) := fun _ hw => holds_pure hw

theorem calm_throw (e : Errno) : Calm (throw e : PathProg α) := fun _ hw => holds_throw hw

theorem calm_finish (r : Except Errno α) : Calm (finish r : PathProg α) := fun _ hw => .done rfl hw

theorem calm_stop {p : PathPanic} (hp : p.Other) : Calm (stop p : PathProg α) := fun _ _ => holds_stop hp

theorem Calm.bind {f : α → PathProg β} (hm : Calm m) (hf : ∀ a, Calm (f a)) : Calm (m >>= f) := fun w hw =>
  (hm w hw).bind (fun a w' hw' => hf a w' hw') fun _ _ hw' => hw'

theorem Calm.attempt (hm : Calm m) : Calm (attempt m) := fun w hw => (hm w hw).attempt fun _ _ hw' => hw'

theorem calm_get_bind {f : Mounts → PathProg β} (hf : ∀ w', Calm (f w')) : Calm (get >>= f) := fun w hw =>
  holds_bind_run (get_run w) (hf w w hw)

theorem Mounts.Plain.update {s : Sfs} (hw : w.Plain) (hs : s.Plain) :
    Mounts.Plain { w with vol := Function.update w.vol fs s } := by
  intro k
  by_cases hk : k = fs
  · subst hk
    simpa using hs
  · simpa [hk] using hw k

theorem holds_onVol_of {X : Panic → Prop} {Y : PathPanic → Prop} {m : Prog Panic Errno Sfs α}
    {Q : Except Errno α → Sfs → Prop} {P : Except Errno α → Mounts → Prop} (hXY : ∀ p, X p → Y (.fs p))
    (h : Holds X m (w.vol fs) Q) (hP : ∀ r s, Q r s → P r { w with vol := Function.update w.vol fs s }) :
    Holds Y (onVol fs m) w P := by
  cases h with
  | done run post => exact .done (by rw [onVol, run]) (hP _ _ post)
  | @panic p run allowed => exact .panic (p := .fs p) (by rw [onVol, run]) (hXY p allowed)

theorem holds_onVol {m : Prog Panic Errno Sfs α} {Q : Except Errno α → Sfs → Prop} {P : Except Errno α → Mounts → Prop}
    (h : Holds Panic.Other m (w.vol fs) Q)
    (hP : ∀ r s, Q r s → P r { w with vol := Function.update w.vol fs s }) :
    Holds PathPanic.Other (onVol fs m) w P :=
  holds_onVol_of (fun _ hp he => hp (PathPanic.fs.inj he)) h hP

theorem calm_onVol {m : Prog Panic Errno Sfs α}
    (h : ∀ s : Sfs, s.Plain → Holds Panic.Other m s fun _ t => t.Plain) : Calm (onVol fs m) := fun _ hw =>
  holds_onVol (h _ (hw fs)) fun _ _ hs => hw.update hs

theorem update_vol_self (w : Mounts) (fs : Nat) : { w with vol := Function.update w.vol fs (w.vol fs) } = w := by
  rw [Function.update_eq_self]

theorem calm_countop {m : Nat → Prog Panic Errno Sfs Unit}
    (h : ∀ (s : Sfs) (i : Nat), s.Plain → Holds Panic.Other (m i) s fun _ t => t.Plain) : Calm (countop v m) := by
  cases v with
  | dev n => exact calm_pure ()
  | sfs fs ino => exact calm_onVol fun s hs => h s ino hs

theorem calm_incref (v : VnodePtr) : Calm (VOP_INCREF v) :=
  calm_countop fun _ i hs => modv_plain hs i fun _ => ⟨rfl, rfl, rfl⟩

theorem calm_decref (v : VnodePtr) : Calm (VOP_DECREF v) := calm_countop fun _ i hs => vnode_decref_plain hs i

theorem calm_incopen (v : VnodePtr) : Calm (VOP_INCOPEN v) :=
  calm_countop fun _ i hs => modv_plain hs i fun _ => ⟨rfl, rfl, rfl⟩

theorem calm_decopen (v : VnodePtr) : Calm (VOP_DECOPEN v) := calm_countop fun _ i hs => vnode_decopen_plain hs i

theorem holds_dirop_of {Y : PathPanic → Prop} {m : Nat → Nat → PathProg α} {Q : Except Errno α → Mounts → Prop}
    (hY : Y (.fs .vnode_freed) ∧ Y (.fs .vnode_check)) (hw : ∀ fs, Inv 0 (w.vol fs)) (herr : Q (.error .ENOTDIR) w)
    (h : ∀ fs u, v = .sfs fs SFS_ROOT_LOCATION → (w.vol fs).vnodes SFS_ROOT_LOCATION = some u →
      Holds Y (m fs SFS_ROOT_LOCATION) w Q) : Holds Y (dirop v m) w Q := by
  cases v with
  | dev n => exact holds_throw herr
  | sfs fs ino =>
    rw [dirop]
    refine Holds.bind (Q := fun r w' => w' = w ∧ r = .ok (opsOf ino) ∧ ∃ u, (w.vol fs).vnodes ino = some u) ?_ ?_ ?_
    · refine holds_onVol_of (fun _ hp => hp) (vop_ops_spec (X := fun p => Y (.fs p)) hY (hw fs) ino) ?_
      rintro r s ⟨rfl, hr⟩
      exact ⟨update_vol_self w fs, hr⟩
    · rintro ops w' ⟨rfl, hr, u, hu⟩
      obtain rfl := Except.ok.inj hr
      by_cases hi : ino = SFS_ROOT_LOCATION
      · subst hi
        exact h fs u rfl hu
      · rw [opsOf, if_neg hi]
        exact holds_throw herr
    · rintro e w' ⟨-, hr, -⟩
      cases hr

theorem holds_dirop {m : Nat → Nat → PathProg α} (hw : w.Plain)
    (h : ∀ fs u, v = .sfs fs SFS_ROOT_LOCATION → (w.vol fs).vnodes SFS_ROOT_LOCATION = some u →
      Holds PathPanic.Other (m fs SFS_ROOT_LOCATION) w fun _ w' => w'.Plain) :
    Holds PathPanic.Other (dirop v m) w fun _ w' => w'.Plain :=
  holds_dirop_of ⟨nofun, nofun⟩ (fun fs => (hw fs).inv) hw h

theorem calm_dirop {β : Type} {m : Nat → Prog Panic Errno Sfs β} {f : Nat → Nat → β → PathProg α}
    (hm : ∀ (s : Sfs) (u : Vnode), s.Plain → s.vnodes SFS_ROOT_LOCATION = some u →
      Holds Panic.Other (m SFS_ROOT_LOCATION) s fun _ t => t.Plain) (hf : ∀ fs ino b, Calm (f fs ino b)) :
    Calm (dirop v fun fs ino => onVol fs (m ino) >>= f fs ino) := fun _ hw =>
  holds_dirop hw fun fs u _ hu =>
    (holds_onVol (P := fun _ w' => w'.Plain) (hm _ u (hw fs) hu) fun _ _ hs => hw.update hs).bind
      (fun b w' hw' => hf fs _ b w' hw') fun _ _ hw' => hw'

theorem calm_lookup (v : VnodePtr) (path : CStr) : Calm (VOP_LOOKUP v path) := by
  cases v with
  | dev n =>
    rw [VOP_LOOKUP, dev_lookup]
    split
    · exact calm_throw _
    · exact (calm_incref _).bind fun _ => calm_pure _
  | sfs fs ino =>
    rw [VOP_LOOKUP]
    exact calm_dirop (m := fun ino => sfs_lookup ino path)
      (fun _ _ hs hu => hs.keeps (sfs_lookup_spec hs.since hu)) fun _ _ _ => calm_pure _

theorem calm_lookparent (v : VnodePtr) (path : CStr) (buflen : Nat) : Calm (VOP_LOOKPARENT v path buflen) :=
  calm_dirop (m := fun ino => sfs_lookparent ino path buflen) (fun _ _ hs _ => sfs_lookparent_plain hs _ path buflen) fun _ _ _ => calm_pure _

theorem calm_creat (dir : VnodePtr) (name : CStr) (excl : Bool) : Calm (VOP_CREAT dir name excl) :=
  calm_dirop (m := fun ino => sfs_creat ino name excl)
    (fun _ _ hs hu => hs.keeps (sfs_creat_spec hs.since hu excl fun _ => trivial)) fun _ _ _ => calm_pure _

theorem calm_remove (dir : VnodePtr) (name : CStr) : Calm (VOP_REMOVE dir name) := fun _ hw =>
  holds_dirop hw fun fs _ _ hu =>
    holds_onVol ((hw fs).keeps (sfs_remove_spec (hw fs).since hu)) fun _ _ hs => hw.update hs

theorem calm_rename (d1 : VnodePtr) (n1 : CStr) (d2 : VnodePtr) (n2 : CStr) : Calm (VOP_RENAME d1 n1 d2 n2) :=
  fun _ hw => holds_dirop hw fun fs _ _ hu =>
    holds_ensure_bind (.inr nofun) fun _ => holds_onVol (sfs_rename_plain (hw fs) hu n1 n2) fun _ _ hs => hw.update hs

def VnodePtr.isRoot : VnodePtr → Bool
  | .dev _ => false
  | .sfs _ ino => ino = SFS_ROOT_LOCATION

def VnodePtr.Loaded (w : Mounts) : VnodePtr → Prop
  | .dev _ => True
  | .sfs fs ino => ∃ u, (w.vol fs).vnodes ino = some u

theorem holds_link {file : VnodePtr} (hw : w.Plain) (hfile : file.Loaded w) (hroot : file.isRoot = false)
    (dir : VnodePtr) (name : CStr) : Holds PathPanic.Other (VOP_LINK dir name file) w fun _ w' => w'.Plain := by
  refine holds_dirop hw fun fs u _ hu => ?_
  cases file with
  | dev n => exact holds_stop nofun
  | sfs fs' f =>
    refine holds_ensure_bind (.inr nofun) fun hfs => ?_
    subst hfs
    obtain ⟨u', hu'⟩ := hfile
    have hne : f ≠ SFS_ROOT_LOCATION := of_decide_eq_false hroot
    exact holds_onVol ((hw fs').keeps (sfs_link_spec (hw fs').since hu hu' fun hf => absurd hf hne))
      fun _ _ hs => hw.update hs

theorem calm_open (v : VnodePtr) (openflags : UInt32) : Calm (VOP_OPEN v openflags) := by
  cases v with
  | dev n =>
    refine calm_get_bind fun w => ?_
    split
    · exact calm_throw _
    · split
      · exact calm_throw _
      · exact calm_pure ()
  | sfs fs ino =>
    refine (calm_onVol fun s hs => (vop_ops_plain hs ino).imp fun _ _ ht => ht ▸ hs).bind fun ops => ?_
    cases ops with
    | fileops =>
      dsimp only [sfs_open]
      split
      · exact calm_throw _
      · exact calm_pure ()
    | dirops =>
      dsimp only [sfs_opendir]
      split
      · exact calm_throw _
      · split
        · exact calm_throw _
        · exact calm_pure ()

theorem calm_truncate (v : VnodePtr) (len : Int) : Calm (VOP_TRUNCATE_any v len) := by
  cases v with
  | dev n =>
    refine calm_get_bind fun w => ?_
    dsimp only
    split
    · exact calm_pure ()
    · exact calm_throw _
  | sfs fs ino => exact calm_onVol fun s hs => VOP_TRUNCATE_plain hs ino len

theorem holds_vn_fs (w : Mounts) (v : VnodePtr) :
    Holds PathPanic.Other (vn_fs v) w fun _ w' => w' = w ∧ v.Loaded w := by
  cases v with
  | dev n => exact holds_pure ⟨rfl, trivial⟩
  | sfs fs ino =>
    refine Holds.bind (Q := fun _ w' => w' = w ∧ VnodePtr.Loaded w (.sfs fs ino)) ?_
      (fun _ _ ht => holds_pure ht) fun _ _ ht => ht
    refine holds_onVol (getv_plain ino) ?_
    rintro r s ⟨rfl, u, -, hu⟩
    exact ⟨update_vol_self w fs, u, hu⟩

theorem calm_isdir (v : VnodePtr) : Calm (vop_isdir v) := by
  cases v with
  | dev n => exact calm_pure false
  | sfs fs ino =>
    refine (calm_onVol fun s hs => (vop_ops_plain hs ino).imp fun _ _ ht => ht ▸ hs).bind fun _ => ?_
    refine (calm_onVol fun s hs => (getv_plain ino).imp fun _ _ ht => ht.1 ▸ hs).bind fun sv => ?_
    split
    · exact calm_pure false
    · split
      · exact calm_pure true
      · exact calm_stop nofun

/-! ## The functions -/

theorem calm_getcurdir : Calm vfs_getcurdir := by
  refine calm_get_bind fun w => ?_
  split
  · exact (calm_incref _).bind fun _ => calm_pure _
  · exact calm_throw _

theorem calm_drop (old : Option VnodePtr) : Calm (vop_drop old) := by
  cases old with
  | some v => exact calm_decref v
  | none => exact calm_pure ()

theorem calm_setcurdir (dir : VnodePtr) : Calm (vfs_setcurdir dir) := by
  refine (calm_isdir dir).bind fun b => ?_
  split
  · refine (calm_incref dir).bind fun _ w hw => holds_bind_run (get_run w) ?_
    exact holds_bind_run (set_run _ _) (calm_drop w.t_cwd _ hw)
  · exact calm_throw _

theorem calm_clearcurdir : Calm vfs_clearcurdir := fun w hw =>
  holds_bind_run (get_run w) (holds_bind_run (set_run _ _) (calm_drop w.t_cwd _ hw))

theorem calm_change_bootfs (newguy : Option VnodePtr) : Calm (change_bootfs newguy) := fun w hw =>
  holds_bind_run (get_run w) (holds_bind_run (set_run _ _) (calm_drop w.bootfs_vnode _ hw))

theorem calm_getroot (fs : Nat) : Calm (FSOP_GETROOT fs) :=
  (calm_onVol fun _ hs => hs.keeps (sfs_getroot_spec hs.since)).bind fun _ => calm_pure _

theorem calm_getroot_ref (devname : CStr) : Calm (vfs_getroot_ref devname) := by
  refine calm_get_bind fun w => ?_
  split
  · exact calm_stop nofun
  · exact calm_throw _
  · exact calm_getroot _
  · exact (calm_incref _).bind fun _ => calm_pure _

theorem calm_getdevice_boot : Calm getdevice_boot := by
  refine calm_get_bind fun w => ?_
  split
  · exact (calm_incref _).bind fun _ => calm_pure _
  · exact calm_throw _

theorem calm_getdevice_root : Calm getdevice_root := by
  refine calm_getcurdir.bind fun vn w hw => ?_
  refine (holds_vn_fs w vn).bind ?_ ?_
  · rintro fs w' ⟨rfl, -⟩
    cases fs with
    | none => exact holds_stop nofun
    | some fs => exact (calm_getroot fs).bind (fun v => (calm_decref vn).bind fun _ => calm_pure v) w' hw
  · rintro e w' ⟨rfl, -⟩
    exact hw

theorem calm_getdevice (path : CStr) : Calm (getdevice path) := by
  have hret {m : PathProg VnodePtr} (hm : Calm m) (sub : CStr) :
      Calm (do return (sub, ← m) : PathProg (CStr × VnodePtr)) := hm.bind fun _ => calm_pure _
  rw [getdevice]
  split
  · exact hret calm_getcurdir _
  · split
    · exact hret calm_getdevice_boot _
    · exact hret calm_getdevice_root _
  · split
    · exact hret (calm_getroot_ref _) _
    · exact hret calm_getcurdir _

theorem calm_vfs_lookparent (path : CStr) (buflen : Nat) : Calm (vfs_lookparent path buflen) := by
  refine (calm_getdevice path).bind fun p => ?_
  refine Calm.bind (Calm.attempt ?_) fun r => (calm_decref _).bind fun _ => calm_finish r
  split
  · exact calm_throw _
  · exact calm_lookparent _ _ _

theorem calm_vfs_lookup (path : CStr) : Calm (vfs_lookup path) := by
  refine (calm_getdevice path).bind fun p => ?_
  dsimp only
  split
  · exact calm_pure _
  · exact (calm_lookup _ _).attempt.bind fun r => (calm_decref _).bind fun _ => calm_finish r

theorem calm_vfs_chdir (path : CStr) : Calm (vfs_chdir path) :=
  (calm_vfs_lookup path).bind fun vn => (calm_setcurdir vn).attempt.bind fun r =>
    (calm_decref vn).bind fun _ => calm_finish r

theorem calm_vfs_setbootfs (fsname : CStr) : Calm (vfs_setbootfs fsname) := by
  rw [vfs_setbootfs]
  split
  · exact calm_throw _
  · exact (calm_vfs_chdir _).bind fun _ => calm_getcurdir.bind fun v => calm_change_bootfs (some v)

theorem calm_vfs_open_vnode (path : CStr) (openflags : UInt32) : Calm (vfs_open_vnode path openflags) := by
  rw [vfs_open_vnode]
  split
  · exact (calm_vfs_lookparent _ _).bind fun p => (calm_creat _ _ _).attempt.bind fun r =>
      (calm_decref _).bind fun _ => calm_finish r
  · exact calm_vfs_lookup path

theorem calm_vfs_open_trunc (vn : VnodePtr) (openflags : UInt32) : Calm (vfs_open_trunc vn openflags) := by
  rw [vfs_open_trunc]
  split
  · split
    · exact calm_throw _
    · exact calm_truncate vn 0
  · exact calm_pure ()

theorem calm_vfs_open (path : CStr) (openflags : UInt32) : Calm (vfs_open path openflags) := by
  rw [vfs_open]
  split
  · exact calm_throw _
  refine (calm_vfs_open_vnode path openflags).bind fun vn => (calm_open vn openflags).attempt.bind fun r => ?_
  cases r with
  | error e => exact (calm_decref vn).bind fun _ => calm_throw e
  | ok =>
    refine (calm_incopen vn).bind fun _ => (calm_vfs_open_trunc vn openflags).attempt.bind fun r => ?_
    cases r with
    | error e => exact (calm_decopen vn).bind fun _ => (calm_decref vn).bind fun _ => calm_throw e
    | ok => exact calm_pure vn

theorem calm_vfs_remove (path : CStr) : Calm (vfs_remove path) :=
  (calm_vfs_lookparent _ _).bind fun p => (calm_remove p.1 p.2).attempt.bind fun r =>
    (calm_decref p.1).bind fun _ => calm_finish r

theorem holds_onefs {vn dir : VnodePtr} {call : PathProg Unit} (hw : w.Plain)
    (hcall : vn.Loaded w → Holds PathPanic.Other call w fun _ w' => w'.Plain) :
    Holds PathPanic.Other (vfs_onefs vn dir call) w fun _ w' => w'.Plain := by
  refine (holds_vn_fs w vn).bind ?_ (by rintro e w' ⟨rfl, -⟩; exact hw)
  rintro fs w' ⟨rfl, hvn⟩
  refine (holds_vn_fs w' dir).bind ?_ (by rintro e w'' ⟨rfl, -⟩; exact hw)
  rintro fs' w'' ⟨rfl, -⟩
  refine Holds.bind_attempt (Q := fun _ w' => w'.Plain) ?_ fun r w' hw' => ?_
  · split
    · exact holds_throw hw
    · exact hcall hvn
  · exact (calm_decref dir).bind (fun _ => (calm_decref vn).bind fun _ => calm_finish r) w' hw'

theorem calm_vfs_rename (oldpath newpath : CStr) : Calm (vfs_rename oldpath newpath) := by
  refine (calm_vfs_lookparent _ _).bind fun p => (calm_vfs_lookparent _ _).attempt.bind fun r => ?_
  cases r with
  | error e => exact (calm_decref p.1).bind fun _ => calm_throw e
  | ok q => exact fun w hw => holds_onefs hw fun _ => calm_rename _ _ _ _ w hw

end Calm

/-! ## Runs -/

def PathCall.linksRoot (w : Mounts) : PathCall → Bool
  | .link oldpath _ =>
    match vfs_lookup oldpath w with
    | .ok (.ok oldfile, _) => oldfile.isRoot
    | _ => false
  | _ => false

theorem vfs_link_plain {w : Mounts} {oldpath newpath : CStr} (hw : w.Plain)
    (hroot : (PathCall.link oldpath newpath).linksRoot w = false) :
    Holds PathPanic.Other (vfs_link oldpath newpath) w fun _ w' => w'.Plain := by
  rw [PathCall.linksRoot] at hroot
  have hlookup : Holds PathPanic.Other (vfs_lookup oldpath) w fun r w' => w'.Plain ∧
      ∀ oldfile, r = .ok oldfile → oldfile.isRoot = false := by
    cases calm_vfs_lookup oldpath w hw with
    | panic run allowed => exact .panic run allowed
    | @done r w' run post =>
      refine .done run ⟨post, fun oldfile hr => ?_⟩
      rw [run, hr] at hroot
      exact hroot
  refine hlookup.bind ?_ fun _ _ ht => ht.1
  rintro oldfile w₁ ⟨hw₁, hold⟩
  refine Holds.bind_attempt (calm_vfs_lookparent newpath (NAME_MAX + 1) w₁ hw₁) fun r w₂ hw₂ => ?_
  cases r with
  | error e => exact (calm_decref oldfile).bind (fun _ => calm_throw e) w₂ hw₂
  | ok p => exact holds_onefs hw₂ fun hl => holds_link hw₂ hl (hold oldfile rfl) p.1 p.2

theorem PathCall.exec_plain {w : Mounts} {c : PathCall} (hw : w.Plain) (hroot : c.linksRoot w = false) :
    Holds PathPanic.Other c.exec w fun _ w' => w'.Plain := by
  cases c with
  | «open» path openflags => exact (calm_vfs_open path openflags).bind (fun _ => calm_pure ()) w hw
  | close vn => exact (calm_decopen vn).bind (fun _ => calm_decref vn) w hw
  | remove path => exact calm_vfs_remove path w hw
  | rename oldpath newpath => exact calm_vfs_rename oldpath newpath w hw
  | link oldpath newpath => exact vfs_link_plain hw hroot
  | chdir path => exact calm_vfs_chdir path w hw
  | clearcurdir => exact calm_clearcurdir w hw
  | setbootfs fsname => exact calm_vfs_setbootfs fsname w hw
  | clearbootfs => exact calm_change_bootfs none w hw

def vfsCalls : Machine Mounts PathCall Empty PathPanic where
  init w := (∀ fs, ∃ volname d heap, d.Works ∧ bootVolume volname d heap = some (w.vol fs)) ∧
    w.t_cwd = none ∧ w.bootfs_vnode = none
  step w c :=
    match c.exec w with
    | .ok (_, w') => .ok (w', [])
    | .error p => .error p

theorem step_plain {w : Mounts} {c : PathCall} (hw : w.Plain) (hroot : c.linksRoot w = false) :
    (∀ w' es, vfsCalls.step w c = .ok (w', es) → w'.Plain) ∧ vfsCalls.step w c ≠ .error (.fs .rename_type) := by
  simp only [vfsCalls]
  cases PathCall.exec_plain hw hroot with
  | done run post =>
    rw [run]
    refine ⟨fun w' es h => ?_, nofun⟩
    obtain ⟨rfl, -⟩ := Prod.mk.inj (Except.ok.inj h)
    exact post
  | panic run allowed =>
    rw [run]
    exact ⟨nofun, fun h => allowed (Except.error.inj h)⟩

theorem bootVolume_plain {volname : CStr} {d : Device} {heap : Heap} {s : Sfs} (hd : d.Works)
    (h : bootVolume volname d heap = some s) : s.Plain := by
  obtain ⟨d', hf, hd', hm⟩ := bootVolume_mounted hd h
  refine ⟨(hm.inv hf hd').1, fun k hk => ?_⟩
  rw [Sfs.named, hm.dirent hf] at hk
  cases hk

theorem reach_plain {w : Mounts} {tr : List Empty}
    (h : Machine.Reach vfsCalls (fun w c => c.linksRoot w = false) w tr) : w.Plain := by
  refine h.invariant (I := fun w _ => w.Plain) ?_ ?_
  · rintro w ⟨hvol, -⟩ fs
    obtain ⟨volname, d, heap, hd, hboot⟩ := hvol fs
    exact bootVolume_plain hd hboot
  · intro w w' c tr es _ hw hok hs
    exact (step_plain hw hok).1 w' es hs

/-- As long as no link is made to the root of a volume, every entry in use names a file, and
`sfs_rename` never finds anything else. -/
theorem entries_name_files {w : Mounts} {tr : List Empty}
    (h : Machine.Reach vfsCalls (fun w c => c.linksRoot w = false) w tr) :
    (∀ fs k i name, (w.vol fs).dirent k = some (i, name) → ((w.vol fs).inodeOf i).sfi_type = SFS_TYPE_FILE) ∧
      ∀ c : PathCall, c.linksRoot w = false → vfsCalls.step w c ≠ .error (.fs .rename_type) := by
  have hw := reach_plain h
  refine ⟨fun fs k i name hd => ?_, fun c hc => (step_plain hw hc).2⟩
  have hnamed : (w.vol fs).named k = some i := by rw [Sfs.named, hd]; rfl
  have hi : i ≠ SFS_ROOT_LOCATION := fun hi => (hw fs).root k (hi ▸ hnamed)
  rw [(hw fs).inv.type i (live_of_named hnamed), typeOf, if_neg hi]

/-! ## Two runs -/

def cpath (s : String) : CStr := .ofBytes (s.toList.map fun c => BitVec.ofNat 8 c.toNat)

def oneVolume : Option Mounts := do
  let s ← bootVolume (.ofBytes []) blankDisk []
  return ⟨[⟨cpath "lhd0", some (cpath "lhd0raw"), some 0, 0, some ⟨0, none⟩⟩], fun _ => ⟨fun _ => none, 4096, 512⟩,
    fun _ => s, none, none⟩

theorem oneVolume_init {w : Mounts} (h : oneVolume = some w) : vfsCalls.init w := by
  rw [oneVolume] at h
  obtain ⟨s, hboot, hw⟩ := Option.bind_eq_some_iff.mp h
  obtain rfl := Option.some.inj hw
  exact ⟨fun _ => ⟨.ofBytes [], blankDisk, [], blankDisk_works, hboot⟩, rfl, rfl⟩

theorem exists_calls (ok : Mounts → PathCall → Prop) [∀ w c, Decidable (ok w c)] (cs : List PathCall)
    (check : Mounts → Bool) (h : (oneVolume.bind fun w => vfsCalls.runOk ok cs (w, [])).any (check ·.1) = true) :
    ∃ w tr, Machine.Reach vfsCalls ok w tr ∧ check w = true := by
  cases hs : oneVolume with
  | none => rw [hs] at h; cases h
  | some w =>
    rw [hs] at h
    refine Machine.exists_runOk ok cs (check ·.1) ?_ h
    exact oneVolume_init hs

theorem entries_name_files_renamed :
    ∃ w tr, Machine.Reach vfsCalls (fun w c => c.linksRoot w = false) w tr ∧
      (w.vol 0).dirent 1 = some (3, [0x62]) ∧ (w.vol 0).dirent 2 = some (3, [0x63]) ∧
        ((w.vol 0).inodeOf 3).sfi_type = SFS_TYPE_FILE := by
  obtain ⟨w, tr, hr, hc⟩ := exists_calls (fun w c => c.linksRoot w = false)
    [.open (cpath "lhd0:a") (O_CREAT ||| O_WRONLY), .link (cpath "lhd0:/a") (cpath "lhd0:b"),
      .rename (cpath "lhd0:a") (cpath "lhd0:c")]
    (fun w => decide ((w.vol 0).dirent 1 = some (3, [0x62]) ∧ (w.vol 0).dirent 2 = some (3, [0x63])))
    (by decide +kernel)
  obtain ⟨hb, hc⟩ := of_decide_eq_true hc
  exact ⟨w, tr, hr, hb, hc, (entries_name_files hr).1 0 1 3 _ hb⟩

/-- `vfs_link` takes the bare name of the device, and `vfs_rename` of the new name stops the machine. -/
theorem link_of_root_renamed :
    ∃ w tr, Machine.Reach vfsCalls Machine.Any w tr ∧
      (w.vol 0).dirent 0 = some (SFS_ROOT_LOCATION, [0x78]) ∧
      ((w.vol 0).inodeOf SFS_ROOT_LOCATION).sfi_type ≠ SFS_TYPE_FILE ∧
      vfsCalls.step w (.rename (cpath "lhd0:x") (cpath "lhd0:y")) = .error (.fs .rename_type) := by
  obtain ⟨w, tr, hr, hc⟩ := exists_calls Machine.Any [.link (cpath "lhd0:") (cpath "lhd0:x")]
    (fun w => decide ((w.vol 0).dirent 0 = some (SFS_ROOT_LOCATION, [0x78]) ∧
      ((w.vol 0).inodeOf SFS_ROOT_LOCATION).sfi_type ≠ SFS_TYPE_FILE) &&
        match vfsCalls.step w (.rename (cpath "lhd0:x") (cpath "lhd0:y")) with
        | .error p => decide (p = .fs .rename_type)
        | .ok _ => false) (by decide +kernel)
  obtain ⟨hd, hs⟩ := Bool.and_eq_true_iff.mp hc
  obtain ⟨hd, ht⟩ := of_decide_eq_true hd
  refine ⟨w, tr, hr, hd, ht, ?_⟩
  split at hs
  · rename_i hstep
    rw [hstep, of_decide_eq_true hs]
  · cases hs

end Os161
