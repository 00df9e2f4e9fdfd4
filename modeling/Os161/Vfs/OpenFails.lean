import Mathlib.Data.Multiset.Count
import Os161.Sfs.Held
import Os161.Sfs.Rename
import Os161.Vfs.Entries

/-! # What a failed `vfs_open` leaves

The references that the call holds are a multiset of vnodes; when it fails it holds none.
-/

namespace Os161

open Prog Words

/-! ## References of a call -/

def Mounts.Borrowed (w₀ : Mounts) (m : Multiset VnodePtr) (w : Mounts) : Prop :=
  ∀ fs, Held (w₀.vol fs) (fun j => m.count (.sfs fs j)) (w.vol fs)

def Mounts.Borrows {α : Type} (w₀ : Mounts) (m : Multiset VnodePtr) (f : α → VnodePtr) (res : Except Errno α)
    (w : Mounts) : Prop :=
  (∀ e, res = .error e → w₀.Borrowed m w) ∧ ∀ a, res = .ok a → w₀.Borrowed (f a ::ₘ m) w

section Borrowed

variable {α β : Type} {w₀ w : Mounts} {m : Multiset VnodePtr} {fs i : Nat} {v : VnodePtr} {s : Sfs}

theorem count_sfs_cons (m : Multiset VnodePtr) (fs i : Nat) :
    (fun j => (VnodePtr.sfs fs i ::ₘ m).count (.sfs fs j)) =
      Function.update (fun j => m.count (.sfs fs j)) i (m.count (.sfs fs i) + 1) := by
  funext j
  by_cases hj : j = i
  · subst hj
    rw [Function.update_self, Multiset.count_cons_self]
  · rw [Function.update_of_ne hj, Multiset.count_cons_of_ne (by simpa using hj)]

theorem count_sfs_other {k : Nat} (hk : k ≠ fs) (m : Multiset VnodePtr) (i : Nat) :
    (fun j => (VnodePtr.sfs fs i ::ₘ m).count (.sfs k j)) = fun j => m.count (.sfs k j) := by
  funext j
  exact Multiset.count_cons_of_ne (by simp [hk]) m

theorem count_dev (n : Nat) (m : Multiset VnodePtr) (k : Nat) :
    (fun j => (VnodePtr.dev n ::ₘ m).count (.sfs k j)) = fun j => m.count (.sfs k j) := by
  funext j
  exact Multiset.count_cons_of_ne (by simp) m

theorem Mounts.Borrowed.inv (h : w₀.Borrowed m w) (k : Nat) : Inv 0 (w.vol k) := (h k).inv

theorem Mounts.Borrowed.refl (h : ∀ k, Inv 0 (w.vol k)) : w.Borrowed 0 w := by
  intro k
  simp only [Multiset.count_zero]
  exact .refl (h k)

theorem borrowed_dev {n : Nat} : w₀.Borrowed (.dev n ::ₘ m) w ↔ w₀.Borrowed m w := by
  refine forall_congr' fun k => ?_
  rw [count_dev]

theorem Mounts.Borrowed.update {m' : Multiset VnodePtr} (h : w₀.Borrowed m w)
    (hs : Held (w₀.vol fs) (fun j => m'.count (.sfs fs j)) s)
    (hm : ∀ k, k ≠ fs → (fun j => m'.count (.sfs k j)) = fun j => m.count (.sfs k j)) :
    w₀.Borrowed m' { w with vol := Function.update w.vol fs s } := by
  intro k
  by_cases hk : k = fs
  · subst hk
    simpa using hs
  · simpa [hk, hm k hk] using h k

theorem Mounts.Borrowed.same (h : w₀.Borrowed m w) (hs : Held (w₀.vol fs) (fun j => m.count (.sfs fs j)) s) :
    w₀.Borrowed m { w with vol := Function.update w.vol fs s } :=
  h.update hs fun _ _ => rfl

theorem borrows_error {f : α → VnodePtr} {e : Errno} (h : w₀.Borrowed m w) : w₀.Borrows m f (.error e) w :=
  ⟨fun _ _ => h, fun _ ha => by cases ha⟩

theorem borrows_ok {f : α → VnodePtr} {a : α} (h : w₀.Borrowed (f a ::ₘ m) w) : w₀.Borrows m f (.ok a) w :=
  ⟨fun _ he => (by cases he), fun _ ha => by
    obtain rfl := Except.ok.inj ha
    exact h⟩

theorem Mounts.Borrowed.takes {f : α → Nat} {res : Except Errno α} (h : w₀.Borrowed m w)
    (ht : Held.Takes (w₀.vol fs) (fun j => m.count (.sfs fs j)) f res s) :
    w₀.Borrows m (fun a => .sfs fs (f a)) res { w with vol := Function.update w.vol fs s } := by
  cases res with
  | error e => exact borrows_error (h.same (ht.1 e rfl))
  | ok a =>
    refine borrows_ok (h.update ?_ fun k hk => count_sfs_other hk m (f a))
    rw [count_sfs_cons]
    exact ht.2 a rfl

theorem holds_return {p : PathProg α} {f : α → VnodePtr} {g : α → β} {f' : β → VnodePtr} (hg : ∀ a, f' (g a) = f a)
    (h : Holds (fun _ => True) p w (w₀.Borrows m f)) :
    Holds (fun _ => True) (p >>= fun a => pure (g a)) w (w₀.Borrows m f') := by
  refine h.bind (fun a w' ht => holds_pure (borrows_ok ?_)) fun e w' ht => borrows_error (ht.1 e rfl)
  rw [hg]
  exact ht.2 a rfl

theorem Mounts.Borrowed.onVolume {p : Prog Panic Errno Sfs α} {f : α → Nat} (h : w₀.Borrowed m w)
    (hp : Holds (fun _ => True) p (w.vol fs) (Held.Takes (w₀.vol fs) (fun j => m.count (.sfs fs j)) f)) :
    Holds (fun _ => True) (onVol fs p) w (w₀.Borrows m fun a => .sfs fs (f a)) :=
  holds_onVol_of (fun _ _ => trivial) hp fun _ _ ht => h.takes ht

theorem Mounts.Borrowed.incref (h : w₀.Borrowed m w) (v : VnodePtr) :
    Holds (fun _ => True) (VOP_INCREF v) w (w₀.Borrows m fun _ => v) := by
  cases v with
  | dev n => exact holds_pure (borrows_ok (borrowed_dev.mpr h))
  | sfs fs ino =>
    refine h.onVolume (f := fun _ => ino) ((reads_getv ino).bind.holds_of trivial fun u hu => ?_)
    refine ((h fs).incref hu).imp ?_
    rintro res t ⟨rfl, ht⟩
    exact Held.takes_ok ht

theorem Mounts.Borrowed.incref_return (h : w₀.Borrowed m w) (v : VnodePtr) :
    Holds (fun _ => True) (do VOP_INCREF v; return v) w (w₀.Borrows m id) :=
  holds_return (fun _ => rfl) (h.incref v)

theorem Mounts.Borrowed.decref (h : w₀.Borrowed (v ::ₘ m) w) (hc : ∀ k, (w₀.vol k).Counted)
    (hm : m.card < 2 ^ 31) : Holds (fun _ => True) (VOP_DECREF v) w fun res w' => res = .ok () ∧ w₀.Borrowed m w' := by
  cases v with
  | dev n => exact holds_pure ⟨rfl, borrowed_dev.mp h⟩
  | sfs fs ino =>
    have hfs := h fs
    rw [count_sfs_cons] at hfs
    have hcount : m.count (.sfs fs ino) < 2 ^ 31 := (m.count_le_card _).trans_lt hm
    refine holds_onVol_of (fun _ _ => trivial) (hfs.decref (hc fs) hcount) ?_
    rintro res t ⟨rfl, ht⟩
    exact ⟨rfl, h.update ht fun k hk => (count_sfs_other hk m ino).symm⟩

theorem Mounts.Borrows.release {f : α → VnodePtr} {res : Except Errno α} (h : w₀.Borrows (v ::ₘ m) f res w)
    (hc : ∀ k, (w₀.vol k).Counted) (hm : m.card + 1 < 2 ^ 31) :
    Holds (fun _ => True) (do VOP_DECREF v; finish res) w (w₀.Borrows m f) := by
  cases res with
  | error e =>
    refine ((h.1 e rfl).decref hc (by omega)).bind_done fun w' hw' => ?_
    exact .done rfl (borrows_error hw')
  | ok a =>
    have ha := h.2 a rfl
    rw [Multiset.cons_swap] at ha
    refine (ha.decref hc (by simpa using hm)).bind_done fun w' hw' => ?_
    exact .done rfl (borrows_ok hw')

end Borrowed

/-! ## Looking up -/

section Lookup

variable {w₀ w : Mounts} {m : Multiset VnodePtr} {v : VnodePtr}

theorem Held.lookparent {s t : Sfs} {r : Nat → Nat} {u : Vnode} {i : Nat} (h : Held s r t) (hu : t.vnodes i = some u)
    (path : CStr) (buflen : Nat) :
    Holds (fun _ => True) (sfs_lookparent i path buflen) t (Held.Takes s r Prod.fst) := by
  rw [sfs_lookparent]
  refine holds_bind_run (getv_run hu) ?_
  split
  · exact holds_throw (Held.takes_error h)
  split
  · exact holds_throw (Held.takes_error h)
  · refine (h.incref hu).bind_done fun t' ht' => ?_
    exact holds_pure (Held.takes_ok ht')

theorem Mounts.Borrowed.getcurdir (h : w₀.Borrowed m w) :
    Holds (fun _ => True) vfs_getcurdir w (w₀.Borrows m id) := by
  rw [vfs_getcurdir]
  refine holds_bind_run (get_run w) ?_
  split
  · exact h.incref_return _
  · exact holds_throw (borrows_error h)

theorem Mounts.Borrowed.getdevice_boot (h : w₀.Borrowed m w) :
    Holds (fun _ => True) getdevice_boot w (w₀.Borrows m id) := by
  rw [Os161.getdevice_boot]
  refine holds_bind_run (get_run w) ?_
  split
  · exact h.incref_return _
  · exact holds_throw (borrows_error h)

theorem Mounts.Borrowed.getroot (h : w₀.Borrowed m w) (fs : Nat) :
    Holds (fun _ => True) (FSOP_GETROOT fs) w fun res w' => w₀.Borrows m id res w' ∧ ∃ v, res = .ok v := by
  have hroot : Holds (fun _ => True) (onVol fs sfs_getroot) w fun res w' =>
      w₀.Borrows m (fun a => .sfs fs a) res w' ∧ ∃ a, res = .ok a :=
    holds_onVol_of (fun _ _ => trivial) (h fs).getroot fun _ _ ht => ⟨h.takes ht.1, ht.2⟩
  refine hroot.bind (fun a w' ht => holds_pure ⟨borrows_ok (ht.1.2 a rfl), _, rfl⟩) ?_
  rintro e w' ⟨-, a, ha⟩
  cases ha

theorem Mounts.Borrowed.getroot_ref (h : w₀.Borrowed m w) (devname : CStr) :
    Holds (fun _ => True) (vfs_getroot_ref devname) w (w₀.Borrows m id) := by
  rw [vfs_getroot_ref]
  refine holds_bind_run (get_run w) ?_
  split
  · exact holds_stop trivial
  · exact holds_throw (borrows_error h)
  · exact (h.getroot _).imp fun _ _ ht => ht.1
  · exact h.incref_return _

theorem vn_fs_same (w : Mounts) (v : VnodePtr) :
    Holds (fun _ => True) (vn_fs v) w fun res w' => w' = w ∧ ∃ fs, res = .ok fs := by
  cases v with
  | dev n => exact holds_pure ⟨rfl, _, rfl⟩
  | sfs fs ino =>
    have hget : Holds (fun _ => True) (getv ino) (w.vol fs) fun res t => t = w.vol fs ∧ ∃ u, res = .ok u :=
      (reads_getv ino).holds_of trivial fun u hu => holds_of_run (getv_run hu) ⟨rfl, u, rfl⟩
    refine Holds.bind (Q := fun res w' => w' = w ∧ ∃ u, res = .ok u) ?_ (fun _ _ ht => holds_pure ⟨ht.1, _, rfl⟩) ?_
    · refine holds_onVol_of (fun _ _ => trivial) hget ?_
      rintro res t ⟨rfl, hres⟩
      exact ⟨update_vol_self w fs, hres⟩
    · rintro e w' ⟨-, u, hu⟩
      cases hu

theorem Mounts.Borrowed.getdevice_root (h : w₀.Borrowed 0 w) (hc : ∀ k, (w₀.vol k).Counted) :
    Holds (fun _ => True) getdevice_root w (w₀.Borrows 0 id) := by
  rw [Os161.getdevice_root]
  refine h.getcurdir.bind (fun vn w₁ h₁ => ?_) fun e w₁ h₁ => borrows_error (h₁.1 e rfl)
  refine (vn_fs_same w₁ vn).bind ?_ (by rintro e w₂ ⟨-, fs, hfs⟩; cases hfs)
  rintro fs w₂ ⟨rfl, -⟩
  cases fs with
  | none => exact holds_stop trivial
  | some fs =>
    refine ((h₁.2 vn rfl).getroot fs).bind ?_ (by rintro e w' ⟨-, v, hv⟩; cases hv)
    rintro startvn w' ⟨ht, -⟩
    have hboth := ht.2 startvn rfl
    rw [Multiset.cons_swap] at hboth
    refine (hboth.decref hc (by simp)).bind_done fun w'' hw'' => ?_
    exact holds_pure (borrows_ok hw'')

theorem Mounts.Borrowed.getdevice (h : w₀.Borrowed 0 w) (hc : ∀ k, (w₀.vol k).Counted) (path : CStr) :
    Holds (fun _ => True) (getdevice path) w (w₀.Borrows 0 Prod.snd) := by
  rw [Os161.getdevice]
  split
  · exact holds_return (fun _ => rfl) h.getcurdir
  · split
    · exact holds_return (fun _ => rfl) h.getdevice_boot
    · exact holds_return (fun _ => rfl) (h.getdevice_root hc)
  · split
    · exact holds_return (fun _ => rfl) (h.getroot_ref _)
    · exact holds_return (fun _ => rfl) h.getcurdir

theorem Mounts.Borrowed.onRoot {α : Type} {p : Nat → Nat → PathProg α} {Q : Except Errno α → Mounts → Prop}
    (h : w₀.Borrowed m w) (herr : Q (.error .ENOTDIR) w)
    (hp : ∀ fs u, v = .sfs fs SFS_ROOT_LOCATION → (w.vol fs).vnodes SFS_ROOT_LOCATION = some u →
      Holds (fun _ => True) (p fs SFS_ROOT_LOCATION) w Q) : Holds (fun _ => True) (dirop v p) w Q :=
  holds_dirop_of ⟨trivial, trivial⟩ h.inv herr hp

theorem Mounts.Borrowed.vop_lookup (h : w₀.Borrowed m w) (v : VnodePtr) (path : CStr) :
    Holds (fun _ => True) (VOP_LOOKUP v path) w (w₀.Borrows m id) := by
  cases v with
  | dev n =>
    rw [VOP_LOOKUP, dev_lookup]
    split
    · exact holds_throw (borrows_error h)
    · exact h.incref_return _
  | sfs fs ino =>
    rw [VOP_LOOKUP]
    exact h.onRoot (borrows_error h) fun fs u _ hu => holds_return (fun _ => rfl) (h.onVolume ((h fs).lookup hu path))

theorem Mounts.Borrowed.vop_lookparent (h : w₀.Borrowed m w) (v : VnodePtr) (path : CStr) (buflen : Nat) :
    Holds (fun _ => True) (VOP_LOOKPARENT v path buflen) w (w₀.Borrows m Prod.fst) :=
  h.onRoot (borrows_error h) fun fs _ _ hu =>
    holds_return (fun _ => rfl) (h.onVolume ((h fs).lookparent hu path buflen))

theorem Mounts.Borrowed.lookparent (h : w₀.Borrowed 0 w) (hc : ∀ k, (w₀.vol k).Counted) (path : CStr)
    (buflen : Nat) : Holds (fun _ => True) (vfs_lookparent path buflen) w (w₀.Borrows 0 Prod.fst) := by
  rw [vfs_lookparent]
  refine (h.getdevice hc path).bind (fun a w₁ h₁ => ?_) fun e w₁ h₁ => borrows_error (h₁.1 e rfl)
  have hstart := h₁.2 a rfl
  refine Holds.bind_attempt (Q := w₀.Borrows {a.2} Prod.fst) ?_ fun res w₂ h₂ => h₂.release hc (by simp)
  split
  · exact holds_throw (borrows_error hstart)
  · exact hstart.vop_lookparent a.2 a.1 buflen

theorem Mounts.Borrowed.lookup (h : w₀.Borrowed 0 w) (hc : ∀ k, (w₀.vol k).Counted) (path : CStr) :
    Holds (fun _ => True) (vfs_lookup path) w (w₀.Borrows 0 id) := by
  rw [vfs_lookup]
  refine (h.getdevice hc path).bind (fun a w₁ h₁ => ?_) fun e w₁ h₁ => borrows_error (h₁.1 e rfl)
  have hstart := h₁.2 a rfl
  dsimp only
  split
  · exact holds_pure (borrows_ok hstart)
  · exact (hstart.vop_lookup a.2 a.1).bind_attempt fun res w₂ h₂ => h₂.release hc (by simp)

end Lookup

/-! ## Opening -/

section Open

variable {w₀ w : Mounts} {m : Multiset VnodePtr} {v : VnodePtr} {openflags : UInt32}

def Mounts.Created (v : VnodePtr) (w : Mounts) : Prop := ∃ fs i, v = .sfs fs i ∧ OpenFile i (w.vol fs)

theorem OpenFile.onVolume {fs i : Nat} {p : Prog Panic Errno Sfs Unit}
    (hp : Holds (fun _ => True) p (w.vol fs) fun res t => res = .ok () ∧ OpenFile i t) :
    Holds (fun _ => True) (onVol fs p) w fun res w' => res = .ok () ∧ OpenFile i (w'.vol fs) := by
  refine holds_onVol_of (fun _ _ => trivial) hp ?_
  rintro res t ⟨rfl, ht⟩
  refine ⟨rfl, ?_⟩
  simpa using ht

theorem Mounts.Borrowed.vop_creat (h : w₀.Borrowed m w) (dir : VnodePtr) (name : CStr) (excl : Bool) :
    Holds (fun _ => True) (VOP_CREAT dir name excl) w fun res w' =>
      w₀.Borrows m id res w' ∨ ∃ fs i, dir = .sfs fs SFS_ROOT_LOCATION ∧ res = .ok (.sfs fs i) ∧
        OpenFile i (w'.vol fs) := by
  refine h.onRoot (.inl (borrows_error h)) fun fs u hdir hu => ?_
  have hcreat : Holds (fun _ => True) (onVol fs (sfs_creat SFS_ROOT_LOCATION name excl)) w fun res w' =>
      w₀.Borrows m (fun a => .sfs fs a) res w' ∨ ∃ i, res = .ok i ∧ OpenFile i (w'.vol fs) := by
    refine holds_onVol_of (fun _ _ => trivial) ((h fs).creat hu name excl) ?_
    rintro res t (ht | ⟨a, hres, ha⟩)
    · exact .inl (h.takes ht)
    · refine .inr ⟨a, hres, ?_⟩
      simpa using ha
  refine hcreat.bind ?_ ?_
  · rintro a w' (ht | ⟨i, hi, hfile⟩)
    · exact holds_pure (.inl (borrows_ok (ht.2 a rfl)))
    · obtain rfl := Except.ok.inj hi
      exact holds_pure (.inr ⟨fs, a, hdir, rfl, hfile⟩)
  · rintro e w' (ht | ⟨i, hi, -⟩)
    · exact .inl (borrows_error (ht.1 e rfl))
    · cases hi

theorem Mounts.Borrowed.open_vnode (h : w₀.Borrowed 0 w) (hc : ∀ k, (w₀.vol k).Counted) (path : CStr) :
    Holds (fun _ => True) (vfs_open_vnode path openflags) w fun res w' =>
      w₀.Borrows 0 id res w' ∨ openflags &&& O_CREAT ≠ 0 ∧ ∃ v, res = .ok v ∧ w'.Created v := by
  rw [vfs_open_vnode]
  split
  · rename_i hflag
    refine (h.lookparent hc path _).bind (fun a w₁ h₁ => ?_) fun e w₁ h₁ => .inl (borrows_error (h₁.1 e rfl))
    refine ((h₁.2 a rfl).vop_creat a.1 a.2 _).bind_attempt ?_
    rintro res w₂ (h₂ | ⟨fs, i, hdir, rfl, hfile⟩)
    · exact (h₂.release hc (by simp)).imp fun _ _ ht => .inl ht
    · -- the reference to the root goes, the file stays
      have hdrop : Holds (fun _ => True) (VOP_DECREF a.1) w₂ fun res w' => res = .ok () ∧ OpenFile i (w'.vol fs) := by
        rw [hdir]
        exact OpenFile.onVolume ((reads_getv _).bind.holds_of trivial fun u hu => hfile.decref hfile.file.symm hu)
      refine hdrop.bind_done fun w' hw' => ?_
      exact .done rfl (.inr ⟨hflag, _, rfl, fs, i, rfl, hw'⟩)
  · exact (h.lookup hc path).imp fun _ _ ht => .inl ht

theorem vop_open_same (hinv : ∀ fs i, v = .sfs fs i → Inv 0 (w.vol fs)) :
    Holds (fun _ => True) (VOP_OPEN v openflags) w fun res w' => w' = w ∧
      ∀ fs i, v = .sfs fs i → i ≠ SFS_ROOT_LOCATION → openflags &&& O_APPEND = 0 → res = .ok () := by
  cases v with
  | dev n =>
    refine holds_bind_run (get_run w) ?_
    split
    · exact holds_throw ⟨rfl, by simp⟩
    · split
      · exact holds_throw ⟨rfl, by simp⟩
      · exact holds_pure ⟨rfl, by simp⟩
  | sfs fs i =>
    refine Holds.bind (Q := fun r w' => w' = w ∧ r = .ok (opsOf i)) ?_ ?_ ?_
    · refine holds_onVol_of (fun _ hp => hp) (vop_ops_spec ⟨trivial, trivial⟩ (hinv fs i rfl) i) ?_
      rintro r s ⟨rfl, hr, -⟩
      exact ⟨update_vol_self w fs, hr⟩
    · rintro ops w' ⟨rfl, hr⟩
      obtain rfl := Except.ok.inj hr
      by_cases hi : i = SFS_ROOT_LOCATION
      · have hroot : ∀ fs' i', VnodePtr.sfs fs i = .sfs fs' i' → i' = SFS_ROOT_LOCATION := by
          rintro fs' i' he
          rw [← (VnodePtr.sfs.inj he).2, hi]
        rw [opsOf, if_pos hi]
        dsimp only [sfs_opendir]
        split
        · exact holds_throw ⟨rfl, fun fs' i' he hne => absurd (hroot fs' i' he) hne⟩
        · split
          · exact holds_throw ⟨rfl, fun fs' i' he hne => absurd (hroot fs' i' he) hne⟩
          · exact holds_pure ⟨rfl, fun _ _ _ _ _ => rfl⟩
      · rw [opsOf, if_neg hi]
        dsimp only [sfs_open]
        split
        · rename_i happend
          exact holds_throw ⟨rfl, fun _ _ _ _ h0 => absurd h0 happend⟩
        · exact holds_pure ⟨rfl, fun _ _ _ _ _ => rfl⟩
    · rintro e w' ⟨-, hr⟩
      cases hr

theorem vfs_open_trunc_error (hinv : ∀ fs i, v = .sfs fs i → Inv 0 (w.vol fs)) :
    Holds (fun _ => True) (vfs_open_trunc v openflags) w fun res w' => (∀ e, res = .error e → w' = w) ∧
      ∀ fs i, v = .sfs fs i → i ≠ SFS_ROOT_LOCATION →
        (openflags &&& O_TRUNC ≠ 0 → openflags &&& O_ACCMODE ≠ O_RDONLY) → res = .ok () := by
  rw [vfs_open_trunc]
  split
  · rename_i htrunc
    split
    · rename_i hread
      exact holds_throw ⟨fun _ _ => rfl, fun _ _ _ _ hw => absurd hread (hw htrunc)⟩
    · cases v with
      | dev n =>
        refine holds_bind_run (get_run w) ?_
        dsimp only
        split
        · exact holds_pure ⟨by simp, by simp⟩
        · exact holds_throw ⟨fun _ _ => rfl, by simp⟩
      | sfs fs i =>
        refine holds_onVol_of (fun _ _ => trivial) ((reads_check i false).bind.holds_of trivial fun u hu =>
          truncate_error (hinv fs i rfl) hu 0) ?_
        rintro res t ⟨herr, hok⟩
        refine ⟨fun e he => ?_, fun fs' i' hv hne _ => ?_⟩
        · rw [herr e he]
          exact update_vol_self w fs
        · obtain ⟨-, rfl⟩ := VnodePtr.sfs.inj hv
          exact hok hne
  · exact holds_pure ⟨by simp, fun _ _ _ _ _ => rfl⟩

inductive Mounts.Opened (w₀ : Mounts) (m : Multiset VnodePtr) : VnodePtr → Mounts → Prop where
  | dev (n : Nat) {w : Mounts} (h : w₀.Borrowed m w) : Mounts.Opened w₀ m (.dev n) w
  | sfs {fs i : Nat} {u : Vnode} {w : Mounts} {s : Sfs} (h : w₀.Borrowed m w) (hu : (w.vol fs).vnodes i = some u)
    (hs : s = (w.vol fs).setVnode i (some { u with vn_opencount := toI32 (u.vn_opencount + 1) })) :
    Mounts.Opened w₀ m (.sfs fs i) { w with vol := Function.update w.vol fs s }

theorem Mounts.Borrowed.incopen (h : w₀.Borrowed m w) (v : VnodePtr) :
    Holds (fun _ => True) (VOP_INCOPEN v) w fun res w' => res = .ok () ∧ w₀.Opened m v w' := by
  cases v with
  | dev n => exact holds_pure ⟨rfl, .dev n h⟩
  | sfs fs i =>
    have hinc : Holds (fun _ => True) (vnode_incopen i) (w.vol fs) fun res t => res = .ok () ∧
        ∃ u, (w.vol fs).vnodes i = some u ∧
          t = (w.vol fs).setVnode i (some { u with vn_opencount := toI32 (u.vn_opencount + 1) }) :=
      (reads_getv i).bind.holds_of trivial fun u hu => holds_of_run (modv_run hu _) ⟨rfl, u, hu, rfl⟩
    refine holds_onVol_of (fun _ _ => trivial) hinc ?_
    rintro res t ⟨rfl, u, hu, ht⟩
    exact ⟨rfl, .sfs h hu ht⟩

theorem Mounts.Opened.inv (h : w₀.Opened m v w) (fs i : Nat) (hv : v = .sfs fs i) : Inv 0 (w.vol fs) := by
  cases h with
  | dev n h => cases hv
  | @sfs fs' i' u w s h hu hs =>
    obtain ⟨rfl, rfl⟩ := VnodePtr.sfs.inj hv
    have hsince : Since ⟨True, True⟩ (w.vol fs') 0 (w.vol fs') := ⟨h.inv fs', .refl _⟩
    have hset : Since ⟨True, True⟩ (w.vol fs') 0 s := by
      rw [hs]
      exact hsince.set_refs hu rfl rfl rfl
    simpa using hset.toInv

theorem Mounts.Opened.decopen (h : w₀.Opened m v w) (hc : ∀ k, (w₀.vol k).Counted) :
    Holds (fun _ => True) (VOP_DECOPEN v) w fun res w' => res = .ok () ∧ w₀.Borrowed m w' := by
  cases h with
  | dev n h => exact holds_pure ⟨rfl, h⟩
  | @sfs fs i u w s h hu hs =>
    have hdec := (h fs).decopen hu ((h fs).opencount (hc fs) hu)
    rw [← hs, ← Function.update_self fs s w.vol] at hdec
    refine holds_onVol_of (fun _ _ => trivial) hdec ?_
    rintro res t ⟨rfl, ht⟩
    refine ⟨rfl, ?_⟩
    simpa using h.same ht

def CreateFlags (openflags : UInt32) : Prop :=
  openflags &&& O_CREAT ≠ 0 →
    openflags &&& O_APPEND = 0 ∧ (openflags &&& O_TRUNC ≠ 0 → openflags &&& O_ACCMODE ≠ O_RDONLY)

theorem Mounts.Borrowed.open_fails (h : w₀.Borrowed 0 w) (hc : ∀ k, (w₀.vol k).Counted)
    (hflags : CreateFlags openflags) (path : CStr) :
    Holds (fun _ => True) (vfs_open path openflags) w fun res w' => ∀ e, res = .error e → w₀.Borrowed 0 w' := by
  rw [vfs_open]
  split
  · exact holds_throw fun _ _ => h
  refine (h.open_vnode hc path).bind ?_ ?_
  · rintro vn w₁ (h₁ | ⟨hcreat, v, hv, fs, i, rfl, hfile⟩)
    · have hvn : w₀.Borrowed {vn} w₁ := h₁.2 vn rfl
      refine (vop_open_same fun fs _ _ => hvn.inv fs).bind_attempt ?_
      rintro res w₂ ⟨rfl, -⟩
      cases res with
      | error e =>
        refine (hvn.decref hc (by simp)).bind_done fun w₃ h₃ => ?_
        exact holds_throw fun _ _ => h₃
      | ok =>
        refine (hvn.incopen vn).bind_done fun w₃ h₃ => ?_
        refine (vfs_open_trunc_error h₃.inv).bind_attempt ?_
        rintro res w₄ ⟨hsame, -⟩
        cases res with
        | ok => exact holds_pure (by simp)
        | error e =>
          obtain rfl := hsame e rfl
          refine (h₃.decopen hc).bind_done fun w₅ h₅ => ?_
          refine (Mounts.Borrowed.decref h₅ hc (by simp)).bind_done fun w₆ h₆ => ?_
          exact holds_throw fun _ _ => h₆
    · -- a new file: none of the calls that are left fails
      obtain rfl := Except.ok.inj hv
      obtain ⟨happend, htrunc⟩ := hflags hcreat
      have hinv {w' : Mounts} (hf : OpenFile i (w'.vol fs)) (fs' i' : Nat)
          (he : VnodePtr.sfs fs i = .sfs fs' i') : Inv 0 (w'.vol fs') := by
        obtain ⟨rfl, -⟩ := VnodePtr.sfs.inj he
        exact hf.inv
      refine (vop_open_same (hinv hfile)).bind_attempt ?_
      rintro res w₂ ⟨rfl, hok⟩
      obtain rfl := hok fs i rfl hfile.file happend
      refine (OpenFile.onVolume hfile.incopen).bind_done fun w₃ h₃ => ?_
      refine (vfs_open_trunc_error (hinv h₃)).bind_attempt ?_
      rintro res w₄ ⟨-, hok⟩
      obtain rfl := hok fs i rfl h₃.file htrunc
      exact holds_pure (by simp)
  · rintro e w₁ (h₁ | ⟨-, v, hv, -⟩)
    · exact fun _ _ => h₁.1 e rfl
    · cases hv

end Open

/-! ## A failed open -/

def Sfs.countedTable (s : Sfs) : Bool :=
  s.sfs_vnodes.toList.all fun j => (s.vnodes j).all fun v : Vnode => decide (0 < v.vn_refcount ∧
    v.vn_refcount < 2 ^ 31 ∧ -2 ^ 31 ≤ v.vn_opencount ∧ v.vn_opencount < 2 ^ 31)

theorem Inv.counted {s : Sfs} (h : Inv 0 s) (hs : s.countedTable = true) : s.Counted := by
  intro j v hv
  have hj := List.all_eq_true.mp hs j ((h.table j).mpr ⟨v, hv⟩)
  rw [hv, Option.all_some] at hj
  exact of_decide_eq_true hj

def onLhd0 (s : Sfs) : Mounts :=
  ⟨[⟨cpath "lhd0", some (cpath "lhd0raw"), some 0, 0, some ⟨0, none⟩⟩], fun _ => ⟨fun _ => none, 4096, 512⟩,
    fun _ => s, none, none⟩

end Os161
