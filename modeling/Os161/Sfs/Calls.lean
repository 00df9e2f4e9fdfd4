import Os161.Sfs.Directory

/-! # The calls keep the invariant -/

namespace Os161

open Prog Words

section Calls

variable {L : Licence} {s₀ s : Sfs} {v : Vnode} {name : CStr}

def Kept (L : Licence) (s₀ : Sfs) {α : Type} (_ : Except Errno α) (t : Sfs) : Prop := Since L s₀ 0 t

theorem Loads.loaded {t : Sfs} (h : Loads s t) {j : Nat} (hj : s.vnodes j = some v) : ∃ v', t.vnodes j = some v' :=
  h.vnodes j v hj

theorem Inv.linkcount_ne_zero (h : Inv 0 s) {k i : Nat} (hk : s.named k = some i) (hv : s.vnodes i = some v) :
    v.sv_i.sfi_linkcount ≠ 0 := by
  exact (h.linked_iff hv).mp (.inr ⟨k, hk⟩)

theorem sfs_lookonce_spec {X : Panic → Prop} (h : Since L s₀ 0 s) (hv : s.vnodes SFS_ROOT_LOCATION = some v) :
    Holds X (sfs_lookonce SFS_ROOT_LOCATION name) s fun r t => Since L s₀ 0 t ∧ Loads s t ∧
      (∀ p, r = .ok p → t.dirent p.2 = some (p.1, name.chars) ∧ (∃ v', t.vnodes p.1 = some v') ∧ Taken s p.1 t) ∧
        ∀ e, r = .error e → t.refs = s.refs := by
  rw [sfs_lookonce]
  refine (sfs_dir_findname_spec h.toInv hv name).bind ?_ ?_
  rotate_left
  · rintro e t ⟨-, _, hr, -⟩
    cases hr
  rintro l t ⟨rfl, _, hr, hl⟩
  obtain rfl := Except.ok.inj hr
  cases hf : l.found with
  | none => exact holds_throw ⟨h, ⟨rfl, fun _ _ => rfl, fun _ w hw => ⟨w, hw⟩⟩, by simp, fun _ _ => rfl⟩
  | some p =>
    obtain ⟨ino, slot⟩ := p
    obtain ⟨-, hd⟩ := hl.found ino slot hf
    have hnamed : t.named slot = some ino := by rw [Sfs.named, hd]; rfl
    dsimp only
    refine (sfs_loadvnode_spec h (live_of_named hnamed)).bind ?_
      fun e t' ht => ⟨ht.1, ht.2.1, by simp, fun _ _ => ht.2.2.2 e rfl⟩
    rintro ret t' ⟨h', hloads, hret, -⟩
    obtain ⟨rfl, ⟨w, hw⟩, htaken⟩ := hret ret rfl
    have hnamed' : t'.named slot = some ret := by rw [named_of_dirent hloads.dirent, hnamed]
    refine holds_bind_run (getv_run hw) (holds_ensure_bind (.inl (h'.linkcount_ne_zero hnamed' hw)) fun _ => ?_)
    refine holds_pure ⟨h', hloads, fun p hp => ?_, by simp⟩
    obtain rfl := Except.ok.inj hp
    exact ⟨by rw [hloads.dirent, hd], ⟨w, hw⟩, htaken⟩

theorem decref_throw_spec {α : Type} {i : Nat} {w : Vnode} (h : Since L s₀ 0 s) (hw : s.vnodes i = some w) (e : Errno) :
    Holds Panic.Refs (do vnode_decref i; throw e : Prog Panic Errno Sfs α) s (Kept L s₀) :=
  (vnode_decref_spec h hw).bind (fun _ _ ht => holds_throw ht) fun _ _ ht => ht

theorem sfs_creat_new_spec (h : Since L s₀ 0 s) (hv : s.vnodes SFS_ROOT_LOCATION = some v)
    (hlose : s.loses = true → L.lose) :
    Holds Panic.Refs (sfs_creat_new SFS_ROOT_LOCATION name) s (Kept L s₀) := by
  rw [sfs_creat_new]
  refine (sfs_makeobj_spec h hlose).bind ?_ fun _ _ ht => ht.1
  rintro b t ⟨h₁, -, hmono, hb⟩
  obtain ⟨w, hw, hroot⟩ := hb b rfl
  refine (sfs_dir_link_spec h₁ (hmono _ v hv) (live_of_vnode hw) (fun hr => absurd hr hroot) name).bind_attempt ?_
  rintro r t' ⟨hstep, hpost⟩
  obtain ⟨w', hw'⟩ := (hstep.loaded b).mpr ⟨w, hw⟩
  cases r with
  | error e => exact decref_throw_spec hpost.1 hw' e
  | ok slot =>
    obtain ⟨v', hrun, -, -, h₂⟩ := sfs_linkcount_inc_run hpost.1 hw'
    exact holds_bind_run hrun (holds_pure h₂)

def Sfs.creatLoses (s : Sfs) (dir : Nat) (name : CStr) : Bool :=
  match sfs_dir_findname dir name s with
  | .ok (.ok l, t) => l.found.isNone && t.loses
  | _ => false

theorem sfs_creat_spec (h : Since L s₀ 0 s) (hv : s.vnodes SFS_ROOT_LOCATION = some v) (excl : Bool)
    (hlose : s.creatLoses SFS_ROOT_LOCATION name = true → L.lose) :
    Holds Panic.Refs (sfs_creat SFS_ROOT_LOCATION name excl) s (Kept L s₀) := by
  rw [sfs_creat]
  obtain ⟨_, _, run, rfl, l, rfl, hl⟩ := (sfs_dir_findname_spec (X := fun _ => False) h.toInv hv name).exists
  refine holds_bind_run run ?_
  cases hf : l.found with
  | none =>
    refine sfs_creat_new_spec h hv fun hs => hlose ?_
    simp only [Sfs.creatLoses, run, hf, Option.isNone_none, hs, Bool.and_self]
  | some p =>
    obtain ⟨ino, slot⟩ := p
    obtain ⟨-, hd⟩ := hl.found ino slot hf
    dsimp only
    cases excl with
    | true => exact holds_throw h
    | false =>
      refine (sfs_loadvnode_spec h (live_of_named (k := slot) ?_)).imp fun _ _ ht => ht.1
      rw [Sfs.named, hd]
      rfl

theorem sfs_link_spec (h : Since L s₀ 0 s) (hv : s.vnodes SFS_ROOT_LOCATION = some v) {f : Nat} {w : Vnode}
    (hw : s.vnodes f = some w) (hroot : f = SFS_ROOT_LOCATION → L.root) : Holds Panic.Refs (sfs_link SFS_ROOT_LOCATION name f) s (Kept L s₀) := by
  rw [sfs_link]
  refine (sfs_dir_link_spec h hv (live_of_vnode hw) (fun hr => .inl (hroot hr)) name).bind ?_ fun _ _ ht => ht.2.1
  rintro slot t ⟨hstep, h₁, -⟩
  obtain ⟨w', hw'⟩ := (hstep.loaded f).mpr ⟨w, hw⟩
  obtain ⟨v', hrun, -, -, h₂⟩ := sfs_linkcount_inc_run h₁ hw'
  exact holds_of_run hrun h₂

theorem linkcount_dec_then {X : Panic → Prop} {Q : Except Errno Unit → Sfs → Prop} {f : Nat} {w : Vnode}
    (h : Since L s₀ (ahead f) s) (hw : s.vnodes f = some w) (p : Panic)
    (hlast : ∀ w', w'.vn_refcount = w.vn_refcount → w'.vn_opencount = w.vn_opencount →
      Since L s₀ 0 (s.setVnode f (some w')) → Holds X (vnode_decref f) (s.setVnode f (some w')) Q) :
    Holds X (do
      let v ← getv f
      ensure (v.sv_i.sfi_linkcount > 0) p
      sfs_linkcount_dec f
      vnode_decref f) s Q := by
  have hpos : w.sv_i.sfi_linkcount > 0 := UInt16.lt_iff_toNat_lt.mpr (h.links_ahead hw).1
  refine holds_bind_run (getv_run hw) (holds_ensure_bind (.inl hpos) fun _ => ?_)
  refine holds_bind_run (modv_run hw _) (hlast _ ?_ ?_ (h.of_linkcount_dec hw ?_ ?_ ?_))
  all_goals rfl

theorem sfs_remove_spec (h : Since L s₀ 0 s) (hv : s.vnodes SFS_ROOT_LOCATION = some v) :
    Holds Panic.Refs (sfs_remove SFS_ROOT_LOCATION name) s (Kept L s₀) := by
  rw [sfs_remove]
  refine (sfs_lookonce_spec h hv).bind ?_ fun _ _ ht => ht.1
  rintro ⟨victim, slot⟩ t ⟨h₁, hloads, hp, -⟩
  obtain ⟨hd, ⟨w, hw⟩, -⟩ := hp _ rfl
  obtain ⟨vr, hvr⟩ := hloads.loaded hv
  refine (sfs_dir_unlink_spec h₁ hvr hd hw).bind_attempt ?_
  rintro _ t' ⟨rfl, hstep, h₂, -⟩
  obtain ⟨w', hw'⟩ := (hstep.loaded victim).mpr ⟨w, hw⟩
  exact linkcount_dec_then h₂ hw' _ fun _ _ _ h₃ => vnode_decref_spec h₃ (Function.update_self _ _ _)

def Sfs.renamed (s : Sfs) (g1 slot1 slot2 : Nat) (n2 : List Byte) : Nat → Option (Nat × List Byte) :=
  Function.update (Function.update s.dirent slot2 (some (g1, n2))) slot1 none

structure Renaming (L : Licence) (s₀ s : Sfs) (n1 n2 : CStr) (g1 : Nat) (r : Except Errno Unit) (t : Sfs) : Prop where
  since : Since L s₀ 0 t
  file : g1 ≠ SFS_ROOT_LOCATION
  taken : Taken s g1 t
  loaded : ∃ w, t.vnodes g1 = some w
  linked : ∃ k, t.named k = some g1
  failed : ∀ e, r = .error e → t.dirent = s.dirent
  moved : r = .ok () → (∀ k e, s.dirent k = some e → e.2 ≠ n2.chars) ∧
    ∃ slot1 slot2, s.dirent slot1 = some (g1, n1.chars) ∧ s.dirent slot2 = none ∧
      t.dirent = s.renamed g1 slot1 slot2 n2.chars

theorem FileStep.refs {t : Sfs} {I : Set Nat} {i : Nat} (hs : FileStep I i s t) : t.refs = s.refs := by
  obtain ⟨v, v', hv, hv', hsame⟩ := hs.vnode
  funext j
  rw [Sfs.refs, Sfs.refs]
  by_cases hj : j = i
  · subst hj; rw [hv, hv', Option.map_some, Option.map_some, hsame.refcount]
  · rw [hs.vnodes j hj]

theorem refs_set_same {t : Sfs} {i : Nat} {w w' : Vnode} (hw : t.vnodes i = some w)
    (href : w'.vn_refcount = w.vn_refcount) : (t.setVnode i (some w')).refs = t.refs := by
  rw [refs_of_update (setVnode_vnodes t i (some w')), Function.update_eq_self_iff, Sfs.refs, hw, Option.map_some,
    Option.map_some, href]

theorem Taken.keep {t t' : Sfs} {i : Nat} {w w' : Vnode} (h : Taken s i t) (href : t'.refs = t.refs)
    (hw : t.vnodes i = some w) (hw' : t'.vnodes i = some w') (hopen : w'.vn_opencount = w.vn_opencount) :
    Taken s i t' := by
  refine ⟨href.trans h.refs, fun hn v hv => ?_⟩
  obtain rfl := Option.some.inj (hw'.symm.trans hv)
  rw [hopen, h.opencount hn w hw]

theorem dirent_set_file {t : Sfs} {i : Nat} (hi : i ≠ SFS_ROOT_LOCATION) (w : Option Vnode) :
    (t.setVnode i w).dirent = t.dirent := by
  refine (dirent_same_blocks (setVnode_sect t i w) ?_).1
  rw [Sfs.inodeOf, Sfs.inodeOf, setVnode_vnodes, Function.update_of_ne hi.symm]
  rfl

theorem sfs_rename_walk {X : Panic → Prop} {n1 n2 : CStr} {Q : Except Errno Unit → Sfs → Prop} (h : Since L s₀ 0 s)
    (hv : s.vnodes SFS_ROOT_LOCATION = some v)
    (htype : (∃ k, s.dirent k = some (SFS_ROOT_LOCATION, n1.chars)) → X .rename_type)
    (hearly : ∀ e t, Since L s₀ 0 t → Loads s t → t.refs = s.refs → Q (.error e) t)
    (hfail : ∀ e g1 t, Renaming L s₀ s n1 n2 g1 (.error e) t → Holds X (do vnode_decref g1; throw e) t Q)
    (hdone : ∀ g1 t, Renaming L s₀ s n1 n2 g1 (.ok ()) t → Holds X (vnode_decref g1) t Q) :
    Holds X (sfs_rename SFS_ROOT_LOCATION n1 n2) s Q := by
  rw [sfs_rename]
  refine holds_ensure_bind (.inl rfl) fun _ => (sfs_lookonce_spec h hv).bind ?_
    fun e t ht => hearly e t ht.1 ht.2.1 (ht.2.2.2 e rfl)
  rintro ⟨g1, slot1⟩ t ⟨h₁, hloads, hp, -⟩
  obtain ⟨hd, ⟨w, hw⟩, htaken⟩ := hp _ rfl
  obtain ⟨vr, hvr⟩ := hloads.loaded hv
  have hd₀ : s.dirent slot1 = some (g1, n1.chars) := hloads.dirent ▸ hd
  have hwtype := h₁.type g1 (live_of_vnode hw)
  rw [inodeOf_some hw] at hwtype
  have hstop : w.sv_i.sfi_type = SFS_TYPE_FILE ∨ X .rename_type := by
    by_cases hg : g1 = SFS_ROOT_LOCATION
    · exact .inr (htype ⟨slot1, hg ▸ hd₀⟩)
    · exact .inl (hwtype.trans (if_neg hg))
  refine holds_bind_run (getv_run hw) (holds_ensure_bind hstop fun hfile => ?_)
  have hroot : g1 ≠ SFS_ROOT_LOCATION := by
    rintro rfl
    rw [hfile, typeOf, if_pos rfl] at hwtype
    cases hwtype
  refine (sfs_dir_link_spec h₁ hvr (live_of_vnode hw) (fun hr => absurd hr hroot) n2).bind_attempt ?_
  rintro r t' ⟨hstep, hpost⟩
  have hw' : t'.vnodes g1 = some w := (hstep.vnodes g1 hroot).trans hw
  have htaken' := htaken.keep hstep.refs hw hw' rfl
  cases r with
  | error e =>
    have hdir : t'.dirent = s.dirent := hpost.2.trans hloads.dirent
    refine hfail e g1 t' ⟨hpost.1, hroot, htaken', ⟨w, hw'⟩, ⟨slot1, ?_⟩, fun _ _ => hdir, by simp⟩
    rw [Sfs.named, hdir, hd₀]
    rfl
  | ok slot2 =>
    obtain ⟨h₂, hnone, hnew, hdir⟩ := hpost
    rw [hloads.dirent] at hnone hnew hdir
    obtain ⟨v', hrun, href, hopen, h₃⟩ := sfs_linkcount_inc_run h₂ hw'
    obtain ⟨-, vr', -, hvr', -⟩ := hstep.vnode
    have hne : slot1 ≠ slot2 := by
      rintro rfl
      rw [hnone] at hd₀
      cases hd₀
    have hw₃ : (t'.setVnode g1 (some v')).vnodes g1 = some v' := Function.update_self _ _ _
    have htaken₃ := htaken'.keep (refs_set_same hw' href) hw' hw₃ hopen
    have hd₃ : (t'.setVnode g1 (some v')).dirent slot1 = some (g1, n1.chars) := by
      rw [dirent_set_file hroot, hdir, Function.update_of_ne hne, hd₀]
    have hvr₃ : (t'.setVnode g1 (some v')).vnodes SFS_ROOT_LOCATION = some vr' :=
      (Function.update_of_ne hroot.symm _ _).trans hvr'
    refine holds_bind_run hrun ?_
    rw [sfs_rename_unlink]
    refine (sfs_dir_unlink_spec h₃ hvr₃ hd₃ hw₃).bind_attempt ?_
    rintro _ t₄ ⟨rfl, hstep₄, h₄, hdir₄⟩
    have hw₄ : t₄.vnodes g1 = some v' := (hstep₄.vnodes g1 hroot).trans hw₃
    refine linkcount_dec_then h₄ hw₄ _ fun w' href' hopen' h₅ => hdone g1 _ ?_
    have htaken₄ := htaken₃.keep hstep₄.refs hw₃ hw₄ rfl
    have hdir₅ : (t₄.setVnode g1 (some w')).dirent = s.renamed g1 slot1 slot2 n2.chars := by
      rw [dirent_set_file hroot, hdir₄, dirent_set_file hroot, hdir, Sfs.renamed]
    refine ⟨h₅, hroot, htaken₄.keep (refs_set_same hw₄ href') hw₄ (Function.update_self _ _ _) hopen',
      ⟨w', Function.update_self _ _ _⟩, ⟨slot2, ?_⟩, by simp,
      fun _ => ⟨hnew, slot1, slot2, hd₀, hnone, hdir₅⟩⟩
    rw [Sfs.named, hdir₅, Sfs.renamed, Function.update_of_ne hne.symm, Function.update_self]
    rfl

theorem sfs_rename_spec {X : Panic → Prop} {n1 n2 : CStr} (h : Since L s₀ 0 s)
    (hv : s.vnodes SFS_ROOT_LOCATION = some v) (hX : ∀ p, Panic.Refs p → X p)
    (htype : (∃ k, s.named k = some SFS_ROOT_LOCATION) → X .rename_type) :
    Holds X (sfs_rename SFS_ROOT_LOCATION n1 n2) s (Kept L s₀) := by
  refine sfs_rename_walk h hv ?_ (fun _ _ ht _ _ => ht) (fun e g1 t ht => ?_) fun g1 t ht => ?_
  · rintro ⟨k, hk⟩
    exact htype ⟨k, by rw [Sfs.named, hk]; rfl⟩
  all_goals obtain ⟨w, hw⟩ := ht.loaded
  · exact (decref_throw_spec ht.since hw e).mono (fun _ _ hk => hk) hX
  · exact (vnode_decref_spec ht.since hw).mono (fun _ _ hk => hk) hX

end Calls

/-! ## Any call -/

def Op.Valid (s : Sfs) : Op → Prop
  | .creat dir _ _ | .remove dir _ | .rename dir _ _ | .lookup dir _ => ∃ v, s.vnodes dir = some v
  | .link dir _ file => (∃ v, s.vnodes dir = some v) ∧ ∃ v, s.vnodes file = some v
  | .getroot => True
  | .read v uio => (∃ sv, s.vnodes v = some sv) ∧ uio.Fits ∧ uio.uio_rw = .UIO_READ
  | .write v uio => (∃ sv, s.vnodes v = some sv) ∧ uio.Fits ∧ uio.uio_rw = .UIO_WRITE
  | .truncate v _ | .fsync v | .incref v | .decref v | .incopen v | .decopen v => ∃ sv, s.vnodes v = some sv

section Exec

variable {L : Licence} {s₀ s : Sfs} {i : Nat} {v : Vnode}

theorem vop_spec {X : Panic → Prop} {file dir : Prog Panic Errno Sfs Unit} {Q : Except Errno Unit → Sfs → Prop}
    (hX : ∀ p, Panic.Refs p → X p) (h : Since L s₀ 0 s) (hv : s.vnodes i = some v)
    (hfile : i ≠ SFS_ROOT_LOCATION → Holds X file s Q) (hdir : i = SFS_ROOT_LOCATION → Holds X dir s Q) :
    Holds X (vop i file dir) s Q := by
  rw [vop]
  refine vnode_check_bind (hX _ vnode_check_refs) hv false (holds_bind_run (getv_run hv) ?_)
  rw [h.ops i v hv, opsOf]
  by_cases hi : i = SFS_ROOT_LOCATION
  · rw [if_pos hi]; exact hdir hi
  · rw [if_neg hi]; exact hfile hi

theorem vop_dir_spec {X : Panic → Prop} {dir : Prog Panic Errno Sfs Unit} (hX : ∀ p, Panic.Refs p → X p)
    (h : Since L s₀ 0 s) (hv : s.vnodes i = some v)
    (hdir : i = SFS_ROOT_LOCATION → Holds X dir s (Kept L s₀)) :
    Holds X (vop i (throw .ENOTDIR) dir) s (Kept L s₀) :=
  vop_spec hX h hv (fun _ => holds_throw h) hdir

theorem Holds.drop_result {X : Panic → Prop} {α : Type} {m : Prog Panic Errno Sfs α} (h : Holds X m s (Kept L s₀)) :
    Holds X (do let _ ← m) s (Kept L s₀) :=
  h.bind (fun _ _ ht => holds_pure ht) fun _ _ ht => ht

theorem VOP_FSYNC_spec (h : Since L s₀ 0 s) (hv : s.vnodes i = some v) :
    Holds Panic.Refs (VOP_FSYNC i) s (Kept L s₀) := by
  obtain ⟨s', hrun, h', -⟩ := sfs_sync_inode_run h hv
  rw [VOP_FSYNC]
  exact vnode_check_bind vnode_check_refs hv false (holds_of_run hrun h')

theorem VOP_TRUNCATE_spec (h : Since L s₀ 0 s) (hv : s.vnodes i = some v) (len : Int) :
    Holds Panic.Refs (VOP_TRUNCATE i len) s (Kept L s₀) := by
  change Holds _ (vop i (sfs_truncate i len) (throw .EISDIR)) s (Kept L s₀)
  refine vop_spec (fun _ hp => hp) h hv (fun hi => ?_) fun _ => holds_throw h
  obtain ⟨s', hrun, htrunc⟩ := sfs_truncate_run h.good (live_of_vnode hv) hv len
  exact holds_of_run hrun (h.of_file_step hi htrunc.toFileStep)

theorem sfs_lookup_spec {name : CStr} (h : Since L s₀ 0 s) (hv : s.vnodes SFS_ROOT_LOCATION = some v) :
    Holds Panic.Refs (sfs_lookup SFS_ROOT_LOCATION name) s (Kept L s₀) := by
  rw [sfs_lookup]
  refine holds_bind_run (getv_run hv) ?_
  split
  · exact holds_throw h
  · exact (sfs_lookonce_spec h hv).bind (fun _ _ ht => holds_pure ht.1) fun _ _ ht => ht.1

theorem sfs_getroot_spec (h : Since L s₀ 0 s) : Holds Panic.Refs sfs_getroot s (Kept L s₀) := by
  rw [sfs_getroot]
  refine (sfs_loadvnode_spec h (live_root s)).bind_attempt fun r t ht => ?_
  cases r with
  | ok ino => exact holds_pure ht.1
  | error e => exact holds_stop (by simp [Panic.Refs, Panic.Allowed])

theorem vnode_decopen_spec (h : Since L s₀ 0 s) (hv : s.vnodes i = some v) :
    Holds Panic.Refs (vnode_decopen i) s (Kept L s₀) := by
  have hv' : ∀ w : Vnode, (s.setVnode i (some w)).vnodes i = some w := fun w => Function.update_self _ _ _
  rw [vnode_decopen]
  refine holds_bind_run (getv_run hv) (holds_ensure_bind (.inr (by simp [Panic.Refs, Panic.Allowed])) fun _ => ?_)
  refine holds_bind_run (modv_run hv _) ?_
  have h' : Since L s₀ 0 (s.setVnode i (some { v with vn_opencount := v.vn_opencount - 1 })) :=
    h.set_refs hv rfl rfl rfl
  split
  · exact holds_pure h'
  · refine vnode_check_bind vnode_check_refs (hv' _) false ((VOP_FSYNC_spec h' (hv' _)).bind_attempt fun _ _ ht => ?_)
    exact holds_pure ht

def Op.linksRoot : Op → Bool
  | .link _ _ file => file = SFS_ROOT_LOCATION
  | _ => false

def Op.loses (s : Sfs) : Op → Bool
  | .creat dir name _ => s.creatLoses dir name
  | _ => false

theorem exec_since (h : Since L s₀ 0 s) {op : Op} (hop : op.Valid s) (hroot : op.linksRoot = true → L.root)
    (hlose : op.loses s = true → L.lose) : Holds Panic.Allowed (exec op) s (Kept L s₀) := by
  have hX : ∀ p, Panic.Refs p → p.Allowed := fun _ hp => hp.1
  have refs {α : Type} {m : Prog Panic Errno Sfs α} (hm : Holds Panic.Refs m s (Kept L s₀)) :
      Holds Panic.Allowed m s (Kept L s₀) := hm.mono (fun _ _ ht => ht) hX
  cases op with
  | creat dir name excl =>
    obtain ⟨v, hv⟩ := hop
    refine vop_dir_spec hX h hv fun hd => ?_
    subst hd
    exact refs (Holds.drop_result (sfs_creat_spec h hv excl hlose))
  | link dir name file =>
    obtain ⟨⟨v, hv⟩, w, hw⟩ := hop
    refine vop_dir_spec hX h hv fun hd => ?_
    subst hd
    exact refs (sfs_link_spec h hv hw fun hf => hroot (decide_eq_true hf))
  | remove dir name =>
    obtain ⟨v, hv⟩ := hop
    refine vop_dir_spec hX h hv fun hd => ?_
    subst hd
    exact refs (sfs_remove_spec h hv)
  | rename dir n1 n2 =>
    obtain ⟨v, hv⟩ := hop
    refine vop_dir_spec hX h hv fun hd => ?_
    subst hd
    exact sfs_rename_spec h hv hX fun _ => by simp [Panic.Allowed]
  | lookup dir path =>
    obtain ⟨v, hv⟩ := hop
    refine vop_dir_spec hX h hv fun hd => ?_
    subst hd
    exact refs (Holds.drop_result (sfs_lookup_spec h hv))
  | getroot => exact refs (Holds.drop_result (sfs_getroot_spec h))
  | read i uio =>
    obtain ⟨⟨v, hv⟩, hu, hrw⟩ := hop
    refine vop_spec hX h hv (fun _ => Holds.drop_result ?_) fun _ => holds_throw h
    refine (sfs_read_spec hu hrw h.good (live_of_vnode hv) hv).withVar ?_ ?_
    · rintro a ⟨t, u⟩ ⟨rfl, -⟩
      exact h
    · rintro e ⟨t, u⟩ ⟨rfl, -⟩
      exact h
  | write i uio =>
    obtain ⟨⟨v, hv⟩, hu, hrw⟩ := hop
    refine vop_spec hX h hv (fun hi => Holds.drop_result ?_) fun _ => holds_throw h
    refine (sfs_write_spec hu hrw h.good (live_of_vnode hv) hv).withVar ?_ ?_
    · rintro a ⟨t, u⟩ ⟨n, -, -, hw, -⟩
      exact h.of_file_step hi hw.toFileStep
    · rintro e ⟨t, u⟩ ⟨n, -, -, hw, -⟩
      exact h.of_file_step hi hw.toFileStep
  | truncate i len =>
    obtain ⟨v, hv⟩ := hop
    exact refs (VOP_TRUNCATE_spec h hv len)
  | fsync i =>
    obtain ⟨v, hv⟩ := hop
    exact refs (VOP_FSYNC_spec h hv)
  | incref i =>
    obtain ⟨v, hv⟩ := hop
    exact holds_of_run (modv_run hv _) (h.set_refs hv rfl rfl rfl)
  | decref i =>
    obtain ⟨v, hv⟩ := hop
    exact refs (vnode_decref_spec h hv)
  | incopen i =>
    obtain ⟨v, hv⟩ := hop
    exact holds_of_run (modv_run hv _) (h.set_refs hv rfl rfl rfl)
  | decopen i =>
    obtain ⟨v, hv⟩ := hop
    exact refs (vnode_decopen_spec h hv)

theorem exec_spec (h : Inv 0 s) {op : Op} (hop : op.Valid s) :
    Holds Panic.Allowed (exec op) s fun _ t => Since ⟨True, True⟩ s 0 t :=
  exec_since ⟨h, .refl s⟩ hop (fun _ => trivial) fun _ => trivial

end Exec

end Os161
