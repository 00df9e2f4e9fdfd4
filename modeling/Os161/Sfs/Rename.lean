import Os161.Sfs.Reach

/-! # `sfs_rename` is all or nothing -/

namespace Os161

open Prog Words

/-! ## The directory as a map -/

def Sfs.nameMap (s : Sfs) (n : List Byte) : Option Nat :=
  (List.range s.nentries).findSome? fun k => (s.dirent k).bind fun e => if e.2 = n then some e.1 else none

section NameMap

variable {δ : Nat → Int} {s t : Sfs} {i k : Nat} {n n1 n2 : List Byte}

theorem nameMap_eq_some (h : Inv δ s) : s.nameMap n = some i ↔ ∃ k, s.dirent k = some (i, n) := by
  rw [Sfs.nameMap]
  constructor
  · intro hf
    obtain ⟨k, -, hk⟩ := List.exists_of_findSome?_eq_some hf
    obtain ⟨e, he, hn⟩ := Option.bind_eq_some_iff.mp hk
    obtain ⟨rfl, rfl⟩ : e.2 = n ∧ e.1 = i := by simpa using hn
    exact ⟨k, he⟩
  · rintro ⟨k, hk⟩
    have hlt := (dirent_some.mp hk).1
    have hval : ((s.dirent k).bind fun e => if e.2 = n then some e.1 else none) = some i := by rw [hk]; simp
    cases hf : (List.range s.nentries).findSome?
        fun k => (s.dirent k).bind fun e => if e.2 = n then some e.1 else none with
    | none =>
      rw [List.findSome?_eq_none_iff] at hf
      rw [hf k (List.mem_range.mpr hlt)] at hval
      cases hval
    | some j =>
      -- the slot that was found has the same name
      obtain ⟨l, -, hl⟩ := List.exists_of_findSome?_eq_some hf
      obtain ⟨e, he, hn⟩ := Option.bind_eq_some_iff.mp hl
      obtain ⟨hname, rfl⟩ : e.2 = n ∧ e.1 = j := by simpa using hn
      obtain rfl := h.names k l _ _ hk he hname.symm
      rw [hk] at he
      obtain rfl := Option.some.inj he
      rfl

theorem nameMap_eq_none (h : Inv δ s) : s.nameMap n = none ↔ ∀ k i, s.dirent k ≠ some (i, n) := by
  rw [Option.eq_none_iff_forall_ne_some]
  simp only [ne_eq, nameMap_eq_some h, not_exists]
  exact forall_comm

theorem nameMap_of_dirent (h : Inv δ s) {δ' : Nat → Int} (h' : Inv δ' t) (hd : t.dirent = s.dirent) :
    t.nameMap = s.nameMap := by
  funext n
  refine Option.ext fun i => ?_
  rw [nameMap_eq_some h', nameMap_eq_some h, hd]

theorem renamed_eq_some {slot1 slot2 : Nat} {e : Nat × List Byte} (h1 : s.dirent slot1 ≠ none)
    (h2 : s.dirent slot2 = none) :
    s.renamed i slot1 slot2 n2 k = some e ↔ k = slot2 ∧ e = (i, n2) ∨ k ≠ slot1 ∧ s.dirent k = some e := by
  have hne : slot2 ≠ slot1 := fun he => h1 (he ▸ h2)
  rw [Sfs.renamed]
  by_cases hk1 : k = slot1
  · subst hk1
    simp [hne.symm]
  rw [Function.update_of_ne hk1]
  by_cases hk2 : k = slot2
  · subst hk2
    simp [h2, eq_comm]
  · simp [hk1, hk2]

theorem nameMap_renamed {δ' : Nat → Int} {slot1 slot2 : Nat} (h : Inv δ s) (h' : Inv δ' t)
    (h1 : s.dirent slot1 = some (i, n1)) (h2 : s.dirent slot2 = none) (hd : t.dirent = s.renamed i slot1 slot2 n2) :
    t.nameMap = Function.update (Function.update s.nameMap n1 none) n2 (some i) := by
  have hentry : ∀ k e, t.dirent k = some e ↔ k = slot2 ∧ e = (i, n2) ∨ k ≠ slot1 ∧ s.dirent k = some e := fun k e => by
    rw [hd, renamed_eq_some (by simp [h1]) h2]
  funext n
  by_cases hn2 : n = n2
  · subst hn2
    rw [Function.update_self]
    exact (nameMap_eq_some h').mpr ⟨slot2, (hentry _ _).mpr (.inl ⟨rfl, rfl⟩)⟩
  have hold : ∀ k j, t.dirent k = some (j, n) ↔ k ≠ slot1 ∧ s.dirent k = some (j, n) := fun k j => by
    rw [hentry, or_iff_right fun hc => hn2 (Prod.mk.inj hc.2).2]
  rw [Function.update_of_ne hn2]
  by_cases hn1 : n = n1
  · -- the slot that held the name was the only one
    subst hn1
    rw [Function.update_self, nameMap_eq_none h']
    intro k j hk
    obtain ⟨hk1, hk⟩ := (hold k j).mp hk
    exact hk1 (h.names k slot1 _ _ hk h1 rfl)
  rw [Function.update_of_ne hn1]
  refine Option.ext fun j => ?_
  rw [nameMap_eq_some h', nameMap_eq_some h]
  refine exists_congr fun k => (hold k j).trans (and_iff_right_of_imp ?_)
  rintro hk rfl
  exact hn1 (Prod.mk.inj (Option.some.inj (hk.symm.trans h1))).2

end NameMap

/-! ## Link counts -/

section Links

variable {s t : Sfs} {i : Nat} {n1 n2 : List Byte}

theorem links_renamed {slot1 slot2 : Nat} (h : Inv 0 s) (h' : Inv 0 t) (h1 : s.dirent slot1 = some (i, n1))
    (h2 : s.dirent slot2 = none) (hd : t.dirent = s.renamed i slot1 slot2 n2) (j : Nat) : t.links j = s.links j := by
  have hne : slot1 ≠ slot2 := by
    rintro rfl
    rw [h2] at h1
    cases h1
  have hlt1 : slot1 < 1144 := by
    have := (dirent_some.mp h1).1
    have := h.nentries_le
    omega
  have hlt2 : slot2 < 1144 := by
    have hcame : t.dirent slot2 = some (i, n2) := by
      rw [hd, renamed_eq_some (by simp [h1]) h2]
      exact .inl ⟨rfl, rfl⟩
    have := (dirent_some.mp hcame).1
    have := h'.nentries_le
    omega
  have hnamed : t.named = Function.update (Function.update s.named slot2 (some i)) slot1 none := by
    change Option.map Prod.fst ∘ t.dirent = _
    rw [hd, Sfs.renamed, Function.comp_update, Function.comp_update]
    rfl
  have hs1 : s.named slot1 = some i := by rw [Sfs.named, h1]; rfl
  have hs2 : s.named slot2 = none := by rw [Sfs.named, h2]; rfl
  have hcome := Table.count_update 1144 s.named hlt2 (some i) j
  have hgo := Table.count_update 1144 (Function.update s.named slot2 (some i)) hlt1 none j
  rw [Function.update_of_ne hne, hs1] at hgo
  rw [hs2] at hcome
  simp only [Sfs.links, hnamed]
  simp only [reduceCtorEq, if_false] at hcome hgo
  omega

structure SameCounts (s t : Sfs) : Prop where
  linkcount : ∀ j, s.Live j → (t.inodeOf j).sfi_linkcount = (s.inodeOf j).sfi_linkcount
  refs : t.refs = s.refs

theorem SameCounts.of_links (h : Inv 0 s) (h' : Inv 0 t) (hlinks : ∀ j, t.links j = s.links j)
    (hrefs : t.refs = s.refs) : SameCounts s t := by
  refine ⟨fun j hj => ?_, hrefs⟩
  have hj' : t.Live j := by
    rcases hj with rfl | ⟨k, hk⟩ | ⟨v, hv⟩
    · exact live_root t
    · have hpos : 0 < t.links j := by
        rw [hlinks]
        obtain ⟨e, he, -⟩ := Option.map_eq_some_iff.mp hk
        have := (dirent_some.mp he).1
        have := h.nentries_le
        exact Table.count_pos_iff.mpr ⟨k, by omega, hk⟩
      obtain ⟨l, -, hl⟩ := Table.count_pos_iff.mp hpos
      exact live_of_named hl
    · have href : t.refs j = some v.vn_refcount := by rw [hrefs, Sfs.refs, hv]; rfl
      obtain ⟨w, hw, -⟩ := Option.map_eq_some_iff.mp href
      exact live_of_vnode hw
  have hs := h.links j hj
  have ht := h'.links j hj'
  rw [hlinks] at ht
  refine UInt16.toNat_inj.mp ?_
  omega

end Links

/-! ## The reference -/

section Decref

variable {L : Licence} {s₀ s : Sfs} {i : Nat} {v : Vnode}

theorem sfs_reclaim_last_linked (h : Since L s₀ 0 s) (hv : s.vnodes i = some v) (hi : i ≠ SFS_ROOT_LOCATION)
    (hlink : v.sv_i.sfi_linkcount ≠ 0) (href : v.vn_refcount = 1) (hopen : v.vn_opencount = 0) :
    ∃ t, sfs_reclaim_last i s = .ok (.ok (), t) ∧ t.dirent = s.dirent ∧ t.refs = Function.update s.refs i none := by
  have herase : sfs_reclaim_erase i s = .ok (.ok (), s) := by
    rw [sfs_reclaim_erase, bind_ok (getv_run hv), if_neg hlink]
    rfl
  obtain ⟨s₂, hsync, h₂, hfiles, -, -, hvn⟩ := sfs_sync_inode_run h hv
  have hv₂ : s₂.vnodes i = some { v with sv_dirty := false } := by rw [hvn, Function.update_self]
  have hdiscard : sfs_reclaim_discard i s₂ = .ok (.ok (), s₂) := by
    rw [sfs_reclaim_discard, bind_ok (getv_run hv₂)]
    exact congrFun (if_neg hlink) s₂
  obtain ⟨_, t, hrun, rfl, -, a, ht, -⟩ := (sfs_reclaim_remove_spec (X := fun _ => False) hv₂ h₂.nodup
    ((h₂.table i).mpr ⟨_, hv₂⟩) (.inl ⟨href, hopen⟩)).exists
  refine ⟨t, ?_, ?_, ?_⟩
  · rw [sfs_reclaim_last, bind_ok herase, bind_ok hsync, bind_ok hdiscard, hrun]
  · rw [ht, dirent_set_file hi, ← hfiles.dirent]
    exact (dirent_same_blocks rfl rfl).1
  · have hvn' : t.vnodes = Function.update s.vnodes i none := by
      rw [ht, setVnode_vnodes, hvn, Function.update_idem]
    exact refs_of_update hvn'

theorem vnode_decref_linked (h : Since L s₀ 0 s) (hv : s.vnodes i = some v) (hi : i ≠ SFS_ROOT_LOCATION)
    (hlink : v.sv_i.sfi_linkcount ≠ 0) (href : 1 < v.vn_refcount ∨ v.vn_refcount = 1 ∧ v.vn_opencount = 0) :
    ∃ t, vnode_decref i s = .ok (.ok (), t) ∧ t.dirent = s.dirent ∧
      t.refs = Function.update s.refs i (if 1 < v.vn_refcount then some (v.vn_refcount - 1) else none) := by
  rw [vnode_decref, bind_ok (getv_run hv), bind_ok (ensure_run _ _ _ (by omega))]
  by_cases h1 : 1 < v.vn_refcount
  · refine ⟨_, (congrFun (if_pos h1) s).trans (modv_run hv _), dirent_set_file hi _, ?_⟩
    rw [refs_of_update (setVnode_vnodes _ i _), if_pos h1]
    rfl
  · obtain ⟨h1', hopen⟩ := href.resolve_left h1
    obtain ⟨t, hrun, hdir, hrefs⟩ := sfs_reclaim_last_linked h hv hi hlink h1' hopen
    refine ⟨t, (congrFun (if_neg h1) s).trans ?_, hdir, by rw [hrefs, if_neg h1]⟩
    have hcheck : vnode_check i true s = .ok (.ok (), s) := by
      rw [vnode_check, bind_ok (getv_run hv), bind_ok (ensure_run _ _ _ (by omega)),
        bind_ok (ensure_run _ _ _ (by simp)), ensure_run _ _ _ (by omega)]
    have hreclaim : sfs_reclaim i s = .ok (.ok (), t) := by
      rw [sfs_reclaim, bind_ok (getv_run hv)]
      exact (congrFun (if_neg (by omega)) s).trans hrun
    rw [bind_ok hcheck, bind_ok (attempt_ok hreclaim)]
    rfl

theorem Renaming.decref {t : Sfs} {n1 n2 : CStr} {r : Except Errno Unit} (hr : Renaming L s₀ s n1 n2 i r t)
    (hrefs : ∀ w, s.vnodes i = some w → 0 < w.vn_refcount ∧ w.vn_refcount < 2 ^ 31 - 1) :
    ∃ t', vnode_decref i t = .ok (.ok (), t') ∧ Since L s₀ 0 t' ∧ t'.dirent = t.dirent ∧ t'.refs = s.refs := by
  obtain ⟨w, hw⟩ := hr.loaded
  have hlink : w.sv_i.sfi_linkcount ≠ 0 := (hr.since.linked_iff hw).mp (.inr hr.linked)
  have hcount : w.vn_refcount = toI32 ((s.refs i).getD 0 + 1) := by
    have := congrFun hr.taken.refs i
    rw [Function.update_self, Sfs.refs, hw] at this
    exact Option.some.inj this
  have hback : (1 < w.vn_refcount ∨ w.vn_refcount = 1 ∧ w.vn_opencount = 0) ∧
      (if 1 < w.vn_refcount then some (w.vn_refcount - 1) else none) = s.refs i := by
    cases hv : s.vnodes i with
    | none =>
      have h1 : w.vn_refcount = 1 := by rw [hcount, Sfs.refs, hv]; rfl
      refine ⟨.inr ⟨h1, hr.taken.opencount hv w hw⟩, ?_⟩
      rw [if_neg (by omega), Sfs.refs, hv]
      rfl
    | some w₀ =>
      obtain ⟨hpos, hmax⟩ := hrefs w₀ hv
      have h1 : w.vn_refcount = w₀.vn_refcount + 1 := by
        rw [hcount, Sfs.refs, hv]
        exact toI32_of_small (by simp; omega) (by simp; omega)
      refine ⟨.inl (by omega), ?_⟩
      rw [if_pos (by omega), h1, Sfs.refs, hv, add_sub_cancel_right]
      rfl
  obtain ⟨t', hrun, hdir, hrefs'⟩ := vnode_decref_linked hr.since hw hr.file hlink hback.1
  refine ⟨t', hrun, (vnode_decref_spec hr.since hw).post hrun, hdir, ?_⟩
  rw [hrefs', hback.2, hr.taken.refs, Function.update_idem, Function.update_eq_self]

end Decref

/-! ## The whole call -/

section Rename

variable {s : Sfs} {v : Vnode}

structure RenamePost (s : Sfs) (n1 n2 : List Byte) (r : Except Errno Unit) (t : Sfs) : Prop extends SameCounts s t where
  moved : r = .ok () → ∃ i, s.nameMap n1 = some i ∧ s.nameMap n2 = none ∧
    t.nameMap = Function.update (Function.update s.nameMap n1 none) n2 (some i)
  failed : ∀ e, r = .error e → t.nameMap = s.nameMap

theorem RenamePost.of_error {n1 n2 : List Byte} {e : Errno} {t : Sfs} (h : Inv 0 s) (h' : Inv 0 t)
    (hd : t.dirent = s.dirent) (hrefs : t.refs = s.refs) : RenamePost s n1 n2 (.error e) t where
  toSameCounts := .of_links h h' (fun j => by rw [Sfs.links, named_of_dirent hd, Sfs.links]) hrefs
  moved hr := by cases hr
  failed _ _ := nameMap_of_dirent h h' hd

/-- Without an error of the device, `sfs_rename` moves one name to another or changes no name, and no count either
way. It stops only on a name of the root directory itself. -/
theorem rename_all_or_nothing (h : Inv 0 s) (hv : s.vnodes SFS_ROOT_LOCATION = some v)
    (hrefs : ∀ j w, s.vnodes j = some w → 0 < w.vn_refcount ∧ w.vn_refcount < 2 ^ 31 - 1) (n1 n2 : CStr) :
    Holds (fun p => p = .rename_type ∧ s.nameMap n1.chars = some SFS_ROOT_LOCATION)
      (sfs_rename SFS_ROOT_LOCATION n1 n2) s (RenamePost s n1.chars n2.chars) := by
  have h₀ : Since ⟨True, True⟩ s 0 s := ⟨h, .refl s⟩
  refine sfs_rename_walk h₀ hv ?_ ?_ ?_ ?_
  · exact fun hroot => ⟨rfl, (nameMap_eq_some h).mpr hroot⟩
  · intro e t ht hloads href
    exact .of_error h ht.toInv hloads.dirent href
  · intro e g1 t ht
    obtain ⟨t', hrun, ht', hd, href⟩ := ht.decref (hrefs g1)
    exact holds_of_run (bind_ok hrun) (.of_error h ht'.toInv (hd.trans (ht.failed e rfl)) href)
  · intro g1 t ht
    obtain ⟨t', hrun, ht', hd, href⟩ := ht.decref (hrefs g1)
    obtain ⟨hnew, slot1, slot2, h1, h2, hdir⟩ := ht.moved rfl
    refine holds_of_run hrun ⟨.of_links h ht'.toInv (links_renamed h ht'.toInv h1 h2 (hd.trans hdir)) href, ?_, by simp⟩
    refine fun _ => ⟨g1, (nameMap_eq_some h).mpr ⟨slot1, h1⟩, ?_, nameMap_renamed h ht'.toInv h1 h2 (hd.trans hdir)⟩
    exact (nameMap_eq_none h).mpr fun k i hk => hnew k _ hk rfl

theorem rename_all_or_nothing_new_file : ∃ s t, Reach s ∧
    sfs_rename SFS_ROOT_LOCATION (.ofBytes [0x61]) (.ofBytes [0x62]) s = .ok (.ok (), t) ∧
    s.nameMap [0x61] = some 3 ∧ t.nameMap [0x61] = none ∧ t.nameMap [0x62] = some 3 ∧ t.refs = s.refs := by
  obtain ⟨s, hs, hc⟩ := reach_runFresh [.getroot, .creat 1 (.ofBytes [0x61]) false]
    (fun s => (s.vnodes 1).isSome && decide (s.nameMap [0x61] = some 3) &&
      s.sfs_vnodes.toList.all (fun j => (s.vnodes j).all fun w : Vnode =>
        decide (0 < w.vn_refcount ∧ w.vn_refcount < 2 ^ 31 - 1)) &&
      ends (sfs_rename 1 (.ofBytes [0x61]) (.ofBytes [0x62]) s) fun r _ => decide (r = .ok ())) (by decide +kernel)
  simp only [ends_iff, Bool.and_eq_true, decide_eq_true_eq, List.all_eq_true] at hc
  obtain ⟨⟨⟨hroot, hold⟩, hrefs⟩, _, t, hrun, rfl⟩ := hc
  obtain ⟨v, hv⟩ := Option.isSome_iff_exists.mp hroot
  have hpost := (rename_all_or_nothing hs.inv hv (fun j w hw => by
    have := hrefs j ((hs.inv.table j).mpr ⟨w, hw⟩)
    rwa [hw, Option.all_some, decide_eq_true_eq] at this) _ _).post hrun
  obtain ⟨i, hi, -, hmap⟩ := hpost.moved rfl
  obtain rfl : i = 3 := Option.some.inj (hi.symm.trans hold)
  refine ⟨s, t, hs, hrun, hold, ?_, ?_, hpost.refs⟩
  · rw [hmap]
    rfl
  · rw [hmap]
    rfl

end Rename

end Os161
