import Mathlib.Data.List.Nodup
import Mathlib.Order.BooleanAlgebra.Set
import Os161.Sfs.Vnodes

/-! # Loading and reclaiming vnodes

`vnode_decref` with `sfs_reclaim`, `sfs_loadvnode` and `sfs_makeobj` keep the invariant.
-/

namespace Os161

open Prog Words

/-- The assertions on references and open counts, which depend on what the callers do, and the
panics with which the code gives up on an error. -/
def Panic.Allowed (p : Panic) : Prop :=
  p ∈ [Panic.vnode_check, .vnode_kill, .vnode_decref, .vnode_decopen, .reclaim_refcount, .rename_type,
    .rename_recover, .getroot]

def Panic.Refs (p : Panic) : Prop := p.Allowed ∧ p ≠ .rename_type

section Refs

variable {L : Licence} {δ : Nat → Int} {s₀ s : Sfs} {i : Nat} {v : Vnode}

theorem vnode_check_refs : Panic.vnode_check.Refs := by simp [Panic.Refs, Panic.Allowed]

theorem vnode_kill_refs : Panic.vnode_kill.Refs := by simp [Panic.Refs, Panic.Allowed]

theorem vnode_check_bind {X : Panic → Prop} {α : Type} {Q : Except Errno α → Sfs → Prop}
    {f : Unit → Prog Panic Errno Sfs α} (hx : X .vnode_check) (hv : s.vnodes i = some v) (reclaim : Bool)
    (hf : Holds X (f ()) s Q) : Holds X (vnode_check i reclaim >>= f) s Q := by
  have hcheck : Holds X (vnode_check i reclaim) s fun r t => r = .ok () ∧ t = s := by
    rw [vnode_check]
    refine holds_bind_run (getv_run hv) (holds_ensure_bind (.inr hx) fun _ => ?_)
    exact holds_ensure_bind (.inr hx) fun _ => holds_ensure (.inr hx) fun _ => ⟨rfl, rfl⟩
  exact hcheck.bind (fun _ _ ⟨_, ht⟩ => ht ▸ hf) fun _ _ h => nomatch h.1

end Refs

/-! ## Reclaiming -/

section Reclaim

variable {L : Licence} {s₀ s : Sfs} {i : Nat} {v : Vnode}

theorem sfs_reclaim_remove_spec {X : Panic → Prop} (hv : s.vnodes i = some v) (hnodup : s.sfs_vnodes.toList.Nodup)
    (hmem : i ∈ s.sfs_vnodes.toList) (hx : v.vn_refcount = 1 ∧ v.vn_opencount = 0 ∨ X .vnode_kill) :
    Holds X (sfs_reclaim_remove i) s fun r t =>
      r = .ok () ∧ (v.vn_refcount = 1 ∧ v.vn_opencount = 0) ∧ ∃ a, t = { s with sfs_vnodes := a }.setVnode i none ∧
        a.toList.Nodup ∧ ∀ j, j ∈ a.toList ↔ j ∈ s.sfs_vnodes.toList ∧ j ≠ i := by
  rw [sfs_reclaim_remove]
  refine holds_bind_run (get_run s) ?_
  obtain ⟨n, hn, hni⟩ := List.getElem_of_mem hmem
  have hguy : ∀ ix : Fin s.sfs_vnodes.num, s.sfs_vnodes.toList[ix.val]? = some (array_getguy s.sfs_vnodes ix) := by
    intro ix
    rw [KArray.getElem?_toList, if_pos ix.isLt]
    rfl
  cases hfind : (List.finRange s.sfs_vnodes.num).find? fun ix => array_getguy s.sfs_vnodes ix = i with
  | none =>
    have hlt : n < s.sfs_vnodes.num := by simpa using hn
    have := List.find?_eq_none.mp hfind ⟨n, hlt⟩ (List.mem_finRange _)
    have hg := hguy ⟨n, hlt⟩
    rw [List.getElem?_eq_getElem hn, hni] at hg
    simp [← Option.some.inj hg] at this
  | some ix =>
    have hix : array_getguy s.sfs_vnodes ix = i := by simpa using List.find?_some hfind
    dsimp only
    refine holds_bind_run (set_run _ _) ?_
    have hlt : ix.val < s.sfs_vnodes.toList.length := by simp
    have hat : s.sfs_vnodes.toList[ix.val] = i := by
      have := hguy ix
      rw [List.getElem?_eq_getElem hlt, hix] at this
      exact Option.some.inj this
    have hkill : Holds X (vnode_kill i) { s with sfs_vnodes := array_remove s.sfs_vnodes ix }
        fun r t => r = .ok () ∧ (v.vn_refcount = 1 ∧ v.vn_opencount = 0) ∧
          t = { s with sfs_vnodes := array_remove s.sfs_vnodes ix } := by
      rw [vnode_kill]
      refine holds_bind_run (a := v) (getv_run hv) ?_
      exact holds_ensure hx fun hlast => ⟨rfl, hlast, rfl⟩
    refine hkill.bind ?_ fun _ _ hr => nomatch hr.1
    · rintro - t ⟨-, hlast, rfl⟩
      refine holds_of_run (modify_run _ _) ⟨rfl, hlast, array_remove s.sfs_vnodes ix, rfl, ?_, fun j => ?_⟩
      · rw [array_remove_toList]
        exact hnodup.sublist (List.eraseIdx_sublist _ _)
      · rw [array_remove_toList, ← List.Nodup.erase_getElem hnodup _ hlt, hat, hnodup.mem_erase_iff]
        exact and_comm

def Sfs.counts (s : Sfs) (j : Nat) : Option (Int × Int) :=
  (s.vnodes j).map fun v => (v.vn_refcount, v.vn_opencount)

theorem counts_some (hv : s.vnodes i = some v) : s.counts i = some (v.vn_refcount, v.vn_opencount) := by
  rw [Sfs.counts, hv]
  rfl

theorem counts_of_update {t : Sfs} {w : Option Vnode} (h : t.vnodes = Function.update s.vnodes i w) :
    t.counts = Function.update s.counts i (w.map fun v => (v.vn_refcount, v.vn_opencount)) := by
  unfold Sfs.counts
  rw [h]
  exact Function.comp_update (Option.map _) s.vnodes i w

theorem FileStep.counts {t : Sfs} {I : Set Nat} (hs : FileStep I i s t) : t.counts = s.counts := by
  obtain ⟨v, v', hv, hv', hsame⟩ := hs.vnode
  funext j
  by_cases hj : j = i
  · subst hj
    rw [counts_some hv, counts_some hv', hsame.refcount, hsame.opencount]
  · rw [Sfs.counts, Sfs.counts, hs.vnodes j hj]

theorem loaded_iff_counts : (∃ w, s.vnodes i = some w) ↔ s.counts i ≠ none := by
  rw [Sfs.counts, ne_eq, Option.map_eq_none_iff, ← ne_eq, Option.ne_none_iff_exists']

theorem live_of_same {t : Sfs} (hd : t.dirent = s.dirent) (hc : t.counts = s.counts) : t.Live i ↔ s.Live i := by
  rw [Sfs.Live, Sfs.Live, loaded_iff_counts, loaded_iff_counts, hc, named_of_dirent hd]

def Sfs.Linked (s : Sfs) (i : Nat) : Prop := i = SFS_ROOT_LOCATION ∨ ∃ k, s.named k = some i

theorem Since.of_remove {δ : Nat → Int} {s' : Sfs} (h : Since L s₀ δ s) (hv : s.vnodes i = some v)
    (hd : v.sv_dirty = false) (hsect : s'.sect = s.sect) (hV : s'.Volume) (hframe : Frame s s')
    (hvn : s'.vnodes = Function.update s.vnodes i none) (hsub : s'.used ⊆ s.used)
    (hused : ∀ b ∈ s.used, (b = i → s.Linked i) → b ∈ s'.used)
    (hgone : ¬ s.Linked i → i ∉ s'.used ∧ ∀ k, k ≠ .inode → s.ref i k = 0)
    (hnodup : s'.sfs_vnodes.toList.Nodup)
    (hmem : ∀ j, j ∈ s'.sfs_vnodes.toList ↔ j ∈ s.sfs_vnodes.toList ∧ j ≠ i) : Since L s₀ δ s' := by
  have hother : ∀ j, j ≠ i → s'.vnodes j = s.vnodes j := fun j hj => by rw [hvn, Function.update_of_ne hj]
  have hnone : s'.vnodes i = none := by rw [hvn, Function.update_self]
  have hino : ∀ j, s'.inodeOf j = s.inodeOf j := by
    intro j
    by_cases hj : j = i
    · subst hj
      rw [inodeOf_some hv, inodeOf_none hnone, hsect, h.clean j v hv hd]
    · rw [Sfs.inodeOf, Sfs.inodeOf, hother j hj, hsect]
  have hnamed := named_of_dirent (dirent_same_blocks hsect (hino _)).1
  have hloaded : ∀ j w, s'.vnodes j = some w → j ≠ i ∧ s.vnodes j = some w := by
    intro j w hw
    have hj : j ≠ i := by
      rintro rfl
      rw [hnone] at hw
      cases hw
    exact ⟨hj, hother j hj ▸ hw⟩
  have hlive : ∀ j, s.Live j → j ≠ i ∨ s.Linked i → s'.Live j := by
    rintro j (hj | ⟨k, hk⟩ | ⟨w, hw⟩) hor
    · exact .inl hj
    · exact live_of_named (hnamed ▸ hk)
    · by_cases hj : j = i
      · subst hj
        rcases hor.resolve_left (not_not_intro rfl) with hr | ⟨k, hk⟩
        · exact .inl hr
        · exact live_of_named (hnamed ▸ hk)
      · exact live_of_vnode ((hother j hj).trans hw)
  have hchange : Change L s s' := by
    refine ⟨hframe, fun hk => .inr (hnamed ▸ hk), fun htight => .inr fun b hb => ?_⟩
    obtain ⟨j, k, hj, rfl⟩ := htight b (hsub hb)
    refine ⟨j, k, hlive j hj ?_, by rw [ref_same_blocks hsect (hino j)]⟩
    by_contra! hc
    obtain ⟨rfl, hunl⟩ := hc
    obtain ⟨hfree, hzero⟩ := hgone hunl
    by_cases hk : k = .inode
    · subst hk
      exact hfree hb
    · exact not_mem_used_zero (hzero k hk ▸ hb)
  refine ⟨h.of_same_blocks hsect hV (fun j w hw => live_of_vnode (hloaded j w hw).2) (fun j _ _ => hino j) ?_
    hnodup (fun j => ?_) (fun j w hw => h.clean j w (hloaded j w hw).2)
    (fun j w hw => h.ops j w (hloaded j w hw).2), h.change.trans hchange⟩
  · intro j hj hj' k h0
    refine hused _ (h.good.holding.mem j hj k h0) fun he => ?_
    obtain ⟨rfl, -⟩ := h.good.holding.inj j hj i (live_of_vnode hv) k .inode h0 he
    rcases hj' with hr | ⟨k', hk'⟩ | ⟨w, hw⟩
    · exact Or.inl hr
    · exact Or.inr ⟨k', hnamed ▸ hk'⟩
    · exact absurd rfl (hloaded j w hw).1
  · rw [hmem, h.table]
    constructor
    · rintro ⟨⟨w, hw⟩, hj⟩
      exact ⟨w, (hother j hj).trans hw⟩
    · rintro ⟨w, hw⟩
      exact ⟨⟨w, (hloaded j w hw).2⟩, (hloaded j w hw).1⟩

theorem Inv.linked_iff (h : Inv 0 s) (hv : s.vnodes i = some v) :
    s.Linked i ↔ v.sv_i.sfi_linkcount ≠ 0 := by
  have hl := h.links i (live_of_vnode hv)
  rw [inodeOf_some hv, Pi.zero_apply, ownLinks] at hl
  have h0 : v.sv_i.sfi_linkcount = 0 ↔ v.sv_i.sfi_linkcount.toNat = 0 := (UInt16.toNat_inj (b := 0)).symm
  rw [Sfs.Linked, ne_eq, h0]
  constructor
  · rintro (rfl | ⟨k, hk⟩)
    · rw [if_pos rfl] at hl
      omega
    · have := h.links_pos hk
      split at hl <;> omega
  · intro hne
    by_cases hr : i = SFS_ROOT_LOCATION
    · exact .inl hr
    · rw [if_neg hr] at hl
      obtain ⟨k, -, hk⟩ := Table.count_pos_iff.mp (show 0 < s.links i by omega)
      exact .inr ⟨k, hk⟩

def Sfs.spared (s : Sfs) (i : Nat) : Set Nat := {j | s.Live j ∧ (j = i → s.Linked i)}

theorem sfs_reclaim_erase_spec (h : Since L s₀ 0 s) (hv : s.vnodes i = some v) :
    Holds Panic.Refs (sfs_reclaim_erase i) s fun r t =>
      r = .ok () ∧ Since L s₀ 0 t ∧ Intact (s.spared i) s t ∧ t.counts = s.counts ∧ ∃ v', t.vnodes i = some v' ∧
        (v'.sv_i.sfi_linkcount = 0 → ∀ k, k ≠ .inode → t.ref i k = 0) := by
  rw [sfs_reclaim_erase]
  refine holds_bind_run (getv_run hv) ?_
  split
  · rename_i h0
    have hunl : ¬ s.Linked i := fun hl => (h.linked_iff hv).mp hl h0
    have hroot : i ≠ SFS_ROOT_LOCATION := fun hr => hunl (.inl hr)
    have hops : v.vn_ops = .fileops := by rw [h.ops i v hv, opsOf, if_neg hroot]
    rw [VOP_TRUNCATE]
    refine vnode_check_bind vnode_check_refs hv false (holds_bind_run (getv_run hv) ?_)
    rw [hops]
    obtain ⟨s', hrun, htrunc⟩ := sfs_truncate_run h.good (live_of_vnode hv) hv 0
    obtain ⟨-, v', -, hv', -⟩ := htrunc.vnode
    refine holds_of_run hrun ⟨rfl, h.of_file_step hroot htrunc.toFileStep, (htrunc.intact hroot).mono ?_,
      htrunc.counts, v', hv', fun _ => htrunc.empty⟩
    exact fun j hj => ⟨hj.1, fun he => hunl (hj.2 he)⟩
  · rename_i h0
    exact holds_pure ⟨rfl, h, .refl _ s, rfl, v, hv, fun hc => absurd hc h0⟩

theorem sfs_reclaim_discard_run (h : Inv 0 s) (hv : s.vnodes i = some v) :
    ∃ s', sfs_reclaim_discard i s = .ok (.ok (), s') ∧ SameVolume s s' ∧ s'.Volume ∧ s'.vnodes = s.vnodes ∧
      s'.sect = s.sect ∧ s'.used ⊆ s.used ∧ (∀ b ∈ s.used, (b = i → s.Linked i) → b ∈ s'.used) ∧
      (¬ s.Linked i → i ∉ s'.used) := by
  have hlinked := h.linked_iff hv
  rw [sfs_reclaim_discard, bind_ok (getv_run hv)]
  split
  · rename_i h0
    obtain ⟨s', hfree, hb⟩ := sfs_bfree_run h.good.volume (h.mem_used (live_of_vnode hv))
    refine ⟨s', hfree, hb.same, hb.volume, hb.vnodes, hb.sect, ?_, fun b hbu hbi => ?_, fun _ => ?_⟩
    · rw [hb.used]
      exact fun _ hc => hc.1
    · rw [hb.used]
      exact ⟨hbu, fun he => hlinked.mp (hbi he) h0⟩
    · rw [hb.used]
      exact fun hc => hc.2 rfl
  · rename_i h0
    exact ⟨s, rfl, .refl s, h.good.volume, rfl, rfl, Set.Subset.refl _, fun b hb _ => hb,
      fun hc => absurd (hlinked.mpr h0) hc⟩

structure Reclaimed (s : Sfs) (i : Nat) (v : Vnode) (t : Sfs) : Prop where
  last : v.vn_refcount = 1 ∧ v.vn_opencount = 0
  counts : t.counts = Function.update s.counts i none
  intact : Intact (s.spared i) s t

theorem sfs_reclaim_last_walk (h : Since L s₀ 0 s) (hv : s.vnodes i = some v) :
    Holds Panic.Refs (sfs_reclaim_last i) s fun r t => r = .ok () ∧ Since L s₀ 0 t ∧ Reclaimed s i v t := by
  rw [sfs_reclaim_last]
  refine (sfs_reclaim_erase_spec h hv).bind ?_ fun _ _ hr => nomatch hr.1
  rintro - s₁ ⟨-, h₁, hint₁, hcounts, v₁, hv₁, hzero⟩
  obtain ⟨s₂, hsync, h₂, hfiles, -, -, hvn⟩ := sfs_sync_inode_run h₁ hv₁
  have hv₂ : s₂.vnodes i = some { v₁ with sv_dirty := false } := by rw [hvn, Function.update_self]
  obtain ⟨s₃, hfree, hsame, hV, hvn₃, hsect, hsub, hused, hgone⟩ := sfs_reclaim_discard_run h₂.toInv hv₂
  refine holds_bind_run hsync (holds_bind_run hfree ?_)
  refine (sfs_reclaim_remove_spec (hvn₃ ▸ hv₂) (hsame.table ▸ h₂.nodup)
    (hsame.table ▸ (h₂.table i).mpr ⟨_, hv₂⟩) (.inr vnode_kill_refs)).imp ?_
  rintro r t ⟨hr, hlast, a, rfl, hnodup, ha⟩
  have hframe : Frame s₂ ({ s₃ with sfs_vnodes := a }.setVnode i none) :=
    hsame.toFrame.trans ⟨rfl, rfl, fun _ _ => rfl, .inr ⟨rfl, rfl⟩⟩
  have hvt : ({ s₃ with sfs_vnodes := a }.setVnode i none).vnodes = Function.update s₂.vnodes i none := by
    rw [← hvn₃]
    rfl
  refine ⟨hr, h₂.of_remove hv₂ rfl hsect ((hV.withTable a _).setVnode i none) hframe hvt hsub hused
    (fun hunl => ⟨hgone hunl, fun k hk => ?_⟩) hnodup (hsame.table ▸ ha), ?_, ?_, ?_⟩
  · rw [hfiles.ref i (live_of_vnode hv₁)]
    exact hzero (not_not.mp (mt (h₂.linked_iff hv₂).mpr hunl)) k hk
  · have hc := congrFun hcounts i
    rw [counts_some hv, counts_some hv₁] at hc
    obtain ⟨href, hopen⟩ := Prod.mk.inj (Option.some.inj hc)
    exact ⟨href ▸ hlast.1, hopen ▸ hlast.2⟩
  · rw [counts_of_update (w := none) (i := i) (s := s₁) (by rw [hvt, hvn, Function.update_idem]), hcounts]
    rfl
  · -- the inode of the vnode that goes is the one on disk
    have hino : ∀ j, ({ s₃ with sfs_vnodes := a }.setVnode i none).inodeOf j = s₂.inodeOf j := by
      intro j
      by_cases hj : j = i
      · subst hj
        rw [inodeOf_none (by rw [hvt, Function.update_self]), inodeOf_some hv₂, ← h₂.clean j _ hv₂ rfl]
        exact congrArg Inode.decode (congrFun hsect j)
      · exact inodeOf_congr (by rw [hvt, Function.update_of_ne hj]) (congrFun hsect j)
    refine hint₁.trans ((hfiles.intact.mono ?_).trans (.of_same_blocks hsect hino))
    exact fun j hj => (live_of_same hint₁.dirent hcounts).mpr hj.1

inductive Dropping (s : Sfs) (i : Nat) (v : Vnode) (t : Sfs) : Prop
  | fewer (h : 1 < v.vn_refcount)
    (ht : t = s.setVnode i (some { v with vn_refcount := v.vn_refcount - 1 })) : Dropping s i v t
  | last (h : Reclaimed s i v t) : Dropping s i v t

theorem vnode_decref_walk (h : Since L s₀ 0 s) (hv : s.vnodes i = some v) :
    Holds Panic.Refs (vnode_decref i) s fun r t => r = .ok () ∧ Since L s₀ 0 t ∧ Dropping s i v t := by
  have hx : Panic.vnode_decref.Refs := by simp [Panic.Refs, Panic.Allowed]
  rw [vnode_decref]
  refine holds_bind_run (getv_run hv) (holds_ensure_bind (.inr hx) fun hpos => ?_)
  split
  · rename_i h1
    exact holds_of_run (modv_run hv _) ⟨rfl, h.set_refs hv rfl rfl rfl, .fewer h1 rfl⟩
  · rename_i h1
    have hlast : Holds Panic.Refs (sfs_reclaim i) s fun r t => r = .ok () ∧ Since L s₀ 0 t ∧ Reclaimed s i v t := by
      rw [sfs_reclaim]
      refine holds_bind_run (getv_run hv) ?_
      rw [if_neg (by omega)]
      exact sfs_reclaim_last_walk h hv
    refine vnode_check_bind vnode_check_refs hv true (hlast.bind_attempt ?_)
    rintro _ t ⟨-, ht, hr⟩
    exact holds_pure ⟨rfl, ht, .last hr⟩

theorem vnode_decref_spec (h : Since L s₀ 0 s) (hv : s.vnodes i = some v) :
    Holds Panic.Refs (vnode_decref i) s fun _ t => Since L s₀ 0 t :=
  (vnode_decref_walk h hv).imp fun _ _ ht => ht.2.1

end Reclaim

/-! ## Loading -/

section Load

variable {L : Licence} {δ : Nat → Int} {s₀ s : Sfs} {i : Nat} {v : Vnode}

theorem Inv.bused (h : Inv δ s) (hi : s.Live i) : sfs_bused i s = .ok (.ok true, s) := by
  have hu := h.mem_used hi
  rw [sfs_bused_run (used_lt hu), (isset_iff _ _).mpr hu.2.1]

theorem Inv.live_of_table (h : Inv δ s) : ∀ j ∈ s.sfs_vnodes.toList, s.Live j := by
  intro j hj
  obtain ⟨v, hv⟩ := (h.table j).mp hj
  exact live_of_vnode hv

theorem Inv.not_mem_table (h : Inv δ s) (hnone : s.vnodes i = none) : i ∉ s.sfs_vnodes.toList := by
  rw [h.table, hnone]
  simp

theorem Inv.table_add (h : Inv δ s) (hnone : s.vnodes i = none) {a : KArray Nat}
    (ha : a.toList = s.sfs_vnodes.toList ++ [i]) (v : Vnode) :
    a.toList.Nodup ∧ ∀ j, j ∈ a.toList ↔ ∃ w, Function.update s.vnodes i (some v) j = some w := by
  have hnot := h.not_mem_table hnone
  rw [ha]
  refine ⟨h.nodup.append (List.nodup_singleton i) (by simpa using hnot), fun j => ?_⟩
  rw [List.mem_append, List.mem_singleton, h.table]
  by_cases hj : j = i
  · simp [hj]
  · simp [hj]

theorem sfs_loadvnode_search_run (h : Inv δ s) (forcetype : UInt16) {l : List Nat}
    (hl : ∀ j ∈ l, s.Live j) (hf : i ∈ l → forcetype = SFS_TYPE_INVAL) :
    sfs_loadvnode_search i forcetype l s =
      if i ∈ l then (do vnode_incref i; return true) s else .ok (.ok false, s) := by
  induction l with
  | nil => rfl
  | cons j l ih =>
    rw [sfs_loadvnode_search, bind_ok (h.bused (hl j List.mem_cons_self)), bind_ok (ensure_run _ _ _ rfl)]
    by_cases hj : j = i
    · subst hj
      rw [if_pos rfl, bind_ok (ensure_run _ _ _ (hf List.mem_cons_self)), if_pos List.mem_cons_self]
    · have hm : i ∈ j :: l ↔ i ∈ l := by simp [Ne.symm hj]
      rw [if_neg hj, ih (fun k hk => hl k (List.mem_cons_of_mem _ hk)) (fun hi => hf (hm.mpr hi))]
      simp only [hm]

theorem alloc_run {α : Type} (m : Alloc α) (s : Sfs) :
    alloc m s = .ok (.ok (m s.heap).1, { s with heap := (m s.heap).2 }) := rfl

theorem alloc_run_nil {α : Type} {m : Alloc α} {a : α} (hheap : s.heap = []) (hm : m [] = (a, [])) :
    alloc m s = .ok (.ok a, s) := by
  rw [alloc_run, hheap, hm]
  cases s
  cases hheap
  rfl

theorem Inv.with_heap (h : Inv δ s) (heap : Heap) : Inv δ { s with heap := heap } :=
  h.of_same_blocks rfl (h.good.volume.withTable s.sfs_vnodes heap) (fun _ _ hv => live_of_vnode hv)
    (fun _ _ _ => rfl) (fun j hj _ k h0 => h.good.holding.mem j hj k h0) h.nodup h.table h.clean h.ops

theorem sfs_loadvnode_first_run (ops : VnodeOps) (hV : s.Volume) (hu : i ∈ s.used) (hheap : s.heap = [])
    (htable : s.sfs_vnodes = array_create)
    (hops : sfs_loadvnode_ops (Inode.decode (s.sect i)).sfi_type s = .ok (.ok ops, s)) :
    ∃ a, sfs_loadvnode i SFS_TYPE_INVAL s = .ok (.ok i,
      { s with sfs_vnodes := a }.setVnode i (some ⟨ops, 1, 0, Inode.decode (s.sect i), false⟩)) := by
  obtain ⟨a, ha⟩ : ∃ a, array_add s.sfs_vnodes i [] = (.ok a, []) := by
    rw [htable]
    exact ⟨_, rfl⟩
  have hsearch : sfs_loadvnode_search i SFS_TYPE_INVAL s.sfs_vnodes.toList s = .ok (.ok false, s) := by
    rw [htable]
    rfl
  have hdec : Inode.decode (fun q => if q < 512 then s.sect i q else 0) = Inode.decode (s.sect i) :=
    Inode.decode_congr fun q hq => if_pos hq
  have hused : sfs_bused i s = .ok (.ok true, s) := by
    rw [sfs_bused_run (used_lt hu), (isset_iff _ _).mpr hu.2.1]
  have hkmalloc : alloc kmalloc s = .ok (.ok true, s) := alloc_run_nil hheap rfl
  have hlock : alloc lock_create s = .ok (.ok true, s) := alloc_run_nil hheap rfl
  refine ⟨a, ?_⟩
  rw [sfs_loadvnode, bind_ok (get_run s), bind_ok hsearch, if_neg (by decide), sfs_loadvnode_new,
    bind_ok hkmalloc, if_pos rfl, bind_ok hused, bind_ok (ensure_run _ _ _ rfl),
    bind_ok (sfs_rblock_run hV (used_lt hu)), hdec]
  refine (bind_ok (a := (Inode.decode (s.sect i), false)) (t := s) rfl).trans ?_
  dsimp only
  rw [bind_ok hops, bind_ok hlock, if_pos rfl, bind_ok (get_run s),
    bind_ok (alloc_run_nil hheap ha)]
  rfl

def LoadPost (s : Sfs) (i : Nat) (ops : VnodeOps) (sv_i : Inode) (dirty : Bool) (r : Except Errno Nat)
    (t : Sfs) : Prop :=
  match r with
  | .error _ => ∃ heap, t = { s with heap := heap }
  | .ok ret => ret = i ∧ ∃ a heap, a.toList = s.sfs_vnodes.toList ++ [i] ∧
      t = { s with sfs_vnodes := a, heap := heap }.setVnode i (some ⟨ops, 1, 0, sv_i, dirty⟩)

theorem sfs_loadvnode_new_spec {X : Panic → Prop} (ops : VnodeOps) (sv_i : Inode) (dirty : Bool)
    {forcetype : UInt16} (hV : s.Volume) (hu : i ∈ s.used)
    (hino : ∀ t, sfs_loadvnode_inode (Inode.decode (s.sect i)) forcetype t = .ok (.ok (sv_i, dirty), t))
    (hops : ∀ t, sfs_loadvnode_ops sv_i.sfi_type t = .ok (.ok ops, t)) :
    Holds X (sfs_loadvnode_new i forcetype) s (LoadPost s i ops sv_i dirty) := by
  rw [sfs_loadvnode_new]
  refine holds_bind_run (alloc_run _ _) ?_
  split
  rotate_left
  · exact holds_throw ⟨_, rfl⟩
  have hV₁ := hV.withTable s.sfs_vnodes (kmalloc s.heap).2
  have hused : sfs_bused i { s with heap := (kmalloc s.heap).2 } =
      .ok (.ok true, { s with heap := (kmalloc s.heap).2 }) := by
    rw [sfs_bused_run (show i < ({ s with heap := (kmalloc s.heap).2 } : Sfs).sfs_super.sp_nblocks from used_lt hu)]
    rw [(isset_iff _ _).mpr hu.2.1]
  refine holds_bind_run hused (holds_bind_run (ensure_run _ _ _ rfl) ?_)
  refine holds_bind_run (sfs_rblock_run hV₁ (used_lt hu)) ?_
  have hdec : Inode.decode (fun q => if q < 512 then s.sect i q else 0) = Inode.decode (s.sect i) :=
    Inode.decode_congr fun q hq => if_pos hq
  rw [← hdec] at hino
  refine holds_bind_run (hino _) (holds_bind_run (hops _) (holds_bind_run (alloc_run _ _) ?_))
  split
  rotate_left
  · exact holds_throw ⟨_, rfl⟩
  refine holds_bind_run (get_run _) (holds_bind_run (alloc_run _ _) ?_)
  dsimp only
  generalize hadd : array_add s.sfs_vnodes i (lock_create (kmalloc s.heap).2).2 = res
  obtain ⟨r, heap⟩ := res
  cases r with
  | error e => exact holds_throw ⟨_, rfl⟩
  | ok a => exact holds_bind_run (modify_run _ _) (holds_pure ⟨rfl, a, heap, (array_add_cases hadd).1, rfl⟩)

structure Loads (s s' : Sfs) : Prop where
  dirent : s'.dirent = s.dirent
  inodeOf : ∀ j, s.Live j → s'.inodeOf j = s.inodeOf j
  vnodes : ∀ j v, s.vnodes j = some v → ∃ v', s'.vnodes j = some v'

theorem Loads.of_same_inodes {s' : Sfs} (hsect : s'.sect = s.sect) (hino : ∀ j, s'.inodeOf j = s.inodeOf j)
    (hvn : ∀ j v, s.vnodes j = some v → ∃ v', s'.vnodes j = some v') : Loads s s' :=
  ⟨(dirent_same_blocks hsect (hino _)).1, fun j _ => hino j, hvn⟩

theorem Loads.change {s' : Sfs} (h : Loads s s') (hframe : Frame s s') (hsect : s'.sect = s.sect)
    (hused : s'.used = s.used) : Change L s s' := by
  have hnamed := named_of_dirent h.dirent
  refine .of_same hframe hnamed ?_ (fun j hj => ref_same_blocks hsect (h.inodeOf j hj)) hused.subset
  rintro j (hj | ⟨k, hk⟩ | ⟨w, hw⟩)
  · exact .inl hj
  · exact live_of_named (hnamed ▸ hk)
  · obtain ⟨w', hw'⟩ := h.vnodes j w hw
    exact live_of_vnode hw'

theorem Inv.of_load (h : Inv δ s) (hi : s.Live i) (hnone : s.vnodes i = none) {a : KArray Nat} (heap : Heap)
    (ha : a.toList = s.sfs_vnodes.toList ++ [i]) (hops : v.vn_ops = opsOf i)
    (hsv : v.sv_i = Inode.decode (s.sect i)) :
    Inv δ ({ s with sfs_vnodes := a, heap := heap }.setVnode i (some v)) ∧
      Loads s ({ s with sfs_vnodes := a, heap := heap }.setVnode i (some v)) := by
  set s' := ({ s with sfs_vnodes := a, heap := heap } : Sfs).setVnode i (some v) with hs'
  have hv : s'.vnodes i = some v := by simp [hs']
  have hother : ∀ j, j ≠ i → s'.vnodes j = s.vnodes j := fun j hj => by simp [hs', hj]
  have hino : ∀ j, s'.inodeOf j = s.inodeOf j := by
    intro j
    by_cases hj : j = i
    · subst hj; rw [inodeOf_none hnone, inodeOf_some hv, hsv]
    · rw [Sfs.inodeOf, Sfs.inodeOf, hother j hj]; rfl
  have hloaded : ∀ j w, s'.vnodes j = some w → (j = i ∧ w = v) ∨ s.vnodes j = some w := by
    intro j w hw
    by_cases hj : j = i
    · subst hj; exact Or.inl ⟨rfl, Option.some.inj (hw.symm.trans hv)⟩
    · exact Or.inr (hother j hj ▸ hw)
  obtain ⟨hnodup, htable⟩ := h.table_add hnone ha v
  constructor
  · refine h.of_same_blocks rfl ((h.good.volume.withTable a heap).setVnode i _) ?_ (fun j _ _ => hino j)
      (fun j hj _ k h0 => h.good.holding.mem j hj k h0) hnodup htable ?_ ?_
    · intro j w hw
      rcases hloaded j w hw with ⟨rfl, -⟩ | hw'
      · exact hi
      · exact live_of_vnode hw'
    · intro j w hw hd
      rcases hloaded j w hw with ⟨rfl, rfl⟩ | hw'
      · exact hsv.symm
      · exact h.clean j w hw' hd
    · intro j w hw
      rcases hloaded j w hw with ⟨rfl, rfl⟩ | hw'
      · exact hops
      · exact h.ops j w hw'
  · refine .of_same_inodes rfl hino fun j w hw => ?_
    by_cases hj : j = i
    · subst hj; exact ⟨v, hv⟩
    · exact ⟨w, (hother j hj).trans hw⟩

def Sfs.refs (s : Sfs) (j : Nat) : Option Int := (s.vnodes j).map fun v => v.vn_refcount

theorem refs_of_update {t : Sfs} {w : Option Vnode} (h : t.vnodes = Function.update s.vnodes i w) :
    t.refs = Function.update s.refs i (w.map fun v => v.vn_refcount) := by
  unfold Sfs.refs
  rw [h]
  exact Function.comp_update (Option.map _) s.vnodes i w

structure Taken (s : Sfs) (i : Nat) (t : Sfs) : Prop where
  refs : t.refs = Function.update s.refs i (some (toI32 ((s.refs i).getD 0 + 1)))
  opencount : s.vnodes i = none → ∀ v, t.vnodes i = some v → v.vn_opencount = 0

inductive Loading (s : Sfs) (i : Nat) : Except Errno Nat → Sfs → Prop
  | failed (e : Errno) (heap : Heap) : Loading s i (.error e) { s with heap := heap }
  | again {v : Vnode} (hv : s.vnodes i = some v) :
    Loading s i (.ok i) (s.setVnode i (some { v with vn_refcount := toI32 (v.vn_refcount + 1) }))
  | new {a : KArray Nat} {heap : Heap} (hnone : s.vnodes i = none) (ha : a.toList = s.sfs_vnodes.toList ++ [i]) :
    Loading s i (.ok i) ({ s with sfs_vnodes := a, heap := heap }.setVnode i
      (some ⟨opsOf i, 1, 0, Inode.decode (s.sect i), false⟩))

theorem sfs_loadvnode_cases {X : Panic → Prop} (h : Inv δ s) (hi : s.Live i) :
    Holds X (sfs_loadvnode i SFS_TYPE_INVAL) s (Loading s i) := by
  rw [sfs_loadvnode]
  refine holds_bind_run (get_run s) ?_
  have hsearch := sfs_loadvnode_search_run h SFS_TYPE_INVAL h.live_of_table fun _ : i ∈ _ => rfl
  cases hv : s.vnodes i with
  | some v =>
    have hinc : vnode_incref i s = _ := modv_run hv _
    rw [if_pos ((h.table i).mpr ⟨v, hv⟩), bind_ok hinc] at hsearch
    exact holds_bind_run hsearch (holds_pure (.again hv))
  | none =>
    rw [if_neg (h.not_mem_table hv)] at hsearch
    refine holds_bind_run hsearch ?_
    rw [if_neg (show ¬ (false = true) by decide)]
    have htype := h.type i hi
    rw [inodeOf_none hv] at htype
    have hops : ∀ t, sfs_loadvnode_ops (Inode.decode (s.sect i)).sfi_type t = .ok (.ok (opsOf i), t) := by
      intro t
      rw [htype, sfs_loadvnode_ops, typeOf, opsOf]
      by_cases hr : i = SFS_ROOT_LOCATION
      · rw [if_pos hr, if_pos hr, if_neg (by decide), if_pos rfl, pure_run]
      · rw [if_neg hr, if_neg hr, if_pos rfl, pure_run]
    refine (sfs_loadvnode_new_spec (opsOf i) _ false h.good.volume (h.mem_used hi) (fun t => rfl) hops).imp fun r t ht => ?_
    cases r with
    | error e =>
      obtain ⟨heap, rfl⟩ := ht
      exact .failed e heap
    | ok ret =>
      obtain ⟨rfl, a, heap, ha, rfl⟩ := ht
      exact .new hv ha

theorem Loading.vnodes {r : Except Errno Nat} {t : Sfs} (h : Loading s i r t) :
    (∀ e, r = .error e → t.vnodes = s.vnodes) ∧
    ∀ a, r = .ok a → a = i ∧ ∃ v, t.vnodes = Function.update s.vnodes i (some v) ∧
      v.vn_refcount = toI32 ((s.refs i).getD 0 + 1) ∧ (s.vnodes i = none → v.vn_opencount = 0) ∧
      ∀ v₀, s.vnodes i = some v₀ → v.vn_opencount = v₀.vn_opencount := by
  cases h with
  | failed e heap => exact ⟨fun _ _ => rfl, by simp⟩
  | again hv =>
    refine ⟨by simp, fun a ha => ⟨(Except.ok.inj ha).symm, _, rfl, ?_, ?_, ?_⟩⟩
    · rw [Sfs.refs, hv]
      rfl
    · intro hn
      rw [hv] at hn
      cases hn
    · intro v₀ hv₀
      obtain rfl := Option.some.inj (hv.symm.trans hv₀)
      rfl
  | new hnone ha =>
    refine ⟨by simp, fun a ha => ⟨(Except.ok.inj ha).symm, _, rfl, ?_, fun _ => rfl, ?_⟩⟩
    · rw [Sfs.refs, hnone]
      rfl
    · intro v₀ hv₀
      rw [hnone] at hv₀
      cases hv₀

theorem Loading.same {r : Except Errno Nat} {t : Sfs} (h : Loading s i r t) :
    t.sect = s.sect ∧ ∀ j, t.inodeOf j = s.inodeOf j := by
  cases h with
  | failed e heap => exact ⟨rfl, fun _ => rfl⟩
  | again hv => exact ⟨rfl, inodeOf_set_same hv rfl⟩
  | new hnone ha =>
    refine ⟨rfl, fun j => ?_⟩
    by_cases hj : j = i
    · subst hj
      rw [inodeOf_none hnone, inodeOf_some (Function.update_self _ _ _)]
    · exact inodeOf_congr (Function.update_of_ne hj _ _) rfl

theorem Loading.since {r : Except Errno Nat} {t : Sfs} (h : Since L s₀ δ s) (hi : s.Live i) (ht : Loading s i r t) :
    Since L s₀ δ t := by
  cases ht with
  | failed e heap =>
    have hl : Loads s { s with heap := heap } := .of_same_inodes rfl (fun _ => rfl) fun _ w hw => ⟨w, hw⟩
    have hframe : Frame s { s with heap := heap } := ⟨rfl, rfl, fun _ _ => rfl, .inr ⟨rfl, rfl⟩⟩
    exact ⟨h.with_heap heap, h.change.trans (hl.change hframe rfl rfl)⟩
  | again hv => exact h.set_refs hv rfl rfl rfl
  | @new a heap hnone ha =>
    obtain ⟨h', hl⟩ := h.of_load (v := ⟨opsOf i, 1, 0, _, false⟩) hi hnone heap ha rfl rfl
    exact ⟨h', h.change.trans (hl.change ⟨rfl, rfl, fun _ _ => rfl, .inr ⟨rfl, rfl⟩⟩ rfl rfl)⟩

theorem sfs_loadvnode_spec {X : Panic → Prop} (h : Since L s₀ δ s) (hi : s.Live i) :
    Holds X (sfs_loadvnode i SFS_TYPE_INVAL) s fun r t =>
      Since L s₀ δ t ∧ Loads s t ∧ (∀ a, r = .ok a → a = i ∧ (∃ v, t.vnodes i = some v) ∧ Taken s i t) ∧
        ∀ e, r = .error e → t.refs = s.refs := by
  refine (sfs_loadvnode_cases h.toInv hi).imp fun r t ht => ?_
  obtain ⟨hsect, hino⟩ := ht.same
  obtain ⟨hfail, hload⟩ := ht.vnodes
  refine ⟨ht.since h hi, .of_same_inodes hsect hino fun j w hw => ?_, fun a ha => ?_, fun e he => ?_⟩
  · cases r with
    | error e => exact ⟨w, hfail e rfl ▸ hw⟩
    | ok a =>
      obtain ⟨-, v, hvn, -⟩ := hload a rfl
      by_cases hj : j = i
      · subst hj
        exact ⟨v, by rw [hvn, Function.update_self]⟩
      · exact ⟨w, by rw [hvn, Function.update_of_ne hj, hw]⟩
  · obtain ⟨rfl, v, hvn, href, hopen, -⟩ := hload a ha
    have hv : t.vnodes a = some v := by rw [hvn, Function.update_self]
    refine ⟨rfl, ⟨v, hv⟩, ?_, fun hn w hw => ?_⟩
    · rw [refs_of_update hvn, Option.map_some, href]
    · obtain rfl := Option.some.inj (hv.symm.trans hw)
      exact hopen hn
  · funext j
    rw [Sfs.refs, Sfs.refs, hfail e he]

end Load

/-! ## Making a file -/

section Make

variable {L : Licence} {δ : Nat → Int} {s₀ s s₁ : Sfs} {b : Nat}

theorem Balloc.untouched (hb : Balloc s s₁ b) (h : Inv δ s) {j : Nat} (hj : s.Live j) : Untouched s s₁ j := by
  refine ⟨by rw [hb.vnodes], fun k h0 => ?_⟩
  have hne : s.ref j k ≠ b := fun he => hb.fresh (he ▸ h.good.holding.mem j hj k h0)
  rw [hb.sect, Function.update_of_ne hne]

theorem Inv.of_balloc (h : Inv δ s) (hb : Balloc s s₁ b) :
    Inv δ s₁ ∧ s₁.dirent = s.dirent ∧ ∀ j, s₁.Live j ↔ s.Live j := by
  have hroot := hb.untouched h (live_root s)
  have h1 : (SFS_ROOT_LOCATION : Nat) ≠ 0 := by decide
  have hsize : (s₁.inodeOf SFS_ROOT_LOCATION).sfi_size = (s.inodeOf SFS_ROOT_LOCATION).sfi_size := by
    rw [hroot.inodeOf h1]
  have hd := (dirent_congr hsize (hroot.fileByte h1)).1
  have hnamed := named_of_dirent hd
  have hlive : ∀ j, s₁.Live j ↔ s.Live j := fun j => by simp only [Sfs.Live, hnamed, hb.vnodes]
  have hun := fun j (hj : s₁.Live j) => hb.untouched h ((hlive j).mp hj)
  have hpos := fun j (hj : s₁.Live j) => h.pos ((hlive j).mp hj)
  refine ⟨h.of_same_dir hsize (hroot.fileByte h1) ⟨hpos, hb.volume, ?_⟩ (hb.same.table ▸ h.nodup)
    (fun j => by rw [hb.same.table, hb.vnodes, h.table]) ?_ (fun j w hw => h.ops j w (hb.vnodes ▸ hw))
    (fun j hj => ?_) (fun j hj => ?_), hd, hlive⟩
  · refine h.good.holding.drop (fun j hj => (hlive j).mp hj) (fun j hj k _ => ?_) fun j hj k _ hu => ?_
    · rw [(hun j hj).ref (hpos j hj)]
    · rw [hb.used]
      exact Set.mem_insert_of_mem _ hu
  · intro j w hw hd
    rw [hb.vnodes] at hw
    have hj := live_of_vnode hw
    have := (hb.untouched h hj).block .inode (h.pos hj)
    simp only [ref_inode] at this
    rw [this, h.clean j w hw hd]
  · rw [(hun j hj).inodeOf (hpos j hj), h.type j ((hlive j).mp hj)]
  · rw [(hun j hj).inodeOf (hpos j hj), h.links j ((hlive j).mp hj)]

theorem Inv.of_new (h : Inv 0 s) {a : KArray Nat} (heap : Heap) (hb : b ∈ s.used) (hnot : ¬ s.Live b)
    (hfree : ∀ j, s.Live j → ∀ k, s.ref j k ≠ b) (ha : a.toList = s.sfs_vnodes.toList ++ [b]) {v : Vnode}
    (hv : v = ⟨.fileops, 1, 0, { Inode.cleared with sfi_type := SFS_TYPE_FILE }, true⟩) :
    Inv 0 ({ s with sfs_vnodes := a, heap := heap }.setVnode b (some v)) := by
  set s' := ({ s with sfs_vnodes := a, heap := heap } : Sfs).setVnode b (some v) with hs'
  have hb' : s'.vnodes b = some v := by simp [hs']
  have hother : ∀ j, j ≠ b → s'.vnodes j = s.vnodes j := fun j hj => by simp [hs', hj]
  have hne : ∀ j, s.Live j → j ≠ b := fun j hj he => hnot (he ▸ hj)
  have hino : ∀ j, j ≠ b → s'.inodeOf j = s.inodeOf j := fun j hj => by
    rw [Sfs.inodeOf, Sfs.inodeOf, hother j hj]; rfl
  have hbi : s'.inodeOf b = { Inode.cleared with sfi_type := SFS_TYPE_FILE } := by
    rw [inodeOf_some hb', hv]
  have hsect : s'.sect = s.sect := rfl
  have hroot := hino _ (hne _ (live_root s))
  obtain ⟨hd, hbytes⟩ := dirent_same_blocks hsect hroot
  have hnamed := named_of_dirent hd
  have hlive : ∀ j, s'.Live j → j = b ∨ s.Live j := by
    rintro j (hj | ⟨k, hk⟩ | ⟨w, hw⟩)
    · exact Or.inr (Or.inl hj)
    · exact Or.inr (live_of_named (hnamed ▸ hk))
    · by_cases hj : j = b
      · exact Or.inl hj
      · exact Or.inr (live_of_vnode (hother j hj ▸ hw))
  have hnone : s.vnodes b = none := Option.eq_none_iff_forall_ne_some.mpr fun w hw => hnot (live_of_vnode hw)
  obtain ⟨hnodup, htable⟩ := h.table_add hnone ha v
  -- nothing but the new inode holds the block
  have hold : Holding s.liveSet s.ref (s.used \ {b}) :=
    h.good.holding.drop (Set.Subset.refl _) (fun _ _ _ _ => rfl) fun j hj k _ hu => ⟨hu, hfree j hj k⟩
  have hused : insert b (s.used \ {b}) = s'.used := by
    rw [Set.insert_sdiff_singleton, Set.insert_eq_of_mem hb]; rfl
  refine h.of_same_dir (by rw [hroot]) hbytes ⟨?_, (h.good.volume.withTable a heap).setVnode b _, ?_⟩
    hnodup htable ?_ ?_ ?_ ?_
  · intro j hj
    rcases hlive j hj with rfl | hj'
    · rintro rfl; exact not_mem_used_zero hb
    · exact h.pos hj'
  · rw [← hused]
    refine hold.take (i := b) (k := .inode) (fun hm => hm.2 rfl) rfl fun j hj k hjk h0 => ?_
    rcases hlive j hj with rfl | hj'
    · exfalso
      apply h0
      rw [Sfs.ref, hbi]
      cases k with
      | inode => exact absurd rfl hjk
      | direct => rfl
      | indirect => rfl
      | entry => rfl
    · exact ⟨hj', congrFun (ref_same_blocks hsect (hino j (hne j hj'))) k⟩
  · intro j w hw hdirty
    by_cases hj : j = b
    · subst hj
      obtain rfl := Option.some.inj (hb'.symm.trans hw)
      rw [hv] at hdirty
      cases hdirty
    · exact h.clean j w (hother j hj ▸ hw) hdirty
  · intro j w hw
    by_cases hj : j = b
    · subst hj
      obtain rfl := Option.some.inj (hb'.symm.trans hw)
      rw [hv, opsOf, if_neg (hne _ (live_root s)).symm]
    · exact h.ops j w (hother j hj ▸ hw)
  · intro j hj
    by_cases hjb : j = b
    · subst hjb
      rw [hbi, typeOf, if_neg (hne _ (live_root s)).symm]
    · rw [hino j hjb, h.type j ((hlive j hj).resolve_left hjb)]
  · intro j hj
    by_cases hjb : j = b
    · subst hjb
      have hzero : s.links j = 0 := by
        by_contra hpos
        obtain ⟨k, -, hk⟩ := Table.count_pos_iff.mp (Nat.pos_of_ne_zero hpos)
        exact hnot (live_of_named hk)
      rw [hbi, hzero, ownLinks, if_neg (hne _ (live_root s)).symm]
      rfl
    · rw [hino j hjb, h.links j ((hlive j hj).resolve_left hjb)]

theorem sfs_loadvnode_fresh_spec {X : Panic → Prop} (h : Inv δ s) (hu : b ∈ s.used) (hnot : ¬ s.Live b)
    (hzero : Inode.decode (s.sect b) = Inode.cleared) :
    Holds X (sfs_loadvnode b SFS_TYPE_FILE) s
      (LoadPost s b .fileops { Inode.cleared with sfi_type := SFS_TYPE_FILE } true) := by
  have hmem : b ∉ s.sfs_vnodes.toList := fun hm => hnot (h.live_of_table b hm)
  have hsearch := sfs_loadvnode_search_run h SFS_TYPE_FILE h.live_of_table fun hm => absurd hm hmem
  rw [if_neg hmem] at hsearch
  rw [sfs_loadvnode]
  refine holds_bind_run (get_run _) (holds_bind_run hsearch ?_)
  rw [if_neg (show ¬ (false = true) by decide)]
  refine sfs_loadvnode_new_spec .fileops _ true h.good.volume hu (fun t => ?_) fun t => rfl
  rw [hzero]
  rfl

def Sfs.loses (s : Sfs) : Bool :=
  match sfs_balloc s with
  | .ok (.ok ino, t) =>
    match sfs_loadvnode ino SFS_TYPE_FILE t with
    | .ok (.error _, _) => true
    | _ => false
  | _ => false

def newVnode : Vnode := ⟨.fileops, 1, 0, { Inode.cleared with sfi_type := SFS_TYPE_FILE }, true⟩

inductive Making (s : Sfs) : Except Errno Nat → Sfs → Prop
  | full (e : Errno) : Making s (.error e) s
  | lost {b : Nat} {s₁ : Sfs} (e : Errno) (heap : Heap) (hb : Balloc s s₁ b) (hlose : s.loses = true) :
    Making s (.error e) { s₁ with heap := heap }
  | made {b : Nat} {s₁ : Sfs} {a : KArray Nat} {heap : Heap} (hb : Balloc s s₁ b)
    (ha : a.toList = s₁.sfs_vnodes.toList ++ [b]) :
    Making s (.ok b) ({ s₁ with sfs_vnodes := a, heap := heap }.setVnode b (some newVnode))

theorem Balloc.not_live (hb : Balloc s s₁ b) (h : Inv δ s) : ¬ s₁.Live b ∧ ∀ j, s₁.Live j → ∀ k, s₁.ref j k ≠ b := by
  obtain ⟨-, -, hlive⟩ := h.of_balloc hb
  refine ⟨fun hl => hb.fresh (h.mem_used ((hlive b).mp hl)), fun j hj k he => ?_⟩
  have hj' := (hlive j).mp hj
  rw [(hb.untouched h hj').ref (h.pos hj')] at he
  exact hb.fresh (he ▸ h.good.holding.mem j hj' k (he ▸ hb.pos))

theorem Balloc.mem_used (hb : Balloc s s₁ b) : b ∈ s₁.used := by
  rw [hb.used]
  exact Set.mem_insert _ _

theorem sfs_makeobj_cases {X : Panic → Prop} (h : Inv δ s) : Holds X (sfs_makeobj SFS_TYPE_FILE) s (Making s) := by
  rw [sfs_makeobj]
  rcases sfs_balloc_cases h.good.volume with hrun | ⟨b, s₁, hrun, hb⟩
  · exact holds_of_run (bind_error hrun) (.full _)
  refine holds_bind_run hrun ?_
  have hzero : Inode.decode (s₁.sect b) = Inode.cleared :=
    Inode.decode_zero fun q _ => by rw [hb.sect, Function.update_self]
  cases sfs_loadvnode_fresh_spec (X := X) (h.of_balloc hb).1 hb.mem_used (hb.not_live h).1 hzero with
  | panic run hx => exact .panic run hx
  | @done r t run ht =>
  refine holds_of_run run ?_
  cases r with
  | error e =>
    obtain ⟨heap, rfl⟩ := ht
    exact .lost e heap hb (by simp only [Sfs.loses, hrun, run])
  | ok ret =>
    obtain ⟨rfl, a, heap, ha, rfl⟩ := ht
    exact .made hb ha

theorem Making.untouched {r : Except Errno Nat} {t : Sfs} (h : Inv δ s) (ht : Making s r t) {j : Nat} (hj : s.Live j) :
    Untouched s t j := by
  cases ht with
  | full e => exact .refl s j
  | lost e heap hb hlose => exact ⟨(hb.untouched h hj).vnode, (hb.untouched h hj).block⟩
  | @made b s₁ a heap hb ha =>
    have hne : j ≠ b := fun he => hb.fresh (h.mem_used (he ▸ hj))
    exact ⟨(Function.update_of_ne hne _ _).trans (hb.untouched h hj).vnode, (hb.untouched h hj).block⟩

theorem Making.dirent {r : Except Errno Nat} {t : Sfs} (h : Inv δ s) (ht : Making s r t) : t.dirent = s.dirent := by
  have hroot := ht.untouched h (live_root s)
  have h1 : (SFS_ROOT_LOCATION : Nat) ≠ 0 := by decide
  exact (dirent_congr (by rw [hroot.inodeOf h1]) (hroot.fileByte h1)).1

theorem sfs_makeobj_spec {X : Panic → Prop} (h : Since L s₀ 0 s) (hlose : s.loses = true → L.lose) :
    Holds X (sfs_makeobj SFS_TYPE_FILE) s fun r t =>
      Since L s₀ 0 t ∧ t.dirent = s.dirent ∧ (∀ j v, s.vnodes j = some v → t.vnodes j = some v) ∧
        ∀ b, r = .ok b → ∃ v, t.vnodes b = some v ∧ b ≠ SFS_ROOT_LOCATION := by
  refine (sfs_makeobj_cases h.toInv).imp fun r t ht => ?_
  have hd := ht.dirent h.toInv
  have hmono : ∀ j v, s.vnodes j = some v → t.vnodes j = some v := fun j v hv =>
    (ht.untouched h.toInv (live_of_vnode hv)).vnode.trans hv
  have href : ∀ j, s.Live j → t.ref j = s.ref j := fun j hj => (ht.untouched h.toInv hj).ref (h.pos hj)
  have hnamed : (∃ k, t.named k = some SFS_ROOT_LOCATION) → ∃ k, s.named k = some SFS_ROOT_LOCATION := by
    rw [named_of_dirent hd]
    exact id
  cases ht with
  | full e => exact ⟨h, rfl, hmono, by simp⟩
  | @lost b s₁ e heap hb hl =>
    have hframe : Frame s { s₁ with heap := heap } :=
      hb.same.toFrame.trans ⟨rfl, rfl, fun _ _ => rfl, .inr ⟨rfl, rfl⟩⟩
    exact ⟨⟨(h.of_balloc hb).1.with_heap heap, h.change.trans ⟨hframe, fun hk => .inr (hnamed hk),
      fun _ => .inl (hlose hl)⟩⟩, hd, hmono, by simp⟩
  | @made b s₁ a heap hb ha =>
    obtain ⟨hnot, hfree⟩ := hb.not_live h.toInv
    have h' := (h.of_balloc hb).1.of_new (v := newVnode) heap hb.mem_used hnot hfree ha rfl
    refine ⟨⟨h', h.change.trans ⟨?_, fun hk => .inr (hnamed hk), fun htight => .inr fun c hc => ?_⟩⟩, hd, hmono,
      fun b' hr => ?_⟩
    · exact hb.same.toFrame.trans ⟨rfl, rfl, fun _ _ => rfl, .inr ⟨rfl, rfl⟩⟩
    · change c ∈ s₁.used at hc
      rw [hb.used] at hc
      rcases hc with rfl | hc
      · exact ⟨c, .inode, live_of_vnode (Function.update_self _ _ _), rfl⟩
      · obtain ⟨j, k, hj, rfl⟩ := htight c hc
        refine ⟨j, k, ?_, by rw [href j hj]⟩
        rcases hj with hj | ⟨l, hl⟩ | ⟨w, hw⟩
        · exact .inl hj
        · exact live_of_named (named_of_dirent hd ▸ hl)
        · exact live_of_vnode (hmono j w hw)
    · obtain rfl := Except.ok.inj hr
      exact ⟨_, Function.update_self _ _ _, fun hr => hnot (.inl hr)⟩

end Make

end Os161
