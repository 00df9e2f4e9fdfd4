import Os161.Sfs.Invariant
import Os161.Sfs.Truncate

/-! # Vnodes come and go

How the invariant moves over the changes of a vnode, of the table of vnodes and of the blocks of a
file.
-/

namespace Os161

open Prog Words

section Views

variable {L : Licence} {δ : Nat → Int} {s₀ s s' : Sfs} {i : Nat} {v v' : Vnode}

theorem inodeOf_congr (hvn : s'.vnodes i = s.vnodes i) (hsect : s'.sect i = s.sect i) :
    s'.inodeOf i = s.inodeOf i := by
  rw [Sfs.inodeOf, Sfs.inodeOf, hvn, hsect]

theorem inodeOf_set_same (hv : s.vnodes i = some v) (hsv : v'.sv_i = v.sv_i) (j : Nat) :
    (s.setVnode i (some v')).inodeOf j = s.inodeOf j := by
  by_cases hj : j = i
  · subst hj
    rw [inodeOf_some hv, inodeOf_some (Function.update_self _ _ _), hsv]
  · exact inodeOf_congr (Function.update_of_ne hj _ _) rfl

theorem ref_same_blocks (hsect : s'.sect = s.sect) (hino : s'.inodeOf i = s.inodeOf i) :
    s'.ref i = s.ref i := by
  rw [Sfs.ref, Sfs.ref, hino, hsect]

theorem bytes_same_blocks (hsect : s'.sect = s.sect) (hino : s'.inodeOf i = s.inodeOf i) :
    s'.fileByte i = s.fileByte i :=
  fileByte_congr fun k _ _ q _ => by
    rw [Sfs.slotByte, Sfs.slotByte, ref_same_blocks hsect hino, hsect]

theorem dirent_same_blocks (hsect : s'.sect = s.sect)
    (hino : s'.inodeOf SFS_ROOT_LOCATION = s.inodeOf SFS_ROOT_LOCATION) :
    s'.dirent = s.dirent ∧ s'.fileByte SFS_ROOT_LOCATION = s.fileByte SFS_ROOT_LOCATION :=
  ⟨(dirent_congr (by rw [hino]) (bytes_same_blocks hsect hino)).1, bytes_same_blocks hsect hino⟩

theorem named_of_dirent (h : s'.dirent = s.dirent) : s'.named = s.named := by
  funext k
  rw [Sfs.named, Sfs.named, h]

theorem FileStep.loaded {I : Set Nat} (hs : FileStep I i s s') (j : Nat) :
    (∃ w, s'.vnodes j = some w) ↔ ∃ w, s.vnodes j = some w := by
  obtain ⟨v, v', hv, hv', -⟩ := hs.vnode
  by_cases hj : j = i
  · subst hj; exact ⟨fun _ => ⟨v, hv⟩, fun _ => ⟨v', hv'⟩⟩
  · rw [hs.vnodes j hj]

theorem Inv.of_step (h : Inv δ s) (hs : FileStep s.liveSet i s s') {δ' : Nat → Int}
    (hlive : ∀ j, s'.Live j → s.Live j)
    (size : (s'.inodeOf SFS_ROOT_LOCATION).sfi_size.toNat % 64 = 0)
    (max : (s'.inodeOf SFS_ROOT_LOCATION).sfi_size.toNat ≤ 73216)
    (nul : ∀ k, s'.dirent k ≠ none → ∃ j < 60, s'.slotName k j = 0)
    (names : ∀ k k' e e', s'.dirent k = some e → s'.dirent k' = some e' → e.2 = e'.2 → k = k')
    (links : ∀ j, s.Live j → (s.links j + δ j : Int) = s'.links j + δ' j) : Inv δ' s' := by
  obtain ⟨v, v', hv, hv', hsame⟩ := hs.vnode
  have hino : ∀ j, s.Live j → (s'.inodeOf j).sfi_type = (s.inodeOf j).sfi_type ∧
      (s'.inodeOf j).sfi_linkcount = (s.inodeOf j).sfi_linkcount := by
    intro j hj
    by_cases hji : j = i
    · subst hji
      rw [inodeOf_some hv, inodeOf_some hv']
      exact ⟨hsame.type, hsame.linkcount⟩
    · rw [(hs.others j hj hji).inodeOf (h.pos hj)]
      exact ⟨rfl, rfl⟩
  refine ⟨⟨fun j hj => h.pos (hlive j hj), hs.good.volume, hs.good.holding.subset fun j hj => hlive j hj⟩,
    hs.same.table ▸ h.nodup, fun j => by rw [hs.same.table, h.table, hs.loaded], ?_, ?_, ?_, size, max, nul,
    names, ?_⟩
  · intro j w hw hd
    by_cases hji : j = i
    · subst hji
      obtain rfl : v' = w := Option.some.inj (hv'.symm.trans hw)
      obtain rfl := hsame.clean hd
      rw [hs.inode, h.clean j v' hv hd]
    · rw [hs.vnodes j hji] at hw
      have hlj := live_of_vnode hw
      have := (hs.others j hlj hji).block .inode (h.pos hlj)
      simp only [ref_inode] at this
      rw [this, h.clean j w hw hd]
  · intro j w hw
    by_cases hji : j = i
    · subst hji
      obtain rfl : v' = w := Option.some.inj (hv'.symm.trans hw)
      rw [hsame.ops, h.ops j v hv]
    · rw [hs.vnodes j hji] at hw
      exact h.ops j w hw
  · intro j hj
    rw [(hino j (hlive j hj)).1, h.type j (hlive j hj)]
  · intro j hj
    have := links j (hlive j hj)
    rw [(hino j (hlive j hj)).2, h.links j (hlive j hj)]
    omega

theorem Change.of_step (h : Inv δ s) (hs : FileStep s.liveSet i s s') (hlive : ∀ j, s.Live j → s'.Live j)
    (hroot : (∃ k, s'.named k = some SFS_ROOT_LOCATION) → L.root ∨ ∃ k, s.named k = some SFS_ROOT_LOCATION) :
    Change L s s' := by
  obtain ⟨v, -, hv, -⟩ := hs.vnode
  refine ⟨hs.same.toFrame, hroot, fun htight => .inr fun b hb => ?_⟩
  rcases hs.tight b hb with ⟨hb, hno⟩ | ⟨k, hk⟩
  · obtain ⟨j, k, hj, rfl⟩ := htight b hb
    have hji : j ≠ i := by
      rintro rfl
      exact hno k rfl
    exact ⟨j, k, hlive j hj, by rw [(hs.others j hj hji).ref (h.pos hj)]⟩
  · exact ⟨i, k, hlive i (live_of_vnode hv), hk⟩

theorem Since.of_step_same_dir (h : Since L s₀ δ s) (hs : FileStep s.liveSet i s s')
    (hsize : (s'.inodeOf SFS_ROOT_LOCATION).sfi_size = (s.inodeOf SFS_ROOT_LOCATION).sfi_size)
    (hbytes : s'.fileByte SFS_ROOT_LOCATION = s.fileByte SFS_ROOT_LOCATION) : Since L s₀ δ s' := by
  obtain ⟨hd, hn⟩ := dirent_congr hsize hbytes
  have hnamed := named_of_dirent hd
  have hlive : ∀ j, s'.Live j ↔ s.Live j := fun j => by rw [Sfs.Live, Sfs.Live, hnamed, hs.loaded]
  refine ⟨h.of_step hs (fun j => (hlive j).mp) (hsize ▸ h.size) (hsize ▸ h.max) (by rw [hd, hn]; exact h.nul)
    (by rw [hd]; exact h.names) fun j _ => by rw [Sfs.links, Sfs.links, hnamed], h.change.trans ?_⟩
  exact .of_step h.toInv hs (fun j => (hlive j).mpr) fun hk => .inr (hnamed ▸ hk)

theorem Since.of_file_step (h : Since L s₀ δ s) (hi : i ≠ SFS_ROOT_LOCATION) (hs : FileStep s.liveSet i s s') :
    Since L s₀ δ s' := by
  have hroot := hs.others _ (live_root s) hi.symm
  have h1 : (SFS_ROOT_LOCATION : Nat) ≠ 0 := by decide
  exact h.of_step_same_dir hs (by rw [hroot.inodeOf h1]) (hroot.fileByte h1)

theorem Inv.of_same_blocks (h : Inv δ s) (hsect : s'.sect = s.sect) (hV : s'.Volume)
    (hvn : ∀ j v, s'.vnodes j = some v → s.Live j)
    (hino : ∀ j, s.Live j → s'.Live j → s'.inodeOf j = s.inodeOf j)
    (hused : ∀ j, s.Live j → s'.Live j → ∀ k, s.ref j k ≠ 0 → s.ref j k ∈ s'.used)
    (nodup : s'.sfs_vnodes.toList.Nodup)
    (table : ∀ i, i ∈ s'.sfs_vnodes.toList ↔ ∃ v, s'.vnodes i = some v)
    (clean : ∀ i v, s'.vnodes i = some v → v.sv_dirty = false → Inode.decode (s.sect i) = v.sv_i)
    (ops : ∀ i v, s'.vnodes i = some v → v.vn_ops = opsOf i) : Inv δ s' := by
  have hroot := hino _ (live_root s) (live_root s')
  have href := fun j => ref_same_blocks (i := j) hsect
  obtain ⟨hd, hbytes⟩ := dirent_same_blocks hsect hroot
  have hnamed := named_of_dirent hd
  have hlive : ∀ j, s'.Live j → s.Live j := by
    rintro j (hj | ⟨k, hk⟩ | ⟨w, hw⟩)
    · exact Or.inl hj
    · exact live_of_named (hnamed ▸ hk)
    · exact hvn j w hw
  refine h.of_same_dir (by rw [hroot]) hbytes ⟨fun j hj => h.pos (hlive j hj), hV, ?_⟩ nodup table
    (fun j w hw hd => hsect ▸ clean j w hw hd) ops (fun j hj => ?_) fun j hj => ?_
  · refine h.good.holding.drop (fun j hj => hlive j hj) (fun j hj k _ => ?_) fun j hj k h0 _ => ?_
    · rw [href j (hino j (hlive j hj) hj)]
    · rw [href j (hino j (hlive j hj) hj)] at h0 ⊢
      exact hused j (hlive j hj) hj k h0
  · rw [hino j (hlive j hj) hj, h.type j (hlive j hj)]
  · rw [hino j (hlive j hj) hj, h.links j (hlive j hj)]

theorem Since.set_counts (h : Since L s₀ δ s) (hv : s.vnodes i = some v) (hops : v'.vn_ops = v.vn_ops)
    (hino : v'.sv_i = { v.sv_i with sfi_linkcount := v'.sv_i.sfi_linkcount })
    (hclean : v'.sv_dirty = false → v.sv_dirty = false ∧ v'.sv_i = v.sv_i) {δ' : Nat → Int}
    (hδ : ∀ j, j ≠ i → δ' j = δ j)
    (hδi : δ' i = δ i + (v'.sv_i.sfi_linkcount.toNat : Int) - v.sv_i.sfi_linkcount.toNat) :
    Since L s₀ δ' (s.setVnode i (some v')) := by
  have hv' : (s.setVnode i (some v')).vnodes i = some v' := by simp
  have hother : ∀ j, j ≠ i → (s.setVnode i (some v')).vnodes j = s.vnodes j := fun j hj => by simp [hj]
  have href : ∀ j, (s.setVnode i (some v')).ref j = s.ref j := by
    intro j
    by_cases hj : j = i
    · subst hj
      funext k
      rw [Sfs.ref, Sfs.ref, inodeOf_some hv, inodeOf_some hv', hino]
      cases k <;> rfl
    · rw [Sfs.ref, Sfs.ref, Sfs.inodeOf, Sfs.inodeOf, hother j hj]; rfl
  have hinode : ∀ j, j ≠ i → (s.setVnode i (some v')).inodeOf j = s.inodeOf j := fun j hj => by
    rw [Sfs.inodeOf, Sfs.inodeOf, hother j hj]; rfl
  have hsz : ∀ j, ((s.setVnode i (some v')).inodeOf j).sfi_size = (s.inodeOf j).sfi_size ∧
      ((s.setVnode i (some v')).inodeOf j).sfi_type = (s.inodeOf j).sfi_type := by
    intro j
    by_cases hj : j = i
    · subst hj
      rw [inodeOf_some hv, inodeOf_some hv', hino]
      exact ⟨rfl, rfl⟩
    · rw [hinode j hj]; exact ⟨rfl, rfl⟩
  have hbytes : (s.setVnode i (some v')).fileByte SFS_ROOT_LOCATION = s.fileByte SFS_ROOT_LOCATION :=
    fileByte_congr fun k _ _ q _ => by rw [Sfs.slotByte, Sfs.slotByte, href]; rfl
  obtain ⟨hd, -⟩ := dirent_congr (hsz _).1 hbytes
  have hnamed := named_of_dirent hd
  have hsome : ∀ j, (∃ w, (s.setVnode i (some v')).vnodes j = some w) ↔ ∃ w, s.vnodes j = some w := by
    intro j
    by_cases hj : j = i
    · subst hj; exact ⟨fun _ => ⟨v, hv⟩, fun _ => ⟨v', hv'⟩⟩
    · rw [hother j hj]
  have hlive : ∀ j, (s.setVnode i (some v')).Live j ↔ s.Live j := by
    intro j
    simp only [Sfs.Live, hnamed, hsome]
  have hchange := Change.of_same (L := L) (SameVolume.setVnode s i (some v')).toFrame hnamed
    (fun j => (hlive j).mpr) (fun j _ => href j) (Set.Subset.refl s.used)
  refine ⟨h.of_same_dir (hsz _).1 hbytes ⟨fun j hj => h.pos ((hlive j).mp hj), h.good.volume.setVnode _ _, ?_⟩
    h.nodup (fun j => (h.table j).trans (hsome j).symm) ?_ ?_ (fun j hj => ?_) fun j hj => ?_,
    h.change.trans hchange⟩
  · refine h.good.holding.drop (fun j hj => (hlive j).mp hj) (fun j _ k _ => by rw [href]) fun _ _ _ _ => id
  · intro j w hw hd
    by_cases hj : j = i
    · subst hj
      obtain rfl : v' = w := Option.some.inj (hv'.symm.trans hw)
      rw [(hclean hd).2]
      exact h.clean j v hv (hclean hd).1
    · rw [hother j hj] at hw
      exact h.clean j w hw hd
  · intro j w hw
    by_cases hj : j = i
    · subst hj
      obtain rfl : v' = w := Option.some.inj (hv'.symm.trans hw)
      rw [hops, h.ops j v hv]
    · rw [hother j hj] at hw
      exact h.ops j w hw
  · rw [(hsz j).2, h.type j ((hlive j).mp hj)]
  · have := h.links j ((hlive j).mp hj)
    by_cases hji : j = i
    · subst hji
      rw [inodeOf_some hv] at this
      rw [inodeOf_some hv', hδi]
      omega
    · rw [hinode j hji, hδ j hji, this]

theorem Since.set_refs (h : Since L s₀ δ s) (hv : s.vnodes i = some v) (hops : v'.vn_ops = v.vn_ops)
    (hino : v'.sv_i = v.sv_i) (hd : v'.sv_dirty = v.sv_dirty) : Since L s₀ δ (s.setVnode i (some v')) :=
  h.set_counts hv hops (by rw [hino]) (fun hc => ⟨hd ▸ hc, hino⟩) (fun _ _ => rfl) (by rw [hino]; omega)

end Views

/-! ## Writing an inode back -/

section Sync

variable {L : Licence} {δ : Nat → Int} {s₀ s : Sfs} {i : Nat} {v : Vnode}

structure SameFiles (s t : Sfs) : Prop where
  inodeOf : ∀ j, s.Live j → t.inodeOf j = s.inodeOf j
  ref : ∀ j, s.Live j → t.ref j = s.ref j
  bytes : ∀ j, s.Live j → t.fileByte j = s.fileByte j
  dirent : t.dirent = s.dirent
  live : ∀ j, t.Live j ↔ s.Live j

theorem SameFiles.refl (s : Sfs) : SameFiles s s :=
  ⟨fun _ _ => rfl, fun _ _ => rfl, fun _ _ => rfl, rfl, fun _ => Iff.rfl⟩

theorem SameFiles.trans {t u : Sfs} (h : SameFiles s t) (h' : SameFiles t u) : SameFiles s u where
  inodeOf j hj := (h'.inodeOf j ((h.live j).mpr hj)).trans (h.inodeOf j hj)
  ref j hj := (h'.ref j ((h.live j).mpr hj)).trans (h.ref j hj)
  bytes j hj := (h'.bytes j ((h.live j).mpr hj)).trans (h.bytes j hj)
  dirent := h'.dirent.trans h.dirent
  live j := (h'.live j).trans (h.live j)

structure Intact (I : Set Nat) (s t : Sfs) : Prop where
  dirent : t.dirent = s.dirent
  inodeOf : ∀ j ∈ I, t.inodeOf j = s.inodeOf j
  bytes : ∀ j ∈ I, t.fileByte j = s.fileByte j

namespace Intact

variable {I J : Set Nat} {t u : Sfs}

theorem refl (I : Set Nat) (s : Sfs) : Intact I s s := ⟨rfl, fun _ _ => rfl, fun _ _ => rfl⟩

theorem trans (h : Intact I s t) (h' : Intact I t u) : Intact I s u where
  dirent := h'.dirent.trans h.dirent
  inodeOf j hj := (h'.inodeOf j hj).trans (h.inodeOf j hj)
  bytes j hj := (h'.bytes j hj).trans (h.bytes j hj)

theorem mono (h : Intact I s t) (hsub : J ⊆ I) : Intact J s t :=
  ⟨h.dirent, fun j hj => h.inodeOf j (hsub hj), fun j hj => h.bytes j (hsub hj)⟩

theorem of_same_blocks (hsect : t.sect = s.sect) (hino : ∀ j, t.inodeOf j = s.inodeOf j) : Intact I s t :=
  ⟨(dirent_same_blocks hsect (hino _)).1, fun j _ => hino j, fun j _ => bytes_same_blocks hsect (hino j)⟩

theorem of_untouched (hpos : ∀ j ∈ I, j ≠ 0) (hroot : SFS_ROOT_LOCATION ∈ I) (h : ∀ j ∈ I, Untouched s t j) :
    Intact I s t := by
  have hino : ∀ j ∈ I, t.inodeOf j = s.inodeOf j := fun j hj => (h j hj).inodeOf (hpos j hj)
  have hbytes : ∀ j ∈ I, t.fileByte j = s.fileByte j := fun j hj => (h j hj).fileByte (hpos j hj)
  exact ⟨(dirent_congr (by rw [hino _ hroot]) (hbytes _ hroot)).1, hino, hbytes⟩

end Intact

theorem SameFiles.intact {t : Sfs} (h : SameFiles s t) : Intact s.liveSet s t :=
  ⟨h.dirent, fun j hj => h.inodeOf j hj, fun j hj => h.bytes j hj⟩

theorem FileStep.intact {t : Sfs} (hs : FileStep s.liveSet i s t) (hi : i ≠ SFS_ROOT_LOCATION) :
    Intact {j | s.Live j ∧ j ≠ i} s t :=
  .of_untouched (fun j hj => hs.good.pos j hj.1) ⟨live_root s, hi.symm⟩ fun j hj => hs.others j hj.1 hj.2

theorem ref_lt (h : Inv δ s) (hi : s.Live i) (k : Slot) : s.ref i k < 2 ^ 32 := by
  rcases Nat.eq_zero_or_pos (s.ref i k) with h0 | h0
  · omega
  · have := used_lt (h.good.holding.mem i hi k (by omega))
    have := h.good.volume.nblocks_le
    omega

theorem Since.of_sync (h : Since L s₀ δ s) (hv : s.vnodes i = some v) :
    Since L s₀ δ ((s.setBlock i v.sv_i.encode).setVnode i (some { v with sv_dirty := false })) ∧
      SameFiles s ((s.setBlock i v.sv_i.encode).setVnode i (some { v with sv_dirty := false })) := by
  have hi := live_of_vnode hv
  set s' := (s.setBlock i v.sv_i.encode).setVnode i (some { v with sv_dirty := false }) with hs'
  have hv' : s'.vnodes i = some { v with sv_dirty := false } := by simp [hs']
  have hother : ∀ j, j ≠ i → s'.vnodes j = s.vnodes j := fun j hj => by simp [hs', hj]
  have hsect : ∀ b, b ≠ i → s'.sect b = s.sect b := fun b hb => by simp [hs', hb]
  have hdec : Inode.decode (s'.sect i) = v.sv_i := by
    have hd : ∀ k, v.sv_i.sfi_direct k < 2 ^ 32 := fun k => ref_direct hv k ▸ ref_lt h.toInv hi _
    have hind : v.sv_i.sfi_indirect < 2 ^ 32 := ref_indirect hv ▸ ref_lt h.toInv hi _
    rw [← Inode.decode_encode hd hind]
    exact Inode.decode_congr fun q hq => by simp [hs', hq]
  have hino : ∀ j, s'.inodeOf j = s.inodeOf j := by
    intro j
    by_cases hj : j = i
    · subst hj; rw [inodeOf_some hv, inodeOf_some hv']
    · rw [Sfs.inodeOf, Sfs.inodeOf, hother j hj, hsect j hj]
  -- the block of an inode is not the block of anything else
  have hne : ∀ j, s.Live j → ∀ k, k ≠ .inode → s.ref j k ≠ 0 → s.ref j k ≠ i := by
    intro j hj k hk h0 he
    exact hk (h.good.holding.inj j hj i hi k .inode h0 he).2
  have href : ∀ j, s.Live j → s'.ref j = s.ref j := by
    intro j hj
    funext k
    have hind := hne j hj .indirect (by simp)
    simp only [Sfs.ref, Inode.ref] at hind
    rw [Sfs.ref, Sfs.ref, hino]
    cases k <;> simp only [Inode.ref]
    split
    · rfl
    · rw [hsect _ (hind (by assumption))]
  have hbytes : ∀ j, s.Live j → s'.fileByte j = s.fileByte j := by
    intro j hj
    refine fileByte_congr fun k hk _ q _ => ?_
    rw [Sfs.slotByte, Sfs.slotByte, href j hj]
    split
    · rfl
    · rw [hsect _ (hne j hj k hk (by assumption))]
  obtain ⟨hd, -⟩ := dirent_congr (by rw [hino]) (hbytes _ (live_root s))
  have hnamed := named_of_dirent hd
  have hsome : ∀ j, (∃ w, s'.vnodes j = some w) ↔ ∃ w, s.vnodes j = some w := by
    intro j
    by_cases hj : j = i
    · subst hj; exact ⟨fun _ => ⟨v, hv⟩, fun _ => ⟨_, hv'⟩⟩
    · rw [hother j hj]
  have hlive : ∀ j, s'.Live j ↔ s.Live j := fun j => by simp only [Sfs.Live, hnamed, hsome]
  have hframe : Frame s s' := ((SameVolume.setBlock (h.mem_used hi).2.2 _).trans (.setVnode _ _ _)).toFrame
  refine ⟨⟨h.of_same_dir (by rw [hino]) (hbytes _ (live_root s)) ⟨fun j hj => h.pos ((hlive j).mp hj),
    (h.good.volume.setBlock _ _).setVnode _ _, ?_⟩ h.nodup (fun j => (h.table j).trans (hsome j).symm)
    ?_ ?_ (fun j hj => ?_) (fun j hj => ?_), h.change.trans (.of_same hframe hnamed (fun j => (hlive j).mpr) href
      (Set.Subset.refl s.used))⟩, fun j _ => hino j, href, hbytes, hd, hlive⟩
  · exact h.good.holding.drop (fun j hj => (hlive j).mp hj)
      (fun j hj k _ => by rw [href j ((hlive j).mp hj)]) fun _ _ _ _ => id
  · intro j w hw hd
    by_cases hj : j = i
    · subst hj
      obtain rfl := Option.some.inj (hv'.symm.trans hw)
      exact hdec
    · rw [hother j hj] at hw
      rw [hsect j hj, h.clean j w hw hd]
  · intro j w hw
    by_cases hj : j = i
    · subst hj
      obtain rfl := Option.some.inj (hv'.symm.trans hw)
      exact h.ops j v hv
    · rw [hother j hj] at hw
      exact h.ops j w hw
  · rw [hino, h.type j ((hlive j).mp hj)]
  · rw [hino, h.links j ((hlive j).mp hj)]

theorem sfs_sync_inode_run (h : Since L s₀ δ s) (hv : s.vnodes i = some v) :
    ∃ s', sfs_sync_inode i s = .ok (.ok (), s') ∧ Since L s₀ δ s' ∧ SameFiles s s' ∧ SameVolume s s' ∧
      s'.sfs_freemap = s.sfs_freemap ∧
      s'.vnodes = Function.update s.vnodes i (some { v with sv_dirty := false }) := by
  have hi := used_lt (h.mem_used (live_of_vnode hv))
  rw [sfs_sync_inode, bind_ok (getv_run hv)]
  cases hd : v.sv_dirty with
  | true =>
    have hsame := (SameVolume.setBlock (h.mem_used (live_of_vnode hv)).2.2 v.sv_i.encode).trans
      (.setVnode _ i (some { v with sv_dirty := false }))
    refine ⟨(s.setBlock i v.sv_i.encode).setVnode i (some { v with sv_dirty := false }), ?_, (h.of_sync hv).1,
      (h.of_sync hv).2, hsame, rfl, rfl⟩
    rw [if_pos rfl]
    refine (bind_ok (sfs_wblock_run h.good.volume hi _)).trans ?_
    exact modv_run (show (s.setBlock i v.sv_i.encode).vnodes i = some v from hv) _
  | false =>
    refine ⟨s, rfl, h, .refl s, .refl s, rfl, ?_⟩
    have : ({ v with sv_dirty := false } : Vnode) = v := by rw [← hd]
    rw [this, ← hv, Function.update_eq_self]

end Sync

end Os161
