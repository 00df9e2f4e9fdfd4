import Os161.Sfs.Blocks

/-! # Mapping the blocks of a file

What a file operation leaves alone, and `sfs_bmap` with its three allocations.
-/

namespace Os161

open Prog Words

/-! ## Steps of one file -/

structure SameFile (v v' : Vnode) : Prop where
  ops : v'.vn_ops = v.vn_ops
  refcount : v'.vn_refcount = v.vn_refcount
  opencount : v'.vn_opencount = v.vn_opencount
  type : v'.sv_i.sfi_type = v.sv_i.sfi_type
  linkcount : v'.sv_i.sfi_linkcount = v.sv_i.sfi_linkcount
  clean : v'.sv_dirty = false → v' = v

namespace SameFile

variable {v v' v'' : Vnode}

theorem refl (v : Vnode) : SameFile v v := ⟨rfl, rfl, rfl, rfl, rfl, fun _ => rfl⟩

theorem trans (h : SameFile v v') (h' : SameFile v' v'') : SameFile v v'' where
  ops := h'.ops.trans h.ops
  refcount := h'.refcount.trans h.refcount
  opencount := h'.opencount.trans h.opencount
  type := h'.type.trans h.type
  linkcount := h'.linkcount.trans h.linkcount
  clean hd := by
    have h1 := h'.clean hd
    rw [h1] at hd ⊢
    exact h.clean hd

theorem setDirect (v : Vnode) (k : Fin 15) (b : Nat) : SameFile v (v.setDirect k b) :=
  ⟨rfl, rfl, rfl, rfl, rfl, fun h => nomatch h⟩

theorem setIndirect (v : Vnode) (b : Nat) : SameFile v (v.setIndirect b) :=
  ⟨rfl, rfl, rfl, rfl, rfl, fun h => nomatch h⟩

theorem setSize (v : Vnode) (size : Int) : SameFile v (v.setSize size) :=
  ⟨rfl, rfl, rfl, rfl, rfl, fun h => nomatch h⟩

end SameFile

structure FileStep (I : Set Nat) (i : Nat) (s s' : Sfs) : Prop where
  good : s'.Good I
  same : SameVolume s s'
  others : ∀ j ∈ I, j ≠ i → Untouched s s' j
  vnodes : ∀ j, j ≠ i → s'.vnodes j = s.vnodes j
  inode : s'.sect i = s.sect i
  tight : ∀ b ∈ s'.used, (b ∈ s.used ∧ ∀ k, s.ref i k ≠ b) ∨ ∃ k, s'.ref i k = b
  vnode : ∃ v v', s.vnodes i = some v ∧ s'.vnodes i = some v' ∧ SameFile v v'

namespace FileStep

variable {I : Set Nat} {i : Nat} {s s' s'' : Sfs}

theorem tight_of_same (hused : s'.used = s.used) (href : s'.ref i = s.ref i) :
    ∀ b ∈ s'.used, (b ∈ s.used ∧ ∀ k, s.ref i k ≠ b) ∨ ∃ k, s'.ref i k = b := by
  intro b hb
  by_cases h : ∃ k, s'.ref i k = b
  · exact .inr h
  · rw [hused] at hb
    rw [href] at h
    exact .inl ⟨hb, fun k hk => h ⟨k, hk⟩⟩

theorem refl {v : Vnode} (hg : s.Good I) (hv : s.vnodes i = some v) : FileStep I i s s :=
  ⟨hg, .refl s, fun j _ _ => .refl s j, fun _ _ => rfl, rfl, tight_of_same rfl rfl, v, v, hv, hv, .refl v⟩

theorem trans (h : FileStep I i s s') (h' : FileStep I i s' s'') : FileStep I i s s'' where
  good := h'.good
  same := h.same.trans h'.same
  others j hj hne := (h.others j hj hne).trans (h.good.pos j hj) (h'.others j hj hne)
  vnodes j hne := (h'.vnodes j hne).trans (h.vnodes j hne)
  inode := h'.inode.trans h.inode
  tight b hb := by
    rcases h'.tight b hb with ⟨hb', hno⟩ | hk
    · exact (h.tight b hb').imp_right fun ⟨k, hk⟩ => absurd hk (hno k)
    · exact .inr hk
  vnode := by
    obtain ⟨v, v', hv, hv', hs⟩ := h.vnode
    obtain ⟨w, w', hw, hw', hs'⟩ := h'.vnode
    obtain rfl : v' = w := Option.some.inj (hv'.symm.trans hw)
    exact ⟨v, w', hv, hw', hs.trans hs'⟩

end FileStep

structure Extend (I : Set Nat) (i : Nat) (s s' : Sfs) : Prop extends FileStep I i s s' where
  bytes : s'.fileByte i = s.fileByte i
  size : s'.fileSize i = s.fileSize i

namespace Extend

variable {I : Set Nat} {i : Nat} {s s' s'' : Sfs}

theorem refl {v : Vnode} (hg : s.Good I) (hv : s.vnodes i = some v) : Extend I i s s :=
  ⟨.refl hg hv, rfl, rfl⟩

theorem trans (h : Extend I i s s') (h' : Extend I i s' s'') : Extend I i s s'' :=
  ⟨h.toFileStep.trans h'.toFileStep, h'.bytes.trans h.bytes, h'.size.trans h.size⟩

end Extend

section Take

variable {I : Set Nat} {i b : Nat} {s s₁ s' : Sfs} {v v' : Vnode} {k : Slot}

theorem Extend.of_take (hg : s.Good I) (hi : i ∈ I) (hv : s.vnodes i = some v) (hb : Balloc s s₁ b)
    (hsame : SameVolume s₁ s') (hV : s'.Volume) (hused : s'.used = s₁.used)
    (hv' : s'.vnodes i = some v') (hs : SameFile v v') (hsize : v'.sv_i.sfi_size = v.sv_i.sfi_size)
    (hvn : ∀ j, j ≠ i → s'.vnodes j = s.vnodes j)
    (hk : k ≠ .inode) (h0 : s.ref i k = 0) (href : ∀ l, s'.ref i l = if l = k then b else s.ref i l)
    (hsect : ∀ c, c ≠ b → c ≠ s.ref i .indirect → s'.sect c = s.sect c)
    (hzero : k ≠ .indirect → ∀ q < 512, s'.sect b q = 0) : Extend I i s s' := by
  have hpos := hg.pos i hi
  have hne : ∀ j ∈ I, ∀ l, s.ref j l ≠ 0 → s.ref j l ≠ b := by
    rintro j hj l hl rfl
    exact hb.fresh (hg.holding.mem j hj l hl)
  -- nobody else refers to the blocks written
  have hkeep : ∀ j ∈ I, ∀ l, (j, l) ≠ (i, .indirect) → s.ref j l ≠ 0 →
      s'.sect (s.ref j l) = s.sect (s.ref j l) := fun j hj l hjl hl =>
    hsect _ (hne j hj l hl) (hg.holding.ne hj hi hl hjl)
  have hothers : ∀ j ∈ I, j ≠ i → Untouched s s' j := fun j hj hji =>
    ⟨hvn j hji, fun l hl => hkeep j hj l (fun h => hji (Prod.mk.inj h).1) hl⟩
  have hhold : Holding I s'.ref s'.used := by
    rw [hused, hb.used]
    refine hg.holding.take hb.fresh (by rw [href, if_pos rfl]) ?_
    intro j hj l hjl _
    refine ⟨hj, ?_⟩
    by_cases hji : j = i
    · subst hji
      rw [href, if_neg fun h => hjl (by rw [h])]
    · rw [(hothers j hj hji).ref (hg.pos j hj)]
  have hinode : s'.sect i = s.sect i := by
    have := hkeep i hi .inode (by simp) hpos
    simpa using this
  have htight : ∀ c ∈ s'.used, (c ∈ s.used ∧ ∀ l, s.ref i l ≠ c) ∨ ∃ l, s'.ref i l = c := by
    intro c hc
    rw [hused, hb.used] at hc
    rcases hc with rfl | hc
    · exact .inr ⟨k, by rw [href, if_pos rfl]⟩
    · by_cases hl : ∃ l, s.ref i l = c
      · -- the place that was empty is not one that referred to a block
        obtain ⟨l, rfl⟩ := hl
        have hlk : l ≠ k := fun h => not_mem_used_zero (h0 ▸ h ▸ hc)
        exact .inr ⟨l, by rw [href, if_neg hlk]⟩
      · exact .inl ⟨hc, fun l h => hl ⟨l, h⟩⟩
  refine ⟨⟨⟨hg.pos, hV, hhold⟩, hb.same.trans hsame, hothers, hvn, hinode, htight, v, v', hv, hv', hs⟩, ?_, ?_⟩
  · apply fileByte_congr
    intro l hl hl' q hq
    rw [Sfs.slotByte, Sfs.slotByte, href]
    by_cases hlk : l = k
    · subst hlk
      rw [if_pos rfl, if_pos h0, if_neg hb.pos, hzero hl' q hq]
    · rw [if_neg hlk]
      split
      · rfl
      · rw [hkeep i hi l (fun h => hl' (Prod.mk.inj h).2) (by assumption)]
  · rw [Sfs.fileSize, Sfs.fileSize, inodeOf_some hv, inodeOf_some hv', hsize]

end Take

/-! ## `sfs_bmap` -/

def Mapped (I : Set Nat) (i : Nat) (s : Sfs) (k : Slot) (doalloc : Bool) : Except Errno Nat → Sfs → Prop
  | .ok b, s' => Extend I i s s' ∧ s'.ref i k = b ∧ (doalloc = true → b ≠ 0) ∧ (doalloc = false → s' = s)
  | .error e, s' => Extend I i s s' ∧ e = .ENOSPC ∧ doalloc = true ∧ s.ref i k = 0

section Bmap

variable {X : Panic → Prop} {I : Set Nat} {i : Nat} {s : Sfs} {v : Vnode} {doalloc : Bool}

theorem Mapped.trans {s₁ s₂ : Sfs} {k : Slot} {r : Except Errno Nat} (hd : doalloc = true) (h0 : s.ref i k = 0)
    (h : Extend I i s s₁) (h' : Mapped I i s₁ k doalloc r s₂) : Mapped I i s k doalloc r s₂ := by
  cases r with
  | ok b => exact ⟨h.trans h'.1, h'.2.1, h'.2.2.1, fun hf => by rw [hd] at hf; cases hf⟩
  | error e => exact ⟨h.trans h'.1, h'.2.1, hd, h0⟩

theorem bmap_check_holds {s' : Sfs} {k : Slot} {b : Nat} (hi : i ∈ I) (he : Extend I i s s')
    (hk : s'.ref i k = b) (hb : doalloc = true → b ≠ 0) (hs : doalloc = false → s' = s) :
    Holds X (sfs_bmap_check b) s' (Mapped I i s k doalloc) := by
  have hu : b ≠ 0 → b ∈ s'.used := by
    subst hk
    exact he.good.holding.mem i hi k
  exact holds_of_run (sfs_bmap_check_run hu) ⟨he, hk, hb, hs⟩

theorem ref_direct (hv : s.vnodes i = some v) (k : Fin 15) : s.ref i (.direct k) = v.sv_i.sfi_direct k := by
  rw [Sfs.ref, inodeOf_some hv]; rfl

theorem ref_indirect (hv : s.vnodes i = some v) : s.ref i .indirect = v.sv_i.sfi_indirect := by
  rw [Sfs.ref, inodeOf_some hv]; rfl

theorem ref_entry (hv : s.vnodes i = some v) (k : Fin 128) : s.ref i (.entry k) =
    if v.sv_i.sfi_indirect = 0 then 0 else wordAt (s.sect v.sv_i.sfi_indirect) k := by
  rw [Sfs.ref, inodeOf_some hv]; rfl

theorem sfs_bmap_direct_spec (hg : s.Good I) (hi : i ∈ I) (hv : s.vnodes i = some v) (k : Fin 15) :
    Holds X (sfs_bmap_direct i k doalloc) s (Mapped I i s (.direct k) doalloc) := by
  rw [sfs_bmap_direct]
  refine holds_bind_run (getv_run hv) ?_
  by_cases hc : v.sv_i.sfi_direct k = 0 ∧ doalloc = true
  · rw [if_pos hc]
    rcases sfs_balloc_cases hg.volume with h | ⟨b, s₁, h, hb⟩
    · exact holds_of_run (bind_error h) ⟨.refl hg hv, rfl, hc.2, by rw [ref_direct hv, hc.1]⟩
    refine holds_bind_run h ?_
    have hv₁ : s₁.vnodes i = some v := by rw [hb.vnodes, hv]
    refine holds_bind_run (modv_run hv₁ _) ?_
    have hv' : (s₁.setVnode i (some (v.setDirect k b))).vnodes i = some (v.setDirect k b) := by simp
    have he : Extend I i s (s₁.setVnode i (some (v.setDirect k b))) := by
      refine .of_take (k := .direct k) hg hi hv hb (.setVnode _ _ _) (hb.volume.setVnode _ _) rfl hv'
        (.setDirect v k b) rfl ?_ (by simp) (by rw [ref_direct hv, hc.1]) ?_ ?_ ?_
      · intro j hj
        simp [hj, hb.vnodes]
      · intro l
        cases l with
        | inode => rfl
        | direct l =>
          rw [ref_direct hv, ref_direct hv']
          by_cases hl : l = k
          · subst hl; simp [Vnode.setDirect]
          · simp [Vnode.setDirect, hl]
        | indirect => rw [ref_indirect hv, ref_indirect hv']; rfl
        | entry l =>
          rw [if_neg (by simp : Slot.entry l ≠ .direct k), ref_entry hv, ref_entry hv']
          by_cases h0 : v.sv_i.sfi_indirect = 0
          · rw [if_pos h0]; exact if_pos h0
          · -- the indirect block is in use, so it is not the new one
            have hne : v.sv_i.sfi_indirect ≠ b := by
              rintro rfl
              have := hg.holding.mem i hi .indirect
              rw [ref_indirect hv] at this
              exact hb.fresh (this h0)
            simp [Vnode.setDirect, hb.sect, hne]
      · intro c hc _
        simp [hb.sect, hc]
      · intro _ q _
        simp [hb.sect]
    refine bmap_check_holds hi he ?_ (fun _ => hb.pos) fun hf => by rw [hc.2] at hf; cases hf
    rw [ref_direct hv']; simp [Vnode.setDirect]
  · rw [if_neg hc]
    refine bmap_check_holds hi (.refl hg hv) (ref_direct hv k) (fun hd h0 => hc ⟨h0, hd⟩) fun _ => rfl

theorem sfs_bmap_entry_spec (hg : s.Good I) (hi : i ∈ I) (hv : s.vnodes i = some v) (k : Fin 128)
    (hid : v.sv_i.sfi_indirect ≠ 0) {idbuf : Nat → Nat}
    (hbuf : ∀ l < 128, idbuf l = wordAt (s.sect v.sv_i.sfi_indirect) l) :
    Holds X (sfs_bmap_entry v.sv_i.sfi_indirect idbuf k doalloc) s (Mapped I i s (.entry k) doalloc) := by
  have hrefk : ∀ l : Fin 128, s.ref i (.entry l) = idbuf l := fun l => by
    rw [ref_entry hv, if_neg hid, hbuf l l.isLt]
  have hidu : v.sv_i.sfi_indirect ∈ s.used := by
    have := hg.holding.mem i hi .indirect
    rw [ref_indirect hv] at this
    exact this hid
  rw [sfs_bmap_entry]
  by_cases hc : idbuf k = 0 ∧ doalloc = true
  · rw [if_pos hc]
    rcases sfs_balloc_cases hg.volume with h | ⟨b, s₁, h, hb⟩
    · exact holds_of_run (bind_error h) ⟨.refl hg hv, rfl, hc.2, by rw [hrefk, hc.1]⟩
    refine holds_bind_run h ?_
    have hlt : v.sv_i.sfi_indirect < s₁.sfs_super.sp_nblocks := by rw [hb.same.super]; exact used_lt hidu
    have hw := sfs_wblock_run hb.volume hlt (bytesOf (Function.update idbuf k b))
    refine holds_bind_run hw ?_
    have hne : b ≠ v.sv_i.sfi_indirect := fun h => hb.fresh (h ▸ hidu)
    have hv' : (s₁.setBlock v.sv_i.sfi_indirect (bytesOf (Function.update idbuf k b))).vnodes i = some v := by
      rw [setBlock_vnodes, hb.vnodes, hv]
    have hb32 : b < 2 ^ 32 := by have := hg.volume.nblocks_le; have := hb.lt; omega
    have hword : ∀ l : Fin 128, (s₁.setBlock v.sv_i.sfi_indirect
        (bytesOf (Function.update idbuf k b))).ref i (.entry l) = if l = k then b else idbuf l := by
      intro l
      rw [ref_entry hv', if_neg hid, setBlock_sect, Function.update_self,
        wordAt_congr (n := bytesOf (Function.update idbuf k b)), wordAt_bytesOf]
      · by_cases hl : l = k
        · subst hl; rw [if_pos rfl, Function.update_self, Nat.mod_eq_of_lt hb32]
        · rw [if_neg hl, Function.update_of_ne (fun h => hl (Fin.ext h)), Nat.mod_eq_of_lt]
          rw [hbuf l l.isLt]; exact wordAt_lt _ _
      · intro q _ hq
        rw [if_pos (by omega)]
    have hres : ¬ s₁.Reserved v.sv_i.sfi_indirect := fun h => hidu.2.2 ((hb.same.reserved _).mp h)
    have he : Extend I i s (s₁.setBlock v.sv_i.sfi_indirect (bytesOf (Function.update idbuf k b))) := by
      refine .of_take (k := .entry k) hg hi hv hb (.setBlock hres _) (hb.volume.setBlock _ _) rfl hv'
        (.refl v) rfl (fun j _ => by rw [setBlock_vnodes, hb.vnodes]) (by simp) (by rw [hrefk, hc.1]) ?_ ?_ ?_
      · intro l
        cases l with
        | inode => rfl
        | direct l => rw [ref_direct hv, ref_direct hv', if_neg (by simp)]
        | indirect => rw [ref_indirect hv, ref_indirect hv', if_neg (by simp)]
        | entry l => rw [hword, hrefk]; simp
      · intro c hcb hci
        rw [ref_indirect hv] at hci
        simp [hb.sect, hcb, hci]
      · intro _ q _
        simp [hb.sect, hne]
    refine bmap_check_holds hi he ?_ (fun _ => hb.pos) fun hf => by rw [hc.2] at hf; cases hf
    rw [hword, if_pos rfl]
  · rw [if_neg hc]
    exact bmap_check_holds hi (.refl hg hv) (hrefk k) (fun hd h0 => hc ⟨h0, hd⟩) fun _ => rfl

theorem sfs_bmap_indirect_spec (hg : s.Good I) (hi : i ∈ I) (hv : s.vnodes i = some v) (k : Fin 128) :
    Holds X (sfs_bmap_indirect i k doalloc) s (Mapped I i s (.entry k) doalloc) := by
  rw [sfs_bmap_indirect]
  refine holds_bind_run (getv_run hv) ?_
  by_cases hid : v.sv_i.sfi_indirect = 0
  · have hhole : s.ref i (.entry k) = 0 := by rw [ref_entry hv, if_pos hid]
    by_cases hd : doalloc = false
    · -- a hole of a file without an indirect block
      rw [if_pos ⟨hid, hd⟩]
      refine holds_pure ⟨.refl hg hv, hhole, fun h => ?_, fun _ => rfl⟩
      rw [hd] at h; cases h
    have hd' : doalloc = true := by simpa using hd
    rw [if_neg fun h => hd h.2, if_pos hid]
    rcases sfs_balloc_cases hg.volume with h | ⟨b, s₁, h, hb⟩
    · exact holds_of_run (bind_error h) ⟨.refl hg hv, rfl, hd', hhole⟩
    refine holds_bind_run h ?_
    have hv₁ : s₁.vnodes i = some v := by rw [hb.vnodes, hv]
    refine holds_bind_run (modv_run hv₁ _) ?_
    have hv' : (s₁.setVnode i (some (v.setIndirect b))).vnodes i = some (v.setIndirect b) := by simp
    have he : Extend I i s (s₁.setVnode i (some (v.setIndirect b))) := by
      refine .of_take (k := .indirect) hg hi hv hb (.setVnode _ _ _) (hb.volume.setVnode _ _) rfl hv'
        (.setIndirect v b) rfl ?_ (by simp) (by rw [ref_indirect hv, hid]) ?_ ?_ (fun h => absurd rfl h)
      · intro j hj
        simp [hj, hb.vnodes]
      · intro l
        cases l with
        | inode => rfl
        | direct l => rw [ref_direct hv, ref_direct hv', if_neg (by simp)]; rfl
        | indirect => rw [ref_indirect hv', if_pos rfl]; rfl
        | entry l =>
          rw [if_neg (by simp : Slot.entry l ≠ .indirect), ref_entry hv, ref_entry hv', if_pos hid]
          refine (if_neg hb.pos).trans ?_
          exact wordAt_zero _ fun q _ _ => by simp [hb.sect, Vnode.setIndirect]
      · intro c hc _
        simp [hb.sect, hc]
    refine (sfs_bmap_entry_spec he.good hi hv' k hb.pos ?_).imp fun r t h => h.trans hd' hhole he
    intro l hl
    exact (wordAt_zero _ fun q _ _ => by simp [hb.sect, Vnode.setIndirect]).symm
  · rw [if_neg fun h => hid h.1, if_neg hid]
    have hidu := hg.holding.mem i hi .indirect
    rw [ref_indirect hv] at hidu
    have hr := sfs_rblock_run hg.volume (used_lt (hidu hid))
    refine holds_bind_run hr ?_
    refine sfs_bmap_entry_spec hg hi hv k hid fun l hl => wordAt_congr fun q _ hq => ?_
    rw [if_pos (by omega)]

theorem sfs_bmap_spec (doalloc : Bool) (hg : s.Good I) (hi : i ∈ I) (hv : s.vnodes i = some v) {fileblock : Nat} {k : Slot}
    (hk : slotOf fileblock = some k) :
    Holds X (sfs_bmap i fileblock doalloc) s (Mapped I i s k doalloc) := by
  rw [slotOf] at hk
  rw [sfs_bmap]
  by_cases h15 : fileblock < 15
  · rw [dif_pos h15] at hk ⊢
    cases hk
    exact sfs_bmap_direct_spec hg hi hv _
  rw [dif_neg h15] at hk ⊢
  by_cases h128 : fileblock - 15 < 128
  · rw [dif_pos h128] at hk
    cases hk
    rw [if_neg (by simp only [SFS_NDIRECT, SFS_DBPERIDB]; omega)]
    have : (fileblock - SFS_NDIRECT) % SFS_DBPERIDB = fileblock - 15 := Nat.mod_eq_of_lt h128
    rw [this]
    exact sfs_bmap_indirect_spec hg hi hv ⟨_, h128⟩
  · rw [dif_neg h128] at hk
    cases hk

theorem sfs_bmap_none {fileblock : Nat} (hk : slotOf fileblock = none) :
    sfs_bmap i fileblock doalloc s = .ok (.error .EINVAL, s) := by
  have := slotOf_eq_none.mp hk
  rw [sfs_bmap, dif_neg (by omega), if_pos (by simp only [SFS_NDIRECT, SFS_DBPERIDB]; omega)]
  rfl

theorem sfs_bmap_read (hg : s.Good I) (hi : i ∈ I) (hv : s.vnodes i = some v) {fileblock : Nat} {k : Slot}
    (hk : slotOf fileblock = some k) : sfs_bmap i fileblock false s = .ok (.ok (s.ref i k), s) := by
  obtain ⟨r, t, hrun, h⟩ := (sfs_bmap_spec false hg hi hv hk).exists
  cases r with
  | ok b =>
    obtain ⟨-, rfl, -, ht⟩ := h
    rw [hrun, ht rfl]
  | error e => cases h.2.2.1

theorem sfs_bmap_write (hg : s.Good I) (hi : i ∈ I) (hv : s.vnodes i = some v) {fileblock : Nat} {k : Slot}
    (hk : slotOf fileblock = some k) :
    (∃ t, sfs_bmap i fileblock true s = .ok (.ok (t.ref i k), t) ∧ Extend I i s t ∧ t.ref i k ≠ 0) ∨
    ∃ t, sfs_bmap i fileblock true s = .ok (.error .ENOSPC, t) ∧ Extend I i s t ∧ s.ref i k = 0 := by
  obtain ⟨r, t, hrun, h⟩ := (sfs_bmap_spec true hg hi hv hk).exists
  cases r with
  | ok b =>
    obtain ⟨hext, rfl, h0, -⟩ := h
    exact Or.inl ⟨t, hrun, hext, h0 rfl⟩
  | error e =>
    obtain ⟨hext, rfl, -, h0⟩ := h
    exact Or.inr ⟨t, hrun, hext, h0⟩

end Bmap

end Os161
