import Mathlib.Order.Fin.Basic
import Os161.Sfs.ReadWrite

/-! # Truncating a file -/

namespace Os161

open Prog Words

section Drop

variable {I : Set Nat} {i : Nat} {s s' : Sfs} {v v' : Vnode}

theorem FileStep.of_drop (hg : s.Good I) (hi : i ∈ I) (hv : s.vnodes i = some v) (hsame : SameVolume s s')
    (hV : s'.Volume) (hv' : s'.vnodes i = some v') (hs : SameFile v v')
    (hvn : ∀ j, j ≠ i → s'.vnodes j = s.vnodes j)
    (href : ∀ k, s'.ref i k = 0 ∨ s'.ref i k = s.ref i k)
    (hused : ∀ c ∈ s.used, c ∉ s'.used → ∃ k, s.ref i k = c ∧ s'.ref i k = 0) (hsub : s'.used ⊆ s.used)
    (hgone : ∀ k, s'.ref i k = 0 → s.ref i k ∉ s'.used)
    (hsect : ∀ c, c ≠ s.ref i .indirect → s'.sect c = s.sect c) : FileStep I i s s' := by
  have hothers : ∀ j ∈ I, j ≠ i → Untouched s s' j := fun j hj hji =>
    ⟨hvn j hji, fun l hl => hsect _ (hg.holding.ne hj hi hl fun h => hji (Prod.mk.inj h).1)⟩
  have hkeep : ∀ j ∈ I, ∀ l, s'.ref j l ≠ 0 → s'.ref j l = s.ref j l := by
    intro j hj l h0
    by_cases hji : j = i
    · subst hji
      exact (href l).resolve_left h0
    · rw [(hothers j hj hji).ref (hg.pos j hj)]
  refine ⟨⟨hg.pos, hV, ?_⟩, hsame, hothers, hvn, ?_, fun c hc => ?_, v, v', hv, hv', hs⟩
  · refine hg.holding.drop (Set.Subset.refl I) hkeep fun j hj l h0 hmem => ?_
    by_contra hfree
    obtain ⟨k, hk, hk0⟩ := hused _ hmem hfree
    have hr := hkeep j hj l h0
    obtain ⟨rfl, rfl⟩ := hg.holding.inj j hj i hi l k (hr ▸ h0) (by rw [← hr, hk])
    exact h0 hk0
  · have hne := hg.holding.ne hi hi (k := .inode) (l := .indirect) (hg.pos i hi) (by simp)
    exact hsect i hne
  · by_cases hk : ∃ k, s.ref i k = c
    · obtain ⟨k, rfl⟩ := hk
      exact .inr ⟨k, (href k).resolve_left fun h0 => hgone k h0 hc⟩
    · exact .inl ⟨hsub hc, fun k h => hk ⟨k, h⟩⟩

end Drop

section Truncate

variable {X : Panic → Prop} {I : Set Nat} {i : Nat} {s : Sfs} {v : Vnode}

/-! ## The direct blocks -/

theorem sfs_truncate_direct_run (blocklen : Nat) (hg : s.Good I) (hi : i ∈ I) (hv : s.vnodes i = some v)
    (k : Fin 15) :
    ∃ s', sfs_truncate_direct i blocklen k s = .ok (.ok (), s') ∧ FileStep I i s s' ∧ s'.sect = s.sect ∧
      ∀ l, s'.ref i l = if l = .direct k ∧ blocklen ≤ k then 0 else s.ref i l := by
  rw [sfs_truncate_direct, bind_ok (getv_run hv)]
  by_cases hc : blocklen ≤ k ∧ v.sv_i.sfi_direct k ≠ 0
  · have hmem := hg.holding.mem i hi (.direct k)
    rw [ref_direct hv] at hmem
    obtain ⟨s₁, hrun, hb⟩ := sfs_bfree_run hg.volume (hmem hc.2)
    have hv₁ : s₁.vnodes i = some v := by rw [hb.vnodes, hv]
    have hv' : (s₁.setVnode i (some (v.setDirect k 0))).vnodes i = some (v.setDirect k 0) := by simp
    have href : ∀ l, (s₁.setVnode i (some (v.setDirect k 0))).ref i l =
        if l = .direct k ∧ blocklen ≤ k then 0 else s.ref i l := by
      intro l
      cases l with
      | inode => rw [if_neg (by simp), ref_inode, ref_inode]
      | direct l =>
        rw [ref_direct hv, ref_direct hv']
        by_cases hl : l = k
        · subst hl; rw [if_pos ⟨rfl, hc.1⟩]; simp [Vnode.setDirect]
        · rw [if_neg (by simp [hl])]; simp [Vnode.setDirect, hl]
      | indirect => rw [if_neg (by simp), ref_indirect hv, ref_indirect hv']; rfl
      | entry l =>
        rw [if_neg (by simp : ¬ (Slot.entry l = .direct k ∧ blocklen ≤ k)), ref_entry hv, ref_entry hv',
          setVnode_sect, hb.sect]
        rfl
    refine ⟨s₁.setVnode i (some (v.setDirect k 0)), ?_, ?_, hb.sect, href⟩
    · rw [if_pos hc, bind_ok hrun, modv_run hv₁]
    · refine .of_drop hg hi hv (hb.same.trans (.setVnode _ _ _)) (hb.volume.setVnode _ _) hv'
        (.setDirect v k 0) (fun j hj => by simp [hj, hb.vnodes]) (fun l => ?_) ?_ ?_ (fun l h0 hmem' => ?_)
        fun c _ => by rw [setVnode_sect, hb.sect]
      · rw [href]; split
        · exact Or.inl rfl
        · exact Or.inr rfl
      · intro c hc' hfree
        refine ⟨.direct k, ?_, by rw [href, if_pos ⟨rfl, hc.1⟩]⟩
        rw [setVnode_used, hb.used] at hfree
        rw [ref_direct hv]
        by_contra hne
        exact hfree ⟨hc', fun h => hne h.symm⟩
      · rw [setVnode_used, hb.used]
        exact fun _ h => h.1
      · rw [setVnode_used, hb.used] at hmem'
        rw [href] at h0
        split at h0
        · rename_i hl
          rw [hl.1, ref_direct hv] at hmem'
          exact hmem'.2 rfl
        · exact not_mem_used_zero (h0 ▸ hmem'.1)
  · refine ⟨s, by rw [if_neg hc]; rfl, .refl hg hv, rfl, fun l => ?_⟩
    split
    · rename_i h
      rw [h.1, ref_direct hv]
      by_contra h0
      exact hc ⟨h.2, h0⟩
    · rfl

theorem sfs_truncate_directs_run (blocklen : Nat) (hg : s.Good I) (hi : i ∈ I) (hv : s.vnodes i = some v)
    (ks : List (Fin 15)) :
    ∃ s', sfs_truncate_directs i blocklen ks s = .ok (.ok (), s') ∧ FileStep I i s s' ∧ s'.sect = s.sect ∧
      ∀ l, s'.ref i l = if ∃ k ∈ ks, l = .direct k ∧ blocklen ≤ k then 0 else s.ref i l := by
  induction ks generalizing s v with
  | nil => exact ⟨s, rfl, .refl hg hv, rfl, fun l => by rw [if_neg (by simp)]⟩
  | cons k ks ih =>
    obtain ⟨s₁, hrun, hstep, hsect, href⟩ := sfs_truncate_direct_run blocklen hg hi hv k
    obtain ⟨-, v₁, -, hv₁, -⟩ := hstep.vnode
    obtain ⟨s₂, hrun', hstep', hsect', href'⟩ := ih hstep.good hv₁
    refine ⟨s₂, by rw [sfs_truncate_directs, bind_ok hrun, hrun'], hstep.trans hstep', hsect'.trans hsect,
      fun l => ?_⟩
    rw [href', href]
    simp only [List.mem_cons, exists_eq_or_imp]
    split <;> split <;> simp_all

/-! ## The indirect block -/

structure Freed (s : Sfs) (idbuf : Nat → Nat) (s' : Sfs) (idbuf' : Nat → Nat) : Prop where
  same : SameVolume s s'
  volume : s'.Volume
  vnodes : s'.vnodes = s.vnodes
  sect : s'.sect = s.sect
  subset : s'.used ⊆ s.used
  buf : ∀ j, idbuf' j = 0 ∨ idbuf' j = idbuf j
  used : ∀ c ∈ s.used, c ∉ s'.used → ∃ j < 128, idbuf j = c ∧ idbuf' j = 0
  gone : ∀ j, idbuf j ≠ 0 → idbuf' j = 0 → idbuf j ∉ s'.used

theorem Freed.refl (hV : s.Volume) (idbuf : Nat → Nat) : Freed s idbuf s idbuf :=
  ⟨.refl s, hV, rfl, rfl, Set.Subset.refl _, fun _ => Or.inr rfl, fun _ h h' => absurd h h', fun _ h h' => absurd h' h⟩

theorem Freed.step {s₁ s₂ : Sfs} {idbuf idbuf₁ : Nat → Nat} {j : Nat} (h : Freed s idbuf s₁ idbuf₁)
    (hj : j < 128) (h0 : idbuf₁ j ≠ 0) (hb : Bfree s₁ s₂ (idbuf₁ j)) :
    Freed s idbuf s₂ (Function.update idbuf₁ j 0) where
  same := h.same.trans hb.same
  volume := hb.volume
  vnodes := hb.vnodes.trans h.vnodes
  sect := hb.sect.trans h.sect
  subset c hc := by
    rw [hb.used] at hc
    exact h.subset hc.1
  buf l := by
    by_cases hl : l = j
    · subst hl; simp
    · simpa [hl] using h.buf l
  used c hc hfree := by
    by_cases hc₁ : c ∈ s₁.used
    · refine ⟨j, hj, ?_, by simp⟩
      rw [← (h.buf j).resolve_left h0]
      rw [hb.used] at hfree
      by_contra hne
      exact hfree ⟨hc₁, fun h => hne h.symm⟩
    · obtain ⟨l, hl, he, hl0⟩ := h.used c hc hc₁
      refine ⟨l, hl, he, ?_⟩
      by_cases hlj : l = j
      · subst hlj; simp
      · simpa [hlj] using hl0
  gone l hl hl0 hmem := by
    rw [hb.used] at hmem
    by_cases hlj : l = j
    · subst hlj
      exact hmem.2 ((h.buf l).resolve_left h0).symm
    · rw [Function.update_of_ne hlj] at hl0
      exact h.gone l hl hl0 hmem.1

structure Entries (s : Sfs) (idbuf : Nat → Nat) : Prop where
  mem : ∀ j < 128, idbuf j ≠ 0 → idbuf j ∈ s.used
  inj : ∀ j < 128, ∀ l < 128, idbuf j ≠ 0 → idbuf j = idbuf l → j = l

theorem Freed.mem {s₁ : Sfs} {idbuf idbuf₁ : Nat → Nat} (h : Freed s idbuf s₁ idbuf₁)
    (hent : Entries s idbuf) {j : Nat} (hj : j < 128) (h0 : idbuf₁ j ≠ 0) : idbuf₁ j ∈ s₁.used := by
  have he := (h.buf j).resolve_left h0
  by_contra hfree
  rw [he] at h0 hfree
  obtain ⟨l, hl, hlj, hl0⟩ := h.used _ (hent.mem j hj h0) hfree
  obtain rfl := hent.inj j hj l hl h0 hlj.symm
  exact h0 (he ▸ hl0)

/-- The loop over the entries: the induction is on the entries left, and carries `Freed`. -/
theorem sfs_truncate_entries_run (blocklen : Nat) {idbuf : Nat → Nat} (hent : Entries s idbuf)
    (js : List Nat) : ∀ {s₁ : Sfs} {idbuf₁ : Nat → Nat} (hasnonzero iddirty : Bool), (∀ j ∈ js, j < 128) →
    Freed s idbuf s₁ idbuf₁ →
    ∃ s' idbuf' hasnonzero' iddirty',
      sfs_truncate_entries blocklen js idbuf₁ hasnonzero iddirty s₁ =
        .ok (.ok (idbuf', hasnonzero', iddirty'), s') ∧
      Freed s idbuf s' idbuf' ∧
      (iddirty' = false → iddirty = false ∧ idbuf' = idbuf₁) ∧
      (∀ j, idbuf' j = if j ∈ js ∧ blocklen < 15 + j then 0 else idbuf₁ j) ∧
      (hasnonzero' = true ↔ hasnonzero = true ∨ ∃ j ∈ js, idbuf' j ≠ 0) := by
  induction js with
  | nil =>
    intro s₁ idbuf₁ hasnonzero iddirty _ h
    exact ⟨s₁, idbuf₁, hasnonzero, iddirty, rfl, h, fun hd => ⟨hd, rfl⟩, fun j => by simp, by simp⟩
  | cons j js ih =>
    intro s₁ idbuf₁ hasnonzero iddirty hlt h
    have hj := hlt j (List.mem_cons_self)
    have hlt' : ∀ l ∈ js, l < 128 := fun l hl => hlt l (List.mem_cons_of_mem j hl)
    rw [sfs_truncate_entries]
    by_cases hc : blocklen < SFS_NDIRECT + j ∧ idbuf₁ j ≠ 0
    · obtain ⟨s₂, hrun, hb⟩ := sfs_bfree_run h.volume (h.mem hent hj hc.2)
      obtain ⟨s', idbuf', hn', dirty', hrun', hfr, hd, hbuf, hnz⟩ := ih hasnonzero true hlt' (h.step hj hc.2 hb)
      refine ⟨s', idbuf', hn', dirty', by rw [if_pos hc, bind_ok hrun, hrun'], hfr, ?_, ?_, ?_⟩
      · exact fun h => nomatch (hd h).1
      · intro l
        rw [hbuf]
        by_cases hl : l = j
        · subst hl
          rw [Function.update_self, ite_self, if_pos ⟨List.mem_cons_self, hc.1⟩]
        · rw [Function.update_of_ne hl]
          simp [hl]
      · rw [hnz]
        have : idbuf' j = 0 := by rw [hbuf, Function.update_self, ite_self]
        simp [this]
    · obtain ⟨s', idbuf', hn', dirty', hrun', hfr, hd, hbuf, hnz⟩ := ih
        (hasnonzero || decide (idbuf₁ j ≠ 0)) iddirty hlt' h
      refine ⟨s', idbuf', hn', dirty', by rw [if_neg hc, hrun'], hfr, hd, ?_, ?_⟩
      · intro l
        rw [hbuf]
        by_cases hl : l = j
        · subst hl
          by_cases hb : blocklen < 15 + l
          · have : idbuf₁ l = 0 := by_contra fun h => hc ⟨hb, h⟩
            simp [hb, this]
          · simp [hb]
        · simp [hl]
      · have hiff : idbuf₁ j ≠ 0 ↔ idbuf' j ≠ 0 := by
          rw [hbuf]
          by_cases hb : blocklen < 15 + j
          · have : idbuf₁ j = 0 := by_contra fun h => hc ⟨hb, h⟩
            simp [this]
          · simp [hb]
        rw [hnz, Bool.or_eq_true, decide_eq_true_iff, hiff]
        simp only [List.mem_cons, exists_eq_or_imp, or_assoc]

theorem entries_of_good (hg : s.Good I) (hi : i ∈ I) (hv : s.vnodes i = some v)
    (hid : v.sv_i.sfi_indirect ≠ 0) {idbuf : Nat → Nat}
    (hbuf : ∀ j < 128, idbuf j = wordAt (s.sect v.sv_i.sfi_indirect) j) :
    Entries s idbuf ∧ ∀ j : Fin 128, s.ref i (.entry j) = idbuf j := by
  have href : ∀ j : Fin 128, s.ref i (.entry j) = idbuf j := fun j => by
    rw [ref_entry hv, if_neg hid, hbuf j j.isLt]
  refine ⟨⟨fun j hj h0 => ?_, fun j hj l hl h0 he => ?_⟩, href⟩
  · have := hg.holding.mem i hi (.entry ⟨j, hj⟩)
    rw [href] at this
    exact this h0
  · have := hg.holding.inj i hi i hi (.entry ⟨j, hj⟩) (.entry ⟨l, hl⟩)
    rw [href, href] at this
    simpa using (this h0 he).2

theorem Freed.indirect {s₁ : Sfs} {idbuf idbuf₁ : Nat → Nat} (h : Freed s idbuf s₁ idbuf₁) (hg : s.Good I)
    (hi : i ∈ I) (h0 : s.ref i .indirect ≠ 0) (href : ∀ j : Fin 128, s.ref i (.entry j) = idbuf j) :
    s.ref i .indirect ∈ s₁.used := by
  by_contra hfree
  obtain ⟨j, hj, he, -⟩ := h.used _ (hg.holding.mem i hi _ h0) hfree
  exact hg.holding.ne hi hi h0 (l := .entry ⟨j, hj⟩) (by simp) (by rw [href, he])

theorem truncate_drop_indirect {s₁ : Sfs} {idbuf idbuf' : Nat → Nat} (hg : s.Good I) (hi : i ∈ I)
    (hv : s.vnodes i = some v) (hid : v.sv_i.sfi_indirect ≠ 0) (hfr : Freed s idbuf s₁ idbuf')
    (href : ∀ j : Fin 128, s.ref i (.entry j) = idbuf j) (hzero : ∀ j < 128, idbuf' j = 0) :
    ∃ s₂, sfs_bfree v.sv_i.sfi_indirect s₁ = .ok (.ok (), s₂) ∧ s₂.vnodes i = some v ∧
      FileStep I i s (s₂.setVnode i (some (v.setIndirect 0))) ∧ s₂.sect = s.sect ∧
      ∀ k, (s₂.setVnode i (some (v.setIndirect 0))).ref i k =
        match k with
        | .indirect => 0
        | .entry _ => 0
        | k => s.ref i k := by
  have hmem := hfr.indirect hg hi (by rw [ref_indirect hv]; exact hid) href
  rw [ref_indirect hv] at hmem
  obtain ⟨s₂, hrun, hb⟩ := sfs_bfree_run hfr.volume hmem
  have hv₂ : s₂.vnodes i = some v := by rw [hb.vnodes, hfr.vnodes, hv]
  have hv' : (s₂.setVnode i (some (v.setIndirect 0))).vnodes i = some (v.setIndirect 0) := by simp
  have hrefs : ∀ k, (s₂.setVnode i (some (v.setIndirect 0))).ref i k =
      match k with
      | .indirect => 0
      | .entry _ => 0
      | k => s.ref i k := by
    intro k
    cases k with
    | inode => rfl
    | direct k => exact (ref_direct hv' k).trans (ref_direct hv k).symm
    | indirect => rw [ref_indirect hv']; rfl
    | entry k => rw [ref_entry hv']; rfl
  refine ⟨s₂, hrun, hv₂, ?_, hb.sect.trans hfr.sect, hrefs⟩
  refine .of_drop hg hi hv (hfr.same.trans (hb.same.trans (.setVnode _ _ _))) (hb.volume.setVnode _ _) hv'
    (.setIndirect v 0) (fun j hj => by simp [hj, hb.vnodes, hfr.vnodes]) (fun k => ?_) ?_ ?_ (fun k h0 hmem' => ?_)
    fun c _ => by rw [setVnode_sect, hb.sect, hfr.sect]
  · rw [hrefs]; cases k <;> simp
  · intro c hc hfree
    by_cases hc₁ : c ∈ s₁.used
    · refine ⟨.indirect, ?_, hrefs .indirect⟩
      rw [setVnode_used, hb.used] at hfree
      rw [ref_indirect hv]
      by_contra hne
      exact hfree ⟨hc₁, fun h => hne h.symm⟩
    · obtain ⟨j, hj, he, -⟩ := hfr.used c hc hc₁
      exact ⟨.entry ⟨j, hj⟩, (href ⟨j, hj⟩).trans he, hrefs _⟩
  · rw [setVnode_used, hb.used]
    exact fun _ h => hfr.subset h.1
  · have hne : s.ref i k ≠ 0 := fun h => not_mem_used_zero (h ▸ hmem')
    rw [setVnode_used, hb.used] at hmem'
    rw [hrefs] at h0
    cases k with
    | inode => exact hne h0
    | direct k => exact hne h0
    | indirect => exact hmem'.2 (ref_indirect hv)
    | entry j =>
      rw [href] at hne hmem'
      exact hfr.gone j hne (hzero j j.isLt) hmem'.1

theorem truncate_keep_indirect {s₁ : Sfs} (s' : Sfs) {idbuf idbuf' : Nat → Nat} (hg : s.Good I) (hi : i ∈ I)
    (hv : s.vnodes i = some v) (hid : v.sv_i.sfi_indirect ≠ 0) (hfr : Freed s idbuf s₁ idbuf')
    (href : ∀ j : Fin 128, s.ref i (.entry j) = idbuf j) (hsame : SameVolume s₁ s') (hV : s'.Volume)
    (hused : s'.used = s₁.used) (hvn : s'.vnodes = s₁.vnodes)
    (hsect : ∀ c, c ≠ v.sv_i.sfi_indirect → s'.sect c = s₁.sect c)
    (hword : ∀ j < 128, wordAt (s'.sect v.sv_i.sfi_indirect) j = idbuf' j) :
    FileStep I i s s' ∧ ∀ k, s'.ref i k =
      match k with
      | .entry j => idbuf' j
      | k => s.ref i k := by
  have hv' : s'.vnodes i = some v := by rw [hvn, hfr.vnodes, hv]
  have hrefs : ∀ k, s'.ref i k =
      match k with
      | .entry j => idbuf' j
      | k => s.ref i k := by
    intro k
    cases k with
    | inode => rfl
    | direct k => exact (ref_direct hv' k).trans (ref_direct hv k).symm
    | indirect => exact (ref_indirect hv').trans (ref_indirect hv).symm
    | entry k => rw [ref_entry hv', if_neg hid]; exact hword k k.isLt
  refine ⟨?_, hrefs⟩
  refine .of_drop hg hi hv (hfr.same.trans hsame) hV hv' (.refl v) (fun j _ => by rw [hvn, hfr.vnodes])
    (fun k => ?_) ?_ (hused ▸ hfr.subset) (fun k h0 hmem => ?_) fun c hc => ?_
  · rw [hrefs]
    cases k with
    | entry k => rw [href]; exact hfr.buf k
    | _ => exact Or.inr rfl
  · intro c hc hfree
    rw [hused] at hfree
    obtain ⟨j, hj, he, h0⟩ := hfr.used c hc hfree
    exact ⟨.entry ⟨j, hj⟩, (href ⟨j, hj⟩).trans he, (hrefs _).trans h0⟩
  · have hne : s.ref i k ≠ 0 := fun h => not_mem_used_zero (h ▸ hmem)
    rw [hrefs] at h0
    cases k with
    | entry j =>
      rw [href] at hne hmem
      exact hfr.gone j hne h0 (hused ▸ hmem)
    | _ => exact hne h0
  · rw [ref_indirect hv] at hc
    rw [hsect c hc, hfr.sect]

structure Shortened (I : Set Nat) (i blocklen : Nat) (s s' : Sfs) : Prop extends FileStep I i s s' where
  direct : ∀ k, s'.ref i (.direct k) = s.ref i (.direct k)
  entry : ∀ j : Fin 128, s'.ref i (.entry j) = if blocklen < 15 + j then 0 else s.ref i (.entry j)
  indirect : s'.ref i .indirect =
    if blocklen < 142 ∧ ∀ j, s'.ref i (.entry j) = 0 then 0 else s.ref i .indirect
  sect : ∀ c, c ≠ s.ref i .indirect → s'.sect c = s.sect c

theorem sfs_truncate_indirect_run (blocklen : Nat) (hg : s.Good I) (hi : i ∈ I) (hv : s.vnodes i = some v) :
    ∃ s', sfs_truncate_indirect i blocklen s = .ok (.ok (), s') ∧ Shortened I i blocklen s s' := by
  rw [sfs_truncate_indirect, bind_ok (getv_run hv)]
  dsimp only
  by_cases hc : blocklen < SFS_NDIRECT + SFS_DBPERIDB - 1 ∧ v.sv_i.sfi_indirect ≠ 0
  swap
  · refine ⟨s, by rw [if_neg hc]; rfl, .refl hg hv, fun _ => rfl, fun j => ?_, ?_, fun _ _ => rfl⟩
    · split
      · have hid : v.sv_i.sfi_indirect = 0 := by_contra fun h =>
          hc ⟨by simp only [SFS_NDIRECT, SFS_DBPERIDB]; omega, h⟩
        rw [ref_entry hv, if_pos hid]
      · rfl
    · split
      · rename_i h
        rw [ref_indirect hv]
        exact by_contra fun hid => hc ⟨h.1, hid⟩
      · rfl
  rw [if_pos hc]
  have hid := hc.2
  have hlt := used_lt (hg.holding.mem i hi .indirect (by rw [ref_indirect hv]; exact hid))
  rw [ref_indirect hv] at hlt
  have hrd := sfs_rblock_run hg.volume hlt
  have hread : ∀ j < 128, wordAt (fun q => if q < 512 then s.sect v.sv_i.sfi_indirect q else 0) j =
      wordAt (s.sect v.sv_i.sfi_indirect) j := fun j hj => wordAt_congr fun q _ hq => if_pos (by omega)
  obtain ⟨hent, href⟩ := entries_of_good hg hi hv hid hread
  obtain ⟨s₁, idbuf', hn, dirty, hrun, hfr, hd, hbuf, hnz⟩ := sfs_truncate_entries_run
    blocklen hent (List.range SFS_DBPERIDB) false false
    (fun j hj => List.mem_range.mp hj) (Freed.refl hg.volume _)
  have hentry : ∀ j : Fin 128, idbuf' j = if blocklen < 15 + j then 0 else s.ref i (.entry j) := fun j => by
    rw [hbuf, href]
    simp only [List.mem_range.mpr j.isLt, true_and]
  have hres : ¬ s₁.Reserved v.sv_i.sfi_indirect := fun h =>
    (hg.holding.mem i hi .indirect (by rw [ref_indirect hv]; exact hid)).2.2
      (by rw [ref_indirect hv]; exact (hfr.same.reserved _).mp h)
  by_cases hn0 : hn = false
  · have hnone : ∀ j < 128, idbuf' j = 0 := fun j hj => by
      by_contra h0
      rw [hnz.mpr (.inr ⟨j, List.mem_range.mpr hj, h0⟩)] at hn0
      cases hn0
    obtain ⟨s₂, hrun₂, hv₂, hstep, hsect, hrefs⟩ := truncate_drop_indirect hg hi hv hid hfr href hnone
    refine ⟨_, ?_, hstep, fun k => hrefs (.direct k), fun j => ?_, ?_, fun c _ => by rw [setVnode_sect, hsect]⟩
    · refine (bind_ok hrd).trans ((bind_ok hrun).trans ?_)
      dsimp only
      rw [if_pos hn0, bind_ok hrun₂, modv_run hv₂]
    · rw [hrefs, ← hentry, hnone j j.isLt]
    · rw [if_pos ⟨hc.1, fun j => hrefs (.entry j)⟩]
      exact hrefs .indirect
  -- an entry is left, so the indirect block is
  obtain ⟨l, hl, hne⟩ := (hnz.mp (by simpa using hn0)).resolve_left (by simp)
  have hleft : ∀ {s' : Sfs}, (∀ k, s'.ref i k = match k with | .entry j => idbuf' j | k => s.ref i k) →
      s'.ref i .indirect = if blocklen < 142 ∧ ∀ j, s'.ref i (.entry j) = 0 then 0 else s.ref i .indirect := by
    intro s' hrefs
    rw [if_neg fun h => hne ((hrefs (.entry ⟨l, List.mem_range.mp hl⟩)).symm.trans (h.2 _))]
    exact hrefs .indirect
  have hlt₁ : v.sv_i.sfi_indirect < s₁.sfs_super.sp_nblocks := by rw [hfr.same.super]; exact hlt
  cases dirty with
  | true =>
    have hw := sfs_wblock_run hfr.volume hlt₁ (bytesOf idbuf')
    obtain ⟨hstep, hrefs⟩ := truncate_keep_indirect (s₁.setBlock v.sv_i.sfi_indirect (bytesOf idbuf'))
      hg hi hv hid hfr href (.setBlock hres _) (hfr.volume.setBlock _ _) rfl rfl
      (fun c hc => by rw [setBlock_sect, Function.update_of_ne hc]) fun j hj => by
        rw [setBlock_sect, Function.update_self, wordAt_congr (n := bytesOf idbuf') fun q _ hq => if_pos (by omega),
          wordAt_bytesOf, Nat.mod_eq_of_lt]
        rcases hfr.buf j with h | h <;> rw [h]
        · omega
        · exact wordAt_lt _ _
    refine ⟨_, ?_, hstep, fun k => hrefs (.direct k), fun j => (hrefs (.entry j)).trans (hentry j), hleft hrefs,
      fun c hc' => ?_⟩
    · refine (bind_ok hrd).trans ((bind_ok hrun).trans ?_)
      dsimp only
      rw [if_neg hn0, if_pos rfl, hw]
    · rw [ref_indirect hv] at hc'
      rw [setBlock_sect, Function.update_of_ne hc', hfr.sect]
  | false =>
    obtain ⟨hstep, hrefs⟩ := truncate_keep_indirect s₁ hg hi hv hid hfr href (.refl _) hfr.volume rfl rfl
      (fun c _ => rfl) fun j hj => by rw [hfr.sect, (hd rfl).2, hread j hj]
    refine ⟨_, ?_, hstep, fun k => hrefs (.direct k), fun j => (hrefs (.entry j)).trans (hentry j), hleft hrefs,
      fun c _ => by rw [hfr.sect]⟩
    refine (bind_ok hrd).trans ((bind_ok hrun).trans ?_)
    dsimp only
    rw [if_neg hn0, if_neg (by simp)]
    rfl

/-! ## `sfs_truncate` -/

def blocklen (len : Int) : Nat := toU32 ((toI32 (len + SFS_BLOCKSIZE - 1)).tdiv SFS_BLOCKSIZE)

structure Truncated (I : Set Nat) (i : Nat) (len : Int) (s s' : Sfs) : Prop extends FileStep I i s s' where
  size : s'.fileSize i = toI32 len
  direct : ∀ k : Fin 15, s'.ref i (.direct k) = if blocklen len ≤ k then 0 else s.ref i (.direct k)
  entry : ∀ j : Fin 128, s'.ref i (.entry j) = if blocklen len < 15 + j then 0 else s.ref i (.entry j)
  indirect : s'.ref i .indirect =
    if blocklen len < 142 ∧ ∀ j, s'.ref i (.entry j) = 0 then 0 else s.ref i .indirect
  sect : ∀ c, c ≠ s.ref i .indirect → s'.sect c = s.sect c

theorem sfs_truncate_run (hg : s.Good I) (hi : i ∈ I) (hv : s.vnodes i = some v) (len : Int) :
    ∃ s', sfs_truncate i len s = .ok (.ok (), s') ∧ Truncated I i len s s' := by
  obtain ⟨s₁, hrun₁, hstep₁, hsect₁, href₁⟩ := sfs_truncate_directs_run (blocklen len) hg hi hv (List.finRange 15)
  obtain ⟨-, v₁, -, hv₁, -⟩ := hstep₁.vnode
  obtain ⟨s₂, hrun₂, h₂⟩ := sfs_truncate_indirect_run (blocklen len) hstep₁.good hi hv₁
  obtain ⟨-, v₂, -, hv₂, -⟩ := h₂.vnode
  obtain ⟨hstep₃, -, hsize⟩ := setSize_step h₂.good hv₂ len
  have href₃ := setSize_ref hv₂ len
  have hind₁ : s₁.ref i .indirect = s.ref i .indirect := by rw [href₁, if_neg (by simp)]
  refine ⟨_, ?_, (hstep₁.trans h₂.toFileStep).trans hstep₃, hsize, fun k => ?_, fun j => ?_, ?_, fun c hc => ?_⟩
  · exact (bind_ok hrun₁).trans ((bind_ok hrun₂).trans (modv_run hv₂ _))
  · rw [href₃, h₂.direct, href₁]
    simp [List.mem_finRange]
  · rw [href₃, h₂.entry, href₁, if_neg (by simp : ¬ ∃ k ∈ List.finRange 15, Slot.entry j = .direct k ∧ _)]
  · rw [href₃, h₂.indirect, hind₁]
  · rw [setVnode_sect, h₂.sect c (hind₁ ▸ hc), hsect₁]

theorem Truncated.empty {s' : Sfs} (h : Truncated I i 0 s s') (k : Slot) (hk : k ≠ .inode) : s'.ref i k = 0 := by
  have hlen : blocklen 0 = 0 := by decide
  have hentry : ∀ j, s'.ref i (.entry j) = 0 := fun j => by rw [h.entry, hlen, if_pos (by omega)]
  cases k with
  | inode => exact absurd rfl hk
  | direct k => rw [h.direct, hlen, if_pos (Nat.zero_le _)]
  | indirect => rw [h.indirect, hlen, if_pos ⟨by decide, hentry⟩]
  | entry j => exact hentry j

end Truncate

end Os161
