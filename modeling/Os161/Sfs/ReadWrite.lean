import Os161.Sfs.FileIo

/-! # `sfs_io`: a read or a write of any length -/

namespace Os161

open Prog Words

section Transfers

variable {X : Panic → Prop} {I : Set Nat} {i : Nat} {s : Sfs} {u : Uio} {v : Vnode}

theorem Transfer.error_le {n m : Nat} {e : Errno} {t : Sfs × Uio} (hnm : n ≤ m)
    (h : Transfer I i s u n (.error e) t) : Transfer I i s u m (.error e) t := by
  obtain ⟨hrw, hread, k, hk, hlt, h⟩ := h
  refine ⟨hrw, fun hr => ?_, k, by omega, by omega, h⟩
  obtain ⟨hs, l, hl, hu⟩ := hread hr
  exact ⟨hs, l, by omega, hu⟩

/-- The loop over whole blocks: the induction is on the number of blocks left. -/
theorem sfs_io_blocks_spec {nblocks : Nat} (hu : u.Fits) (hg : s.Good I) (hi : i ∈ I)
    (hv : s.vnodes i = some v) (hal : u.off % 512 = 0) (hn : 512 * nblocks ≤ u.uio_resid) :
    Holds X (sfs_io_blocks i nblocks) (s, u) (Transfer I i s u (512 * nblocks)) := by
  induction nblocks generalizing s u v with
  | zero => exact holds_pure ⟨.zero hu hg hv, Or.inl rfl⟩
  | succ nblocks ih =>
    rw [sfs_io_blocks]
    refine (sfs_blockio_spec hu hg hi hv hal (by omega)).bind ?_ ?_
    · rintro ⟨⟩ ⟨s₁, u₁⟩ ⟨hm, hlt⟩
      obtain ⟨v₁, hv₁⟩ := hm.vnode hv
      have h31 : u.off + 512 < 2 ^ 31 := by omega
      have hu₁ : u₁.Fits := by rw [hm.uio]; exact hu.moved (by omega) h31
      have hoff₁ : u₁.off = u.off + 512 := by rw [hm.uio, hu.moved_off h31]
      have hres₁ : u₁.uio_resid = u.uio_resid - 512 := by rw [hm.uio, moved_resid (by omega) hu.resid]
      refine (ih hu₁ (hm.good hg) hv₁ (by omega) (by omega)).imp fun r t h => ?_
      rw [show 512 * (nblocks + 1) = 512 + 512 * nblocks by omega]
      exact h.trans hm hu (by omega) (by omega) (by omega)
    · exact fun e t h => h.transfer_error hu (.inl (by omega)) (by omega)

theorem sfs_io_aligned_zero (h : u.uio_resid = 0) : sfs_io_aligned i (s, u) = .ok (.ok (), (s, u)) := by
  rw [sfs_io_aligned, bind_ok (get_run _)]
  dsimp only
  rw [if_pos h]
  rfl

theorem sfs_io_aligned_spec (hu : u.Fits) (hg : s.Good I) (hi : i ∈ I) (hv : s.vnodes i = some v)
    (hal : u.off % 512 = 0) :
    Holds X (sfs_io_aligned i) (s, u) (Transfer I i s u u.uio_resid) := by
  by_cases h0 : u.uio_resid = 0
  · rw [h0]
    exact holds_of_run (sfs_io_aligned_zero h0) ⟨.zero hu hg hv, Or.inl rfl⟩
  rw [sfs_io_aligned]
  refine holds_bind_run (get_run _) ?_
  dsimp only
  have hmod : u.uio_offset.tmod SFS_BLOCKSIZE = 0 := by
    have := hu.off_eq
    rw [Int.tmod_eq_emod_of_nonneg hu.nonneg, show (SFS_BLOCKSIZE : Int) = 512 from rfl]
    omega
  rw [if_neg h0]
  refine holds_bind_run (ensure_run _ _ _ hmod) ?_
  have hblocks : 512 * (u.uio_resid / 512) ≤ u.uio_resid := by omega
  refine (sfs_io_blocks_spec hu hg hi hv hal hblocks).bind ?_ fun e t h => h.error_le hblocks
  rintro ⟨⟩ ⟨s₁, u₁⟩ ⟨hm, hb⟩
  obtain ⟨v₁, hv₁⟩ := hm.vnode hv
  have h31 : u.off + 512 * (u.uio_resid / 512) < 2 ^ 31 := by
    have := hu.off_eq
    have := hu.offset
    omega
  have hu₁ : u₁.Fits := by rw [hm.uio]; exact hu.moved hblocks h31
  have hoff₁ : u₁.off = u.off + 512 * (u.uio_resid / 512) := by rw [hm.uio, hu.moved_off h31]
  have hres₁ : u₁.uio_resid = u.uio_resid % 512 := by
    rw [hm.uio, moved_resid hblocks hu.resid]; omega
  refine holds_bind_run (get_run _) (holds_bind_run (ensure_run _ _ _ ?_) ?_)
  · simp only [SFS_BLOCKSIZE]; omega
  by_cases h1 : u₁.uio_resid > 0
  · rw [if_pos h1]
    have hp := sfs_partialio_spec (X := X) (n := u₁.uio_resid) hu₁ (hm.good hg) hi hv₁ (by omega) (by omega)
    rw [show u₁.off % 512 = 0 by omega] at hp
    refine hp.imp fun r t h => ?_
    have := (h.transfer hu₁ (by omega) h1).trans hm hu hb (by omega) (by omega)
    rwa [hres₁, show 512 * (u.uio_resid / 512) + u.uio_resid % 512 = u.uio_resid by omega] at this
  · rw [if_neg h1]
    have hall : 512 * (u.uio_resid / 512) = u.uio_resid := by omega
    rw [hall] at hm hb
    exact holds_pure ⟨hm, hb⟩

theorem sfs_io_transfer_spec (hu : u.Fits) (hg : s.Good I) (hi : i ∈ I) (hv : s.vnodes i = some v) :
    Holds X (sfs_io_transfer i) (s, u) (Transfer I i s u u.uio_resid) := by
  rw [sfs_io_transfer]
  refine holds_bind_run (get_run _) ?_
  dsimp only
  rw [hu.blklen_eq, hu.blkoff_eq]
  by_cases hb : u.off % 512 = 0
  · rw [if_neg (by omega)]
    exact sfs_io_aligned_spec hu hg hi hv hb
  rw [if_pos hb]
  have hlen : u.off % 512 + min (512 - u.off % 512) u.uio_resid ≤ 512 := by omega
  have hn : min (512 - u.off % 512) u.uio_resid ≤ u.uio_resid := by omega
  refine (sfs_partialio_spec hu hg hi hv hlen hn).bind ?_ fun e t h => h.transfer_error hu (Or.inr hb) hn
  rintro ⟨⟩ ⟨s₁, u₁⟩ ⟨hm, hlt⟩
  obtain ⟨v₁, hv₁⟩ := hm.vnode hv
  have h31 : u.off + min (512 - u.off % 512) u.uio_resid < 2 ^ 31 := by omega
  have hu₁ : u₁.Fits := by rw [hm.uio]; exact hu.moved hn h31
  have hoff₁ : u₁.off = u.off + min (512 - u.off % 512) u.uio_resid := by rw [hm.uio, hu.moved_off h31]
  have hres₁ : u₁.uio_resid = u.uio_resid - min (512 - u.off % 512) u.uio_resid := by
    rw [hm.uio, moved_resid hn hu.resid]
  have hsum : min (512 - u.off % 512) u.uio_resid + u₁.uio_resid = u.uio_resid := by omega
  rcases Nat.eq_zero_or_pos u₁.uio_resid with h0 | hpos
  · -- the piece was all there was to do
    have hall : min (512 - u.off % 512) u.uio_resid = u.uio_resid := by omega
    rw [hall] at hm
    exact holds_of_run (sfs_io_aligned_zero h0) ⟨hm, by omega⟩
  · refine (sfs_io_aligned_spec hu₁ (hm.good hg) hi hv₁ (by omega)).imp fun r t h => ?_
    have := h.trans hm hu (by omega) (by omega) (by omega)
    rwa [hsum] at this

def Uio.InBlock (u : Uio) : Prop := 0 < u.uio_resid ∧ u.uio_resid < 512 ∧ u.off % 512 + u.uio_resid ≤ 512

theorem sfs_io_transfer_within (hu : u.Fits) (hg : s.Good I) (hi : i ∈ I) (hv : s.vnodes i = some v)
    (hin : u.InBlock) : Holds X (sfs_io_transfer i) (s, u) (Piece I i s u u.uio_resid) := by
  obtain ⟨hpos, hlt, hlen⟩ := hin
  have hpiece := sfs_partialio_spec (X := X) hu hg hi hv hlen (Nat.le_refl _)
  rw [sfs_io_transfer]
  refine holds_bind_run (get_run _) ?_
  dsimp only
  rw [hu.blklen_eq, hu.blkoff_eq]
  by_cases hb : u.off % 512 = 0
  · -- no whole block, and then the piece
    rw [hb] at hpiece
    have hmod : u.uio_offset.tmod SFS_BLOCKSIZE = 0 := by
      have := hu.off_eq
      rw [Int.tmod_eq_emod_of_nonneg hu.nonneg, show (SFS_BLOCKSIZE : Int) = 512 from rfl]
      omega
    rw [if_neg (by omega), sfs_io_aligned]
    refine holds_bind_run (get_run _) ?_
    dsimp only
    rw [if_neg (by omega), show u.uio_resid / SFS_BLOCKSIZE = 0 from Nat.div_eq_of_lt hlt]
    refine holds_bind_run (ensure_run _ _ _ hmod) (holds_bind_run (a := ()) rfl ?_)
    refine holds_bind_run (get_run _) (holds_bind_run (ensure_run _ _ _ hlt) ?_)
    exact if_pos (c := u.uio_resid > 0) hpos ▸ hpiece
  · rw [if_pos hb, Nat.min_eq_right (by omega)]
    refine hpiece.bind ?_ fun _ _ h => h
    rintro ⟨⟩ ⟨s₁, u₁⟩ h
    refine holds_of_run (sfs_io_aligned_zero ?_) h
    rw [h.1.uio, moved_resid (Nat.le_refl _) hu.resid, Nat.sub_self]

end Transfers

/-! ## Around the transfer -/

def Sfs.readLen (s : Sfs) (i : Nat) (u : Uio) : Nat :=
  if s.fileSize i ≤ u.uio_offset then 0
  else if toI32 (u.uio_offset + u.uio_resid) > s.fileSize i then (s.fileSize i - u.uio_offset).toNat
  else u.uio_resid

structure WroteFile (I : Set Nat) (i : Nat) (s s' : Sfs) (off n : Nat) (src : Mem) : Prop
    extends FileStep I i s s' where
  bytes : ∀ p, s'.fileByte i p = if off ≤ p ∧ p < off + n then src (p - off) else s.fileByte i p
  size : s'.fileSize i = max (s.fileSize i) (off + n)

def ReadPost (i : Nat) (s : Sfs) (u : Uio) (r : Except Errno Unit) (t : Sfs × Uio) : Prop :=
  t.1 = s ∧ t.2.uio_rw = u.uio_rw ∧
    match r with
    | .ok _ =>
      t.2 = u.moved (s.from i u) 0 (s.readLen i u) ∧ (s.readLen i u = 0 ∨ u.off + s.readLen i u ≤ 73216)
    | .error e => (∃ m ≤ s.readLen i u, t.2 = u.moved (s.from i u) 0 m) ∧
        ∃ k ≤ s.readLen i u, (k < s.readLen i u ∨ k = 0 ∧ u.off % 512 ≠ 0) ∧ Fails u (u.off + k) e ∧
          (k = 0 ∨ u.off + k ≤ 73216 ∧ (u.off + k) % 512 = 0) ∧ (u.Safe → t.2 = u.moved (s.from i u) 0 k)

def WriteEnd (u : Uio) (k : Nat) : Except Errno Unit → Prop
  | .ok _ => k = u.uio_resid
  | .error e => (k < u.uio_resid ∨ k = 0 ∧ u.off % 512 ≠ 0) ∧ Fails u (u.off + k) e ∧
      (k = 0 ∨ (u.off + k) % 512 = 0)

def WritePost (I : Set Nat) (i : Nat) (s : Sfs) (u : Uio) (r : Except Errno Unit) (t : Sfs × Uio) : Prop :=
  ∃ k ≤ u.uio_resid, t.2 = u.moved (s.from i u) 0 k ∧ WroteFile I i s t.1 u.off k u.src ∧
    (k = 0 ∨ u.off + k ≤ 73216) ∧ WriteEnd u k r ∧
    (r = .error .ENOSPC → u.InBlock → ∀ l, slotOf (u.off / 512) = some l → s.ref i l = 0)

section Io

variable {X : Panic → Prop} {I : Set Nat} {i : Nat} {s : Sfs} {u : Uio} {v : Vnode}

theorem fileSize_some (hv : s.vnodes i = some v) : s.fileSize i = toI32 v.sv_i.sfi_size.toNat := by
  rw [Sfs.fileSize, inodeOf_some hv]

theorem setSize_ref (hv : s.vnodes i = some v) (size : Int) :
    (s.setVnode i (some (v.setSize size))).ref i = s.ref i := by
  have hv' : (s.setVnode i (some (v.setSize size))).vnodes i = some (v.setSize size) := by simp
  funext k
  rw [Sfs.ref, Sfs.ref, inodeOf_some hv, inodeOf_some hv']
  cases k <;> rfl

theorem setSize_fileSize (v : Vnode) (size : Int) :
    (s.setVnode i (some (v.setSize size))).fileSize i = toI32 size := by
  have hv' : (s.setVnode i (some (v.setSize size))).vnodes i = some (v.setSize size) := by simp
  rw [fileSize_some hv']
  simp only [Vnode.setSize, UInt32.toNat_ofNat', toI32, toU32, Int.bmod_def]
  omega

theorem setSize_step (hg : s.Good I) (hv : s.vnodes i = some v) (size : Int) :
    FileStep I i s (s.setVnode i (some (v.setSize size))) ∧
      (s.setVnode i (some (v.setSize size))).fileByte i = s.fileByte i ∧
      (s.setVnode i (some (v.setSize size))).fileSize i = toI32 size := by
  have hv' : (s.setVnode i (some (v.setSize size))).vnodes i = some (v.setSize size) := by simp
  have href := setSize_ref hv size
  have hother : ∀ j, j ≠ i → Untouched s (s.setVnode i (some (v.setSize size))) j := fun j hj =>
    ⟨by simp [hj], fun _ _ => rfl⟩
  refine ⟨⟨⟨hg.pos, hg.volume.setVnode _ _, ?_⟩, .setVnode _ _ _, fun j _ hj => hother j hj,
    fun j hj => (hother j hj).vnode, rfl, FileStep.tight_of_same rfl href, v, _, hv, hv', .setSize v size⟩, ?_,
    setSize_fileSize v size⟩
  · refine hg.holding.drop (Set.Subset.refl I) (fun j hj k _ => ?_) fun _ _ _ _ => id
    by_cases hji : j = i
    · subst hji; rw [href]
    · rw [(hother j hji).ref (hg.pos j hj)]
  · exact fileByte_congr fun k _ _ q _ => by rw [Sfs.slotByte, Sfs.slotByte, href]; rfl

theorem sfs_io_eof_read (hu : u.Fits) (hrw : u.uio_rw = .UIO_READ) (hv : s.vnodes i = some v) :
    (s.readLen i u = 0 ∧ sfs_io_eof i (s, u) = .ok (.ok none, (s, u))) ∨
    ∃ extra, s.readLen i u + extra = u.uio_resid ∧
      sfs_io_eof i (s, u) = .ok (.ok (some extra), (s, u.setResid (s.readLen i u))) := by
  have hsize := fileSize_some hv
  have h0 := hu.nonneg
  have h31 := hu.offset
  have h32 := hu.resid
  rw [sfs_io_eof, bind_ok (get_run _)]
  dsimp only
  rw [bind_ok (first_ok (getv_run hv)), hrw]
  dsimp only
  rw [← hsize, Sfs.readLen]
  by_cases h1 : s.fileSize i ≤ u.uio_offset
  · left
    rw [if_pos h1, if_pos h1]
    exact ⟨rfl, rfl⟩
  right
  rw [if_neg h1, if_neg h1]
  by_cases h2 : toI32 (u.uio_offset + u.uio_resid) > s.fileSize i
  · -- the sum has not wrapped around, as it is past the end
    have hend : toI32 (u.uio_offset + u.uio_resid) = u.uio_offset + u.uio_resid := by
      simp only [toI32, Int.bmod_def] at h2 ⊢; omega
    rw [hend] at h2 ⊢
    have he : toU32 (u.uio_offset + u.uio_resid - s.fileSize i) =
        (u.uio_offset + u.uio_resid - s.fileSize i).toNat := toU32_of_small (by omega) (by omega)
    refine ⟨(u.uio_offset + u.uio_resid - s.fileSize i).toNat, by rw [if_pos h2]; omega, ?_⟩
    rw [if_pos h2, if_pos h2, he]
    refine (bind_ok (ensure_run _ _ _ (by omega))).trans ((bind_ok (second_ok (set_run u _))).trans ?_)
    rw [show u.uio_resid - (u.uio_offset + u.uio_resid - s.fileSize i).toNat =
      (s.fileSize i - u.uio_offset).toNat by omega]
    rfl
  · exact ⟨0, by rw [if_neg h2]; rfl, by rw [if_neg h2, if_neg h2]; rfl⟩

theorem moved_resid_add {ptr : Mem} {k n extra : Nat} (h32 : u.uio_resid < 2 ^ 32)
    (hn : n + extra = u.uio_resid) (hk : k ≤ n) :
    ((u.setResid n).moved ptr 0 k).setResid (toU32 (((u.setResid n).moved ptr 0 k).uio_resid + extra)) =
      u.moved ptr 0 k := by
  have h : toU32 ((toU32 (n - k) : Int) + extra) = toU32 (u.uio_resid - k) := by simp only [toU32]; omega
  simp only [Uio.setResid, Uio.moved, h]

theorem sfs_io_out_read {u' : Uio} (hrw : u'.uio_rw = .UIO_READ) (hv : s.vnodes i = some v) (extra : Nat) :
    sfs_io_out i extra (s, u') =
      .ok (.ok (), (s, u'.setResid (toU32 (u'.uio_resid + extra)))) := by
  rw [sfs_io_out, bind_ok (get_run _)]
  dsimp only
  rw [bind_ok (first_ok (getv_run hv)), if_neg (by simp [hrw])]
  exact second_ok (set_run _ _)

theorem sfs_io_read (hu : u.Fits) (hrw : u.uio_rw = .UIO_READ) (hg : s.Good I) (hi : i ∈ I)
    (hv : s.vnodes i = some v) : Holds X (sfs_io i) (s, u) (ReadPost i s u) := by
  rw [sfs_io]
  rcases sfs_io_eof_read hu hrw hv with ⟨h0, heof⟩ | ⟨extra, hn, heof⟩
  · refine holds_bind_run heof (holds_pure ⟨rfl, rfl, ?_⟩)
    rw [h0]
    exact ⟨(moved_zero hu.resid hu.nonneg hu.offset).symm, Or.inl rfl⟩
  refine holds_bind_run heof ?_
  have hu₁ : (u.setResid (s.readLen i u)).Fits :=
    ⟨Nat.le_trans (show s.readLen i u ≤ u.uio_resid by omega) hu.len,
      show s.readLen i u < 2 ^ 32 by have := hu.resid; omega, hu.nonneg, hu.offset⟩
  refine (sfs_io_transfer_spec hu₁ hg hi hv).bind_attempt ?_
  rintro r ⟨s', u'⟩ h
  have hs' : s' = s := by
    cases r with
    | ok => exact h.1.read hrw
    | error e => exact (h.2.1 hrw).1
  have hrw' : u'.uio_rw = .UIO_READ := by
    cases r with
    | ok => rw [h.1.uio]; exact hrw
    | error e => exact h.1.trans hrw
  subst hs'
  refine holds_bind_run (sfs_io_out_read hrw' hv extra) (holds_of_run (finish_run _ r) ⟨rfl, ?_, ?_⟩)
  · exact hrw'.trans hrw.symm
  · cases r with
    | ok =>
      refine ⟨?_, h.2⟩
      rw [h.1.uio]
      exact moved_resid_add hu.resid hn (Nat.le_refl _)
    | error e =>
      obtain ⟨-, hread, k, hk, hlt, hfail, hbnd, -, hsf⟩ := h
      obtain ⟨-, m, hm, hu'⟩ := hread hrw
      refine ⟨⟨m, hm, ?_⟩, k, hk, hlt, hfail, hbnd, fun hsafe => ?_⟩
      · rw [hu']
        exact moved_resid_add hu.resid hn hm
      · rw [hsf hsafe]
        exact moved_resid_add hu.resid hn hk

theorem sfs_io_eof_write (hrw : u.uio_rw = .UIO_WRITE) (hv : s.vnodes i = some v) :
    sfs_io_eof i (s, u) = .ok (.ok (some 0), (s, u)) := by
  rw [sfs_io_eof, bind_ok (get_run _)]
  dsimp only
  rw [bind_ok (first_ok (getv_run hv)), hrw]
  rfl

theorem sfs_io_transfer_hole (hu : u.Fits) (hrw : u.uio_rw = .UIO_WRITE) (hg : s.Good I) (hi : i ∈ I)
    (hv : s.vnodes i = some v) : Holds X (sfs_io_transfer i) (s, u) fun r t => Transfer I i s u u.uio_resid r t ∧
      (r = .error .ENOSPC → u.InBlock → ∀ l, slotOf (u.off / 512) = some l → s.ref i l = 0) := by
  have hall := sfs_io_transfer_spec (X := X) hu hg hi hv
  by_cases hin : u.InBlock
  · refine (hall.and (sfs_io_transfer_within (X := X) hu hg hi hv hin)).imp fun r t h => ⟨h.1, ?_⟩
    rintro rfl -
    exact (h.2.2.2.2.1 hrw).2.2 rfl
  · exact hall.imp fun r t h => ⟨h, fun _ hw => absurd hw hin⟩

theorem sfs_io_out_write {u' : Uio} (hu' : u'.Fits) (hrw : u'.uio_rw = .UIO_WRITE) (hg : s.Good I)
    (hv : s.vnodes i = some v) :
    ∃ s', sfs_io_out i 0 (s, u') = .ok (.ok (), (s', u')) ∧ FileStep I i s s' ∧
      s'.fileByte i = s.fileByte i ∧ s'.fileSize i = max (s.fileSize i) u'.uio_offset := by
  have hcut : u'.setResid (toU32 (u'.uio_resid + (0 : Nat))) = u' := by
    have : toU32 (u'.uio_resid + (0 : Nat)) = u'.uio_resid := by
      have := hu'.resid
      simp only [toU32]; omega
    rw [this]
    rfl
  have hsize := fileSize_some hv
  rw [sfs_io_out, bind_ok (get_run _)]
  dsimp only
  rw [bind_ok (first_ok (getv_run hv)), ← hsize]
  by_cases hgt : u'.uio_offset > s.fileSize i
  · obtain ⟨hstep, hbytes, hsz⟩ := setSize_step hg hv u'.uio_offset
    refine ⟨_, ?_, hstep, hbytes, ?_⟩
    · rw [if_pos ⟨hrw, hgt⟩, hcut]
      exact (bind_ok (first_ok (modv_run hv _))).trans (second_ok (set_run _ _))
    · have := hu'.nonneg
      have := hu'.offset
      rw [hsz, toI32_of_small (by omega) (by omega)]; omega
  · refine ⟨s, ?_, .refl hg hv, rfl, by omega⟩
    rw [if_neg fun h => hgt h.2, hcut]
    exact second_ok (set_run _ _)

theorem sfs_io_write (hu : u.Fits) (hrw : u.uio_rw = .UIO_WRITE) (hg : s.Good I) (hi : i ∈ I)
    (hv : s.vnodes i = some v) : Holds X (sfs_io i) (s, u) (WritePost I i s u) := by
  rw [sfs_io]
  refine holds_bind_run (sfs_io_eof_write hrw hv) ?_
  refine (sfs_io_transfer_hole hu hrw hg hi hv).bind_attempt ?_
  rintro r ⟨s₁, u₁⟩ ⟨h, hhole⟩
  -- what was moved, whether the transfer ended or not
  obtain ⟨k, hk, huio, hwr, hbnd, hres⟩ : ∃ k ≤ u.uio_resid, u₁ = u.moved (s.from i u) 0 k ∧
      Wrote I i s s₁ u.off k u.src ∧ (k = 0 ∨ u.off + k ≤ 73216) ∧ WriteEnd u k r := by
    cases r with
    | ok => exact ⟨u.uio_resid, Nat.le_refl _, h.1.uio, h.1.write hrw, h.2, rfl⟩
    | error e =>
      obtain ⟨-, -, k, hk, hlt, hfail, hbnd, hwr, -⟩ := h
      exact ⟨k, hk, (hwr hrw).1, (hwr hrw).2, by omega, hlt, hfail, by omega⟩
  have h31 : u.off + k < 2 ^ 31 := by
    have := hu.off_eq
    have := hu.offset
    omega
  have hu₁ : u₁.Fits := by rw [huio]; exact hu.moved hk h31
  have hoff₁ : u₁.uio_offset = (u.off + k : Nat) := by
    have := hu.off_eq
    rw [huio, moved_offset hu.nonneg (by omega)]
    omega
  have hrw₁ : u₁.uio_rw = .UIO_WRITE := by rw [huio]; exact hrw
  obtain ⟨-, v₁, -, hv₁, -⟩ := hwr.vnode
  obtain ⟨s₂, hrun, hstep, hbytes, hsize⟩ := sfs_io_out_write hu₁ hrw₁ hwr.good hv₁
  refine holds_bind_run hrun (holds_of_run (finish_run _ r) ⟨k, hk, huio, ⟨hwr.toFileStep.trans hstep, ?_, ?_⟩,
    hbnd, hres, hhole⟩)
  · intro p
    rw [hbytes, hwr.bytes]
  · rw [hsize, hwr.size, hoff₁]; push_cast; rfl

theorem sfs_read_spec (hu : u.Fits) (hrw : u.uio_rw = .UIO_READ) (hg : s.Good I) (hi : i ∈ I)
    (hv : s.vnodes i = some v) : Holds X (sfs_read i) (s, u) (ReadPost i s u) := by
  rw [sfs_read]
  refine holds_bind_run (get_run _) (holds_ensure_bind (.inl hrw) fun _ => ?_)
  exact sfs_io_read hu hrw hg hi hv

theorem sfs_write_spec (hu : u.Fits) (hrw : u.uio_rw = .UIO_WRITE) (hg : s.Good I) (hi : i ∈ I)
    (hv : s.vnodes i = some v) : Holds X (sfs_write i) (s, u) (WritePost I i s u) := by
  rw [sfs_write]
  refine holds_bind_run (get_run _) (holds_ensure_bind (.inl hrw) fun _ => ?_)
  exact sfs_io_write hu hrw hg hi hv

end Io

end Os161
