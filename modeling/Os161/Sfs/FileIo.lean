import Os161.Sfs.Bmap

/-! # Reading and writing a file -/

namespace Os161

open Prog Words

/-! ## Writes to the blocks of a file -/

structure Wrote (I : Set Nat) (i : Nat) (s s' : Sfs) (off n : Nat) (src : Mem) : Prop
    extends FileStep I i s s' where
  bytes : ∀ p, s'.fileByte i p = if off ≤ p ∧ p < off + n then src (p - off) else s.fileByte i p
  size : s'.fileSize i = s.fileSize i

section Write

variable {I : Set Nat} {i : Nat} {s s₁ s' : Sfs} {v : Vnode} {off n m : Nat} {src : Mem}

theorem Extend.wrote (h : Extend I i s s') : Wrote I i s s' off 0 src where
  toFileStep := h.toFileStep
  bytes p := by rw [if_neg (by omega), h.bytes]
  size := h.size

theorem Wrote.trans (h : Wrote I i s s₁ off n src)
    (h' : Wrote I i s₁ s' (off + n) m fun q => src (n + q)) : Wrote I i s s' off (n + m) src where
  toFileStep := h.toFileStep.trans h'.toFileStep
  bytes p := by
    rw [h'.bytes, h.bytes]
    by_cases h1 : off + n ≤ p ∧ p < off + n + m
    · rw [if_pos h1, if_pos (by omega), show n + (p - (off + n)) = p - off by omega]
    · rw [if_neg h1]
      by_cases h2 : off ≤ p ∧ p < off + n
      · rw [if_pos h2, if_pos (by omega)]
      · rw [if_neg h2, if_neg (by omega)]
  size := h'.size.trans h.size

theorem Extend.then_wrote (h : Extend I i s s₁) (h' : Wrote I i s₁ s' off n src) :
    Wrote I i s s' off n src where
  toFileStep := h.toFileStep.trans h'.toFileStep
  bytes p := by rw [h'.bytes, h.bytes]
  size := h'.size.trans h.size

theorem FileStep.of_write (hg : s.Good I) (hi : i ∈ I) (hv : s.vnodes i = some v) {k : Slot}
    (hk : k ≠ .inode) (hk' : k ≠ .indirect) (h0 : s.ref i k ≠ 0) (data : Mem) :
    FileStep I i s (s.setBlock (s.ref i k) data) ∧
      (s.setBlock (s.ref i k) data).ref i = s.ref i := by
  have hkeep : ∀ j ∈ I, ∀ l, (j, l) ≠ (i, k) → s.ref j l ≠ 0 →
      (s.setBlock (s.ref i k) data).sect (s.ref j l) = s.sect (s.ref j l) := by
    intro j hj l hjl hl
    rw [setBlock_sect, Function.update_of_ne (hg.holding.ne hj hi hl hjl)]
  have hothers : ∀ j ∈ I, j ≠ i → Untouched s (s.setBlock (s.ref i k) data) j := fun j hj hji =>
    ⟨rfl, fun l hl => hkeep j hj l (fun h => hji (Prod.mk.inj h).1) hl⟩
  have href : (s.setBlock (s.ref i k) data).ref i = s.ref i := by
    funext l
    have hv' : (s.setBlock (s.ref i k) data).vnodes i = some v := hv
    cases l with
    | inode => rw [ref_inode, ref_inode]
    | direct l => rw [ref_direct hv, ref_direct hv']
    | indirect => rw [ref_indirect hv, ref_indirect hv']
    | entry l =>
      rw [ref_entry hv, ref_entry hv']
      by_cases hid : v.sv_i.sfi_indirect = 0
      · rw [if_pos hid, if_pos hid]
      · have := hkeep i hi .indirect (fun h => hk' (Prod.mk.inj h).2.symm)
        rw [ref_indirect hv] at this
        rw [if_neg hid, if_neg hid, this hid]
  have hhold : Holding I (s.setBlock (s.ref i k) data).ref s.used := by
    refine hg.holding.drop (Set.Subset.refl I) ?_ fun _ _ _ _ => id
    intro j hj l _
    by_cases hji : j = i
    · subst hji; rw [href]
    · rw [(hothers j hj hji).ref (hg.pos j hj)]
  have hres := (hg.holding.mem i hi k h0).2.2
  refine ⟨⟨⟨hg.pos, hg.volume.setBlock _ _, hhold⟩, .setBlock hres _, hothers, fun _ _ => rfl, ?_,
    FileStep.tight_of_same rfl href, v, v, hv, hv, .refl v⟩, href⟩
  have := hkeep i hi .inode (fun h => hk (Prod.mk.inj h).2.symm) (hg.pos i hi)
  simpa using this

theorem Wrote.of_block (hg : s.Good I) (hi : i ∈ I) (hv : s.vnodes i = some v) {k : Slot}
    (hslot : slotOf (off / 512) = some k) (h0 : s.ref i k ≠ 0) (hn : off % 512 + n ≤ 512) {data : Mem}
    (hdata : ∀ q < 512, data q =
      if off % 512 ≤ q ∧ q < off % 512 + n then src (q - off % 512) else s.sect (s.ref i k) q) :
    Wrote I i s (s.setBlock (s.ref i k) data) off n src := by
  obtain ⟨hk, hk'⟩ := slotOf_ne_inode hslot
  obtain ⟨hstep, href⟩ := FileStep.of_write hg hi hv hk hk' h0 data
  refine ⟨hstep, fun p => ?_, ?_⟩
  · rw [Sfs.fileByte, Sfs.fileByte]
    cases hp : slotOf (p / 512) with
    | none =>
      have := slotOf_eq_none.mp hp
      have : slotOf (off / 512) ≠ none := by rw [hslot]; simp
      rw [ne_eq, slotOf_eq_none] at this
      rw [if_neg (by omega)]
    | some l =>
      by_cases hl : l = k
      · subst hl
        have hblk := slotOf_inj hslot hp
        dsimp only
        rw [Sfs.slotByte, Sfs.slotByte, href, if_neg h0, if_neg h0, setBlock_sect, Function.update_self,
          if_pos (Nat.mod_lt _ (by omega)), hdata _ (Nat.mod_lt _ (by omega))]
        by_cases hin : off % 512 ≤ p % 512 ∧ p % 512 < off % 512 + n
        · rw [if_pos hin, if_pos (by omega), show p % 512 - off % 512 = p - off by omega]
        · rw [if_neg hin, if_neg (by omega)]
      · have hblk : p / 512 ≠ off / 512 := by
          intro h
          rw [h, hslot] at hp
          exact hl (Option.some.inj hp).symm
        rw [if_neg (by omega)]
        dsimp only
        rw [Sfs.slotByte, Sfs.slotByte, href]
        split
        · rfl
        · rename_i hne
          rw [setBlock_sect, Function.update_of_ne]
          exact hg.holding.ne hi hi hne fun h => hl (Prod.mk.inj h).2
  · have hv' : (s.setBlock (s.ref i k) data).vnodes i = some v := hv
    rw [Sfs.fileSize, Sfs.fileSize, inodeOf_some hv, inodeOf_some hv']

end Write

/-! ## One piece of a transfer -/

def Sfs.from (s : Sfs) (i : Nat) (u : Uio) : Mem := fun q => s.fileByte i (u.off + q)

def Uio.src (u : Uio) : Mem := fun q => u.iov_mem (u.iov_base + q)

structure Moved (I : Set Nat) (i : Nat) (s : Sfs) (u : Uio) (n : Nat) (s' : Sfs) (u' : Uio) : Prop where
  uio : u' = u.moved (s.from i u) 0 n
  read : u.uio_rw = .UIO_READ → s' = s
  write : u.uio_rw = .UIO_WRITE → Wrote I i s s' u.off n u.src

def Fails (u : Uio) (off : Nat) (e : Errno) : Prop :=
  e = .EINVAL ∧ 143 ≤ off / 512 ∨ e = .ENOSPC ∧ u.uio_rw = .UIO_WRITE ∨ e = .EFAULT ∧ ¬ u.Safe

def Piece (I : Set Nat) (i : Nat) (s : Sfs) (u : Uio) (n : Nat) : Except Errno Unit → Sfs × Uio → Prop
  | .ok _, (s', u') => Moved I i s u n s' u' ∧ u.off / 512 < 143
  | .error e, (s', u') =>
    Fails u u.off e ∧ u'.uio_rw = u.uio_rw ∧
      (u.uio_rw = .UIO_READ → s' = s ∧ ∃ m ≤ n, u' = u.moved (s.from i u) 0 m) ∧
      (u.uio_rw = .UIO_WRITE → u' = u ∧ Extend I i s s' ∧
        (e = .ENOSPC → ∀ k, slotOf (u.off / 512) = some k → s.ref i k = 0)) ∧ (u.Safe → u' = u)

section Pieces

variable {X : Panic → Prop} {I : Set Nat} {i : Nat} {s : Sfs} {u : Uio} {v : Vnode}

theorem Uio.Fits.fileblock_eq (hu : u.Fits) : u.fileblock = u.off / 512 := by
  have h := hu.off_eq
  have h0 := hu.nonneg
  have h1 := hu.offset
  rw [Uio.fileblock, Int.tdiv_eq_ediv_of_nonneg h0, ← h, show (SFS_BLOCKSIZE : Int) = 512 from rfl]
  rw [toU32_of_small (by omega) (by omega)]
  omega

theorem Uio.Fits.blkoff_eq (hu : u.Fits) : u.blkoff = u.off % 512 := by
  have h := hu.off_eq
  have h0 := hu.nonneg
  rw [Uio.blkoff, Int.tmod_eq_emod_of_nonneg h0, ← h, show (SFS_BLOCKSIZE : Int) = 512 from rfl]
  rw [toU32_of_small (by omega) (by omega)]
  omega

theorem Uio.Fits.stays (hu : u.Fits) (p : Mem) (n : Nat) : ∃ m ≤ n, u = u.moved p 0 m :=
  ⟨0, Nat.zero_le n, (moved_zero hu.resid hu.nonneg hu.offset).symm⟩

theorem Uio.Fits.blklen_eq (hu : u.Fits) : toU32 (SFS_BLOCKSIZE - u.blkoff) = 512 - u.off % 512 := by
  rw [hu.blkoff_eq, show (SFS_BLOCKSIZE : Int) = 512 from rfl, toU32_of_small (by omega) (by omega)]
  omega

theorem rw_cases (u : Uio) : u.uio_rw = .UIO_READ ∨ u.uio_rw = .UIO_WRITE := by
  cases u.uio_rw <;> simp

theorem from_eq_slotByte {k : Slot} (hk : slotOf (u.off / 512) = some k) {q : Nat}
    (hq : u.off % 512 + q < 512) : s.from i u q = s.slotByte i k (u.off % 512 + q) := by
  rw [Sfs.from, Sfs.fileByte, show (u.off + q) / 512 = u.off / 512 by omega, hk,
    show (u.off + q) % 512 = u.off % 512 + q by omega]

theorem uiomove_at_run (hu : u.Fits) (iobuf : Mem) (skip : Nat) {n : Nat} (hn : n ≤ u.uio_resid) :
    uiomove_at iobuf skip n u =
      if u.faults n then .ok (.error .EFAULT, u)
      else .ok (.ok fun q => if q < skip then iobuf q else
          u.fetch (fun q => iobuf (skip + q)) 0 n (q - skip),
        u.moved (fun q => iobuf (skip + q)) 0 n) := by
  have hrun := hu.uiomove_run (p := fun q => iobuf (skip + q)) hn
  rw [uiomove_at]
  by_cases hf : u.faults n
  · rw [if_pos hf] at hrun ⊢
    exact bind_error hrun
  · rw [if_neg hf] at hrun ⊢
    exact bind_ok hrun

theorem moved_write_eq {ptr : Mem} (ptr' : Mem) {n : Nat} (hrw : u.uio_rw = .UIO_WRITE) :
    u.moved ptr 0 n = u.moved ptr' 0 n := by
  simp only [Uio.moved, hrw]

theorem fetch_write {ptr : Mem} {n q : Nat} (hrw : u.uio_rw = .UIO_WRITE) :
    u.fetch ptr 0 n q = if q < n then u.src q else ptr q := by
  simp only [Uio.fetch, hrw, Mem.copy, Nat.zero_le, true_and, Nat.zero_add, Nat.sub_zero, Uio.src]

theorem not_safe_of_faults {n : Nat} (h : u.faults n = true) : ¬ u.Safe := by
  intro hs
  rw [faults_of_safe hs] at h
  cases h

/-! ### The outcomes of a piece -/

section Outcomes

variable {t : Sfs} {k : Slot} {p : Mem} {n : Nat}

theorem Piece.far (hu : u.Fits) (hg : s.Good I) (hv : s.vnodes i = some v) (hk : slotOf (u.off / 512) = none) :
    Piece I i s u n (.error .EINVAL) (s, u) :=
  ⟨.inl ⟨rfl, slotOf_eq_none.mp hk⟩, rfl, fun _ => ⟨rfl, hu.stays _ _⟩, fun _ => ⟨rfl, .refl hg hv, by simp⟩,
    fun _ => rfl⟩

theorem Piece.fault (hu : u.Fits) (hf : u.faults n = true) (hext : Extend I i s t)
    (hread : u.uio_rw = .UIO_READ → t = s) : Piece I i s u n (.error .EFAULT) (t, u) :=
  ⟨.inr (.inr ⟨rfl, not_safe_of_faults hf⟩), rfl, fun hr => ⟨hread hr, hu.stays _ _⟩, fun _ => ⟨rfl, hext, by simp⟩,
    fun _ => rfl⟩

theorem Piece.full (hrw : u.uio_rw = .UIO_WRITE) (hk : slotOf (u.off / 512) = some k) (hext : Extend I i s t)
    (hhole : s.ref i k = 0) : Piece I i s u n (.error .ENOSPC) (t, u) := by
  refine ⟨.inr (.inl ⟨rfl, hrw⟩), rfl, by simp [hrw], fun _ => ⟨rfl, hext, fun _ l hl => ?_⟩, fun _ => rfl⟩
  obtain rfl := Option.some.inj (hk.symm.trans hl)
  exact hhole

theorem Piece.read (hrw : u.uio_rw = .UIO_READ) (hk : slotOf (u.off / 512) = some k) (hlen : u.off % 512 + n ≤ 512)
    (hp : ∀ q < n, p q = s.slotByte i k (u.off % 512 + q)) : Piece I i s u n (.ok ()) (s, u.moved p 0 n) := by
  refine ⟨⟨moved_congr fun q hq => ?_, fun _ => rfl, by simp [hrw]⟩, lt_of_slotOf hk⟩
  rw [Nat.zero_add, hp q hq, from_eq_slotByte hk (by omega)]

theorem Piece.write (hrw : u.uio_rw = .UIO_WRITE) (hk : slotOf (u.off / 512) = some k)
    (hw : Wrote I i s t u.off n u.src) : Piece I i s u n (.ok ()) (t, u.moved p 0 n) :=
  ⟨⟨moved_write_eq _ hrw, by simp [hrw], fun _ => hw⟩, lt_of_slotOf hk⟩

end Outcomes

theorem sfs_partialio_buf_run (hg : s.Good I) (hi : i ∈ I) {k : Slot}
    (hrw : s.ref i k = 0 → u.uio_rw = .UIO_READ) :
    ∃ iobuf : Mem, (∀ q < 512, iobuf q = s.slotByte i k q) ∧
      sfs_partialio_buf (s.ref i k) (s, u) = .ok (.ok iobuf, (s, u)) := by
  rw [sfs_partialio_buf, bind_ok (get_run _)]
  by_cases h0 : s.ref i k = 0
  · refine ⟨fun _ => 0, fun q _ => by rw [Sfs.slotByte, if_pos h0], ?_⟩
    dsimp only
    rw [if_pos h0]
    exact bind_ok (ensure_run _ _ _ (hrw h0))
  · refine ⟨fun q => if q < 512 then s.sect (s.ref i k) q else 0, fun q hq => ?_, ?_⟩
    · rw [Sfs.slotByte, if_neg h0]; exact if_pos hq
    · dsimp only
      rw [if_neg h0]
      exact first_ok (sfs_rblock_run hg.volume (used_lt (hg.holding.mem i hi k h0)))

theorem sfs_partialio_read (hu : u.Fits) (hrw : u.uio_rw = .UIO_READ) (hg : s.Good I) (hi : i ∈ I)
    (hv : s.vnodes i = some v) {n : Nat} (hlen : u.off % 512 + n ≤ 512) (hn : n ≤ u.uio_resid) :
    Holds X (sfs_partialio i (u.off % 512) n) (s, u) (Piece I i s u n) := by
  have hd : (decide (u.uio_rw = .UIO_WRITE)) = false := by simp [hrw]
  rw [sfs_partialio]
  have hlen' : (u.off % 512 + n) % 2 ^ 32 ≤ SFS_BLOCKSIZE := Nat.le_trans (Nat.mod_le _ _) hlen
  refine holds_bind_run (get_run _) (holds_bind_run (ensure_run _ _ _ hlen') ?_)
  rw [hu.fileblock_eq, hd]
  cases hk : slotOf (u.off / 512) with
  | none => exact holds_of_run (bind_error (first_ok (sfs_bmap_none hk))) (.far hu hg hv hk)
  | some k =>
    obtain ⟨iobuf, hbuf, hrun⟩ := sfs_partialio_buf_run (u := u) hg hi (k := k) fun _ => hrw
    refine holds_bind_run (first_ok (sfs_bmap_read hg hi hv hk)) (holds_bind_run hrun ?_)
    refine holds_bind_run (ensure_run _ _ _ (.inr hlen)) ?_
    have hmove := uiomove_at_run hu iobuf (u.off % 512) hn
    by_cases hf : u.faults n
    · rw [if_pos hf] at hmove
      exact holds_of_run (bind_error (second_ok hmove)) (.fault hu hf (.refl hg hv) fun _ => rfl)
    · rw [if_neg hf] at hmove
      refine holds_bind_run (second_ok hmove) ?_
      rw [if_neg (by simp [hrw])]
      exact holds_pure (.read hrw hk hlen fun q hq => hbuf _ (by omega))

theorem sfs_partialio_write (hu : u.Fits) (hrw : u.uio_rw = .UIO_WRITE) (hg : s.Good I) (hi : i ∈ I)
    (hv : s.vnodes i = some v) {n : Nat} (hlen : u.off % 512 + n ≤ 512) (hn : n ≤ u.uio_resid) :
    Holds X (sfs_partialio i (u.off % 512) n) (s, u) (Piece I i s u n) := by
  have hd : (decide (u.uio_rw = .UIO_WRITE)) = true := by simp [hrw]
  rw [sfs_partialio]
  have hlen' : (u.off % 512 + n) % 2 ^ 32 ≤ SFS_BLOCKSIZE := Nat.le_trans (Nat.mod_le _ _) hlen
  refine holds_bind_run (get_run _) (holds_bind_run (ensure_run _ _ _ hlen') ?_)
  rw [hu.fileblock_eq, hd]
  cases hk : slotOf (u.off / 512) with
  | none => exact holds_of_run (bind_error (first_ok (sfs_bmap_none hk))) (.far hu hg hv hk)
  | some k =>
    rcases sfs_bmap_write hg hi hv hk with ⟨t, hmap, hext, h0⟩ | ⟨t, hmap, hext, hhole⟩
    · obtain ⟨v', hv'⟩ : ∃ v', t.vnodes i = some v' := ⟨_, hext.vnode.choose_spec.choose_spec.2.1⟩
      obtain ⟨iobuf, hbuf, hrun⟩ := sfs_partialio_buf_run (u := u) hext.good hi (k := k) fun h => absurd h h0
      refine holds_bind_run (first_ok hmap) (holds_bind_run hrun ?_)
      refine holds_bind_run (ensure_run _ _ _ (.inr hlen)) ?_
      have hmove := uiomove_at_run hu iobuf (u.off % 512) hn
      by_cases hf : u.faults n
      · rw [if_pos hf] at hmove
        exact holds_of_run (bind_error (second_ok hmove)) (.fault hu hf hext (by simp [hrw]))
      · rw [if_neg hf] at hmove
        refine holds_bind_run (second_ok hmove) ?_
        rw [if_pos hrw]
        have hlt := used_lt (hext.good.holding.mem i hi k h0)
        refine holds_of_run (first_ok (sfs_wblock_run hext.good.volume hlt _)) (.write hrw hk ?_)
        refine hext.then_wrote (Wrote.of_block hext.good hi hv' hk h0 hlen fun q hq => ?_)
        have hq' := hbuf q hq
        rw [Sfs.slotByte, if_neg h0] at hq'
        by_cases hs : q < u.off % 512
        · rw [if_pos hs, if_neg (by omega), hq']
        · rw [if_neg hs, fetch_write hrw, show u.off % 512 + (q - u.off % 512) = q by omega, hq']
          by_cases hin : q - u.off % 512 < n
          · rw [if_pos hin, if_pos (by omega)]
          · rw [if_neg hin, if_neg (by omega)]
    · exact holds_of_run (bind_error (first_ok hmap)) (.full hrw hk hext hhole)

/-! ## Whole blocks -/

def Uio.request (u : Uio) (diskoff : Int) : Uio := { u with uio_offset := diskoff, uio_resid := SFS_BLOCKSIZE }

def Uio.restore (u u' : Uio) (diskoff : Int) : Uio :=
  { u' with
    uio_offset := toI32 (u'.uio_offset - diskoff + u.uio_offset)
    uio_resid := toU32 (u'.uio_resid - SFS_BLOCKSIZE + toI32 u.uio_resid) }

theorem diskoff_eq {b : Nat} (hb : b < 2 ^ 22) : toI32 (toU32 ((b : Int) * (SFS_BLOCKSIZE : Nat))) = 512 * b := by
  have h1 : toU32 ((b : Int) * (512 : Nat)) = b * 512 := by simp only [toU32]; omega
  rw [h1, toI32_of_small (by omega) (by omega)]
  omega

theorem Uio.Fits.restore_request (hu : u.Fits) (d : Int) : u.restore (u.request d) d = u := by
  have h0 := hu.nonneg
  have h31 := hu.offset
  have h32 := hu.resid
  have e1 : toI32 (d - d + u.uio_offset) = u.uio_offset := by
    simp only [toI32, Int.bmod_def]; omega
  have e2 : ∀ n : Int, toU32 (n - n + toI32 u.uio_resid) = u.uio_resid := fun n => by
    simp only [toI32, toU32, Int.bmod_def]; omega
  simp only [Uio.restore, Uio.request, e1, e2]

theorem restore_moved (ptr : Mem) (d : Int) : u.restore ((u.request d).moved ptr 0 512) d = u.moved ptr 0 512 := by
  have e1 : toI32 (toI32 (d + (512 : Nat)) - d + u.uio_offset) = toI32 (u.uio_offset + (512 : Nat)) := by
    simp only [toI32, Int.bmod_def]; omega
  have e2 : ∀ n : Int, toU32 ((toU32 (n - n) : Int) - n + toI32 u.uio_resid) = toU32 (u.uio_resid - n) := fun n => by
    simp only [toI32, toU32, Int.bmod_def]; omega
  simp only [Uio.restore, Uio.moved, Uio.request, e1, e2]

theorem sfs_blockio_direct_eq {b : Nat} {d : Int} {r : Except Errno Unit} {t : Sfs} {u' : Uio}
    (hd : toI32 (toU32 (b * SFS_BLOCKSIZE)) = d) (hres : 512 ≤ u.uio_resid)
    (h : sfs_rwblock (s, u.request d) = .ok (r, (t, u'))) :
    sfs_blockio_direct b (s, u) = .ok (r, (t, u.restore u' d)) := by
  rw [sfs_blockio_direct, bind_ok (get_run _)]
  dsimp only
  rw [bind_ok (ensure_run _ _ _ hres), hd]
  refine (bind_ok (second_ok (set_run u _))).trans ((bind_ok (attempt_ok h)).trans ?_)
  exact bind_ok (second_ok (modify_run u' _))

theorem sfs_blockio_direct_run {b : Nat} {dev : Device} {ptr : Mem} (hu : u.Fits) (hres : 512 ≤ u.uio_resid)
    (hb : b < 2 ^ 22)
    (h : lhd_io (s.sfs_device, u.request (512 * b)) =
      if (u.request (512 * b)).faults 512 then .ok (.error .EFAULT, (s.sfs_device, u.request (512 * b)))
      else .ok (.ok (), (dev, (u.request (512 * b)).moved ptr 0 512))) :
    sfs_blockio_direct b (s, u) =
      if u.faults 512 then .ok (.error .EFAULT, (s, u))
      else .ok (.ok (), ({ s with sfs_device := dev }, u.moved ptr 0 512)) := by
  have hf' : (u.request (512 * b)).faults 512 = u.faults 512 := rfl
  rw [hf'] at h
  by_cases hf : u.faults 512
  · rw [if_pos hf] at h ⊢
    rw [sfs_blockio_direct_eq (diskoff_eq hb) hres (sfs_rwblock_run h (Or.inr rfl)), hu.restore_request]
  · rw [if_neg hf] at h ⊢
    rw [sfs_blockio_direct_eq (diskoff_eq hb) hres (sfs_rwblock_run h (Or.inl rfl)), restore_moved]

theorem sfs_blockio_read (hu : u.Fits) (hrw : u.uio_rw = .UIO_READ) (hg : s.Good I) (hi : i ∈ I)
    (hv : s.vnodes i = some v) (hal : u.off % 512 = 0) (hn : 512 ≤ u.uio_resid) :
    Holds X (sfs_blockio i) (s, u) (Piece I i s u 512) := by
  have hd : (decide (u.uio_rw = .UIO_WRITE)) = false := by simp [hrw]
  rw [sfs_blockio]
  refine holds_bind_run (get_run _) ?_
  dsimp only
  rw [hu.fileblock_eq, hd]
  cases hk : slotOf (u.off / 512) with
  | none => exact holds_of_run (bind_error (first_ok (sfs_bmap_none hk))) (.far hu hg hv hk)
  | some k =>
    have hlen : u.off % 512 + 512 ≤ 512 := by omega
    refine holds_bind_run (first_ok (sfs_bmap_read hg hi hv hk)) ?_
    by_cases h0 : s.ref i k = 0
    · rw [if_pos h0]
      refine holds_bind_run (ensure_run _ _ _ hrw) ?_
      rcases uiomovezeros_spec hrw (n := 512) (by omega) (Nat.le_trans hn hu.len) hn hu.resid with
        h | ⟨hs, u', h, hu'⟩
      · refine holds_of_run (second_ok h) (.read hrw hk hlen fun q hq => ?_)
        rw [Sfs.slotByte, if_pos h0]
      · have hstop : ∃ m ≤ 512, u' = u.moved (s.from i u) 0 m := by
          rcases hu' with rfl | ⟨m, hm, rfl⟩
          · exact hu.stays _ _
          · refine ⟨m, hm, moved_congr fun q hq => ?_⟩
            rw [Nat.zero_add, from_eq_slotByte hk (by omega), Sfs.slotByte, if_pos h0]
        refine holds_of_run (second_ok h) ?_
        refine ⟨.inr (.inr ⟨rfl, hs⟩), ?_, fun _ => ⟨rfl, hstop⟩, by simp [hrw], fun h => absurd h hs⟩
        obtain ⟨m, -, rfl⟩ := hstop
        rfl
    · rw [if_neg h0]
      have hlt := used_lt (hg.holding.mem i hi k h0)
      have h1 := hg.volume.nblocks_le
      have h2 := hg.volume.nblocks_le_device
      have hio := lhd_io_one (u := u.request (512 * s.ref i k)) rfl (by omega) hg.volume.device_lt rfl
      rw [lhd_sector_read_works (u := u.request (512 * s.ref i k)) hrw hg.volume.eio (by omega)
        (Nat.le_trans hn hu.len) (Nat.le_refl 512)] at hio
      have hrun := sfs_blockio_direct_run hu hn (by omega) hio
      by_cases hf : u.faults 512
      · rw [if_pos hf] at hrun
        exact holds_of_run hrun (.fault hu hf (.refl hg hv) fun _ => rfl)
      · rw [if_neg hf] at hrun
        refine holds_of_run hrun (.read hrw hk hlen fun q hq => ?_)
        rw [hal, Nat.zero_add, Sfs.slotByte, if_neg h0]
        rfl

theorem sfs_blockio_write (hu : u.Fits) (hrw : u.uio_rw = .UIO_WRITE) (hg : s.Good I) (hi : i ∈ I)
    (hv : s.vnodes i = some v) (hal : u.off % 512 = 0) (hn : 512 ≤ u.uio_resid) :
    Holds X (sfs_blockio i) (s, u) (Piece I i s u 512) := by
  have hd : (decide (u.uio_rw = .UIO_WRITE)) = true := by simp [hrw]
  rw [sfs_blockio]
  refine holds_bind_run (get_run _) ?_
  dsimp only
  rw [hu.fileblock_eq, hd]
  cases hk : slotOf (u.off / 512) with
  | none => exact holds_of_run (bind_error (first_ok (sfs_bmap_none hk))) (.far hu hg hv hk)
  | some k =>
    rcases sfs_bmap_write hg hi hv hk with ⟨t, hmap, hext, h0⟩ | ⟨t, hmap, hext, hhole⟩
    · obtain ⟨v', hv'⟩ : ∃ v', t.vnodes i = some v' := ⟨_, hext.vnode.choose_spec.choose_spec.2.1⟩
      refine holds_bind_run (first_ok hmap) ?_
      rw [if_neg h0]
      have hlt := used_lt (hext.good.holding.mem i hi k h0)
      have hV := hext.good.volume
      have h1 := hV.nblocks_le
      have h2 := hV.nblocks_le_device
      have hio := lhd_io_one (u := u.request (512 * t.ref i k)) rfl (by omega) hV.device_lt rfl
      rw [lhd_sector_write_works (u := u.request (512 * t.ref i k)) hrw hV.eio (by omega)
        (Nat.le_trans hn hu.len) (Nat.le_refl 512)] at hio
      have hrun := sfs_blockio_direct_run hu hn (by omega) hio
      by_cases hf : u.faults 512
      · rw [if_pos hf] at hrun
        exact holds_of_run hrun (.fault hu hf hext (by simp [hrw]))
      · rw [if_neg hf] at hrun
        refine holds_of_run hrun (.write hrw hk ?_)
        have hw : Wrote I i t (t.setBlock (t.ref i k) u.src) u.off 512 u.src :=
          Wrote.of_block hext.good hi hv' hk h0 (by omega) fun q hq => by
            rw [if_pos (by omega), hal, Nat.sub_zero]
        have hfetch : (fun q => if q < 512 then u.src q else 0) =
            (u.request (512 * t.ref i k)).fetch (fun _ => 0) 0 512 := by
          funext q
          rw [fetch_write (u := u.request (512 * t.ref i k)) hrw]; rfl
        rw [Sfs.setBlock, hfetch] at hw
        exact hext.then_wrote hw
    · exact holds_of_run (bind_error (first_ok hmap)) (.full hrw hk hext hhole)

theorem sfs_partialio_spec (hu : u.Fits) (hg : s.Good I) (hi : i ∈ I) (hv : s.vnodes i = some v) {n : Nat}
    (hlen : u.off % 512 + n ≤ 512) (hn : n ≤ u.uio_resid) :
    Holds X (sfs_partialio i (u.off % 512) n) (s, u) (Piece I i s u n) := by
  rcases rw_cases u with h | h
  · exact sfs_partialio_read hu h hg hi hv hlen hn
  · exact sfs_partialio_write hu h hg hi hv hlen hn

theorem sfs_blockio_spec (hu : u.Fits) (hg : s.Good I) (hi : i ∈ I) (hv : s.vnodes i = some v)
    (hal : u.off % 512 = 0) (hn : 512 ≤ u.uio_resid) :
    Holds X (sfs_blockio i) (s, u) (Piece I i s u 512) := by
  rcases rw_cases u with h | h
  · exact sfs_blockio_read hu h hg hi hv hal hn
  · exact sfs_blockio_write hu h hg hi hv hal hn

end Pieces

/-! ## A whole transfer -/

def Transfer (I : Set Nat) (i : Nat) (s : Sfs) (u : Uio) (n : Nat) : Except Errno Unit → Sfs × Uio → Prop
  | .ok _, (s', u') => Moved I i s u n s' u' ∧ (n = 0 ∨ u.off + n ≤ 73216)
  | .error e, (s', u') =>
    u'.uio_rw = u.uio_rw ∧ (u.uio_rw = .UIO_READ → s' = s ∧ ∃ m ≤ n, u' = u.moved (s.from i u) 0 m) ∧
      ∃ k ≤ n, (k < n ∨ k = 0 ∧ u.off % 512 ≠ 0) ∧ Fails u (u.off + k) e ∧
        (k = 0 ∨ u.off + k ≤ 73216 ∧ (u.off + k) % 512 = 0) ∧
        (u.uio_rw = .UIO_WRITE → u' = u.moved (s.from i u) 0 k ∧ Wrote I i s s' u.off k u.src) ∧
        (u.Safe → u' = u.moved (s.from i u) 0 k)

section Transfers

variable {X : Panic → Prop} {I : Set Nat} {i : Nat} {s s₁ s₂ : Sfs} {u u₁ u₂ : Uio} {v : Vnode} {n m : Nat}

theorem Moved.zero (hu : u.Fits) (hg : s.Good I) (hv : s.vnodes i = some v) : Moved I i s u 0 s u where
  uio := (moved_zero hu.resid hu.nonneg hu.offset).symm
  read _ := rfl
  write _ := (Extend.refl hg hv).wrote

namespace Moved

theorem good (h : Moved I i s u n s₁ u₁) (hg : s.Good I) : s₁.Good I := by
  rcases rw_cases u with hr | hw
  · rw [h.read hr]; exact hg
  · exact (h.write hw).good

theorem vnode (h : Moved I i s u n s₁ u₁) (hv : s.vnodes i = some v) : ∃ v₁, s₁.vnodes i = some v₁ := by
  rcases rw_cases u with hr | hw
  · exact ⟨v, by rw [h.read hr, hv]⟩
  · obtain ⟨-, v', -, hv', -⟩ := (h.write hw).vnode
    exact ⟨v', hv'⟩

theorem src_eq (h : Moved I i s u n s₁ u₁) (hw : u.uio_rw = .UIO_WRITE) : u₁.src = fun q => u.src (n + q) := by
  funext q
  rw [h.uio, Uio.src, Uio.src, moved_mem_write hw, moved_base, Nat.add_assoc]

theorem uio_trans (h : Moved I i s u n s₁ u₁) (hu : u.Fits) (hres : n + m ≤ u.uio_resid)
    (hoff : u.off + n < 2 ^ 31) : u₁.moved (s₁.from i u₁) 0 m = u.moved (s.from i u) 0 (n + m) := by
  have hoff₁ : u₁.off = u.off + n := by rw [h.uio, hu.moved_off hoff]
  rcases rw_cases u with hr | hw
  · have hfrom : s₁.from i u₁ = fun q => s.from i u (n + q) := by
      funext q
      rw [h.read hr, Sfs.from, Sfs.from, hoff₁, Nat.add_assoc]
    rw [hfrom, h.uio, moved_moved hres hu.resid]
  · have hw₁ : u₁.uio_rw = .UIO_WRITE := by rw [h.uio]; exact hw
    rw [moved_write_eq (fun q => s.from i u (n + q)) hw₁, h.uio, moved_moved hres hu.resid]

theorem wrote_trans (h : Moved I i s u n s₁ u₁) (hu : u.Fits) (hoff : u.off + n < 2 ^ 31)
    (hw : u.uio_rw = .UIO_WRITE) (h' : Wrote I i s₁ s₂ u₁.off m u₁.src) :
    Wrote I i s s₂ u.off (n + m) u.src := by
  have hoff₁ : u₁.off = u.off + n := by rw [h.uio, hu.moved_off hoff]
  rw [hoff₁, h.src_eq hw] at h'
  exact (h.write hw).trans h'

theorem trans (h : Moved I i s u n s₁ u₁) (hu : u.Fits) (hres : n + m ≤ u.uio_resid)
    (hoff : u.off + n < 2 ^ 31) (h' : Moved I i s₁ u₁ m s₂ u₂) : Moved I i s u (n + m) s₂ u₂ := by
  have hrw : u₁.uio_rw = u.uio_rw := by rw [h.uio]; rfl
  refine ⟨?_, fun hr => ?_, fun hw => ?_⟩
  · rw [h'.uio, h.uio_trans hu hres hoff]
  · rw [h'.read (hrw.trans hr), h.read hr]
  · exact h.wrote_trans hu hoff hw (h'.write (hrw.trans hw))

end Moved

theorem Transfer.trans (h : Moved I i s u n s₁ u₁) (hu : u.Fits) (hn : n = 0 ∨ u.off + n ≤ 73216)
    (hres : n + m ≤ u.uio_resid) (hal : n = 0 ∨ (u.off + n) % 512 = 0) {r : Except Errno Unit}
    {t : Sfs × Uio} (h' : Transfer I i s₁ u₁ m r t) : Transfer I i s u (n + m) r t := by
  have h31 : u.off + n < 2 ^ 31 := by
    have := hu.off_eq
    have := hu.offset
    omega
  have hoff₁ : u₁.off = u.off + n := by rw [h.uio, hu.moved_off h31]
  have hrw : u₁.uio_rw = u.uio_rw := by rw [h.uio]; rfl
  have hsafe : u₁.Safe ↔ u.Safe := by rw [h.uio]; exact Iff.rfl
  obtain ⟨s₂, u₂⟩ := t
  cases r with
  | ok =>
    obtain ⟨hm, hb⟩ := h'
    exact ⟨h.trans hu hres h31 hm, by omega⟩
  | error e =>
    obtain ⟨hrw', hread, k, hk, hlt, hfail, hbnd, hwr, hsf⟩ := h'
    refine ⟨hrw'.trans hrw, fun hr => ?_, n + k, by omega, by omega, ?_, by omega, fun hw => ?_, fun hs => ?_⟩
    · obtain ⟨hs₂, m', hm', hu₂⟩ := hread (hrw.trans hr)
      exact ⟨hs₂.trans (h.read hr), n + m', by omega, hu₂.trans (h.uio_trans hu (by omega) h31)⟩
    · rw [← Nat.add_assoc, ← hoff₁]
      rwa [Fails, hrw, hsafe] at hfail
    · obtain ⟨hu₂, hw₂⟩ := hwr (hrw.trans hw)
      exact ⟨hu₂.trans (h.uio_trans hu (by omega) h31), h.wrote_trans hu h31 hw hw₂⟩
    · exact (hsf (hsafe.mpr hs)).trans (h.uio_trans hu (by omega) h31)

theorem Piece.transfer_error {e : Errno} {t : Sfs × Uio} (hu : u.Fits)
    (hm : 0 < m ∨ u.off % 512 ≠ 0) (hnm : n ≤ m) (h : Piece I i s u n (.error e) t) :
    Transfer I i s u m (.error e) t := by
  obtain ⟨hfail, hrw, hread, hwr, hsf⟩ := h
  have hzero : u.moved (s.from i u) 0 0 = u := moved_zero hu.resid hu.nonneg hu.offset
  have hread' : u.uio_rw = .UIO_READ → t.1 = s ∧ ∃ k ≤ m, t.2 = u.moved (s.from i u) 0 k := by
    intro hr
    obtain ⟨hs, k, hk, hu'⟩ := hread hr
    exact ⟨hs, k, by omega, hu'⟩
  refine ⟨hrw, hread', 0, Nat.zero_le m, by omega, hfail, Or.inl rfl, fun hw => ?_, fun hs => ?_⟩
  · exact ⟨(hwr hw).1.trans hzero.symm, (hwr hw).2.1.wrote⟩
  · exact (hsf hs).trans hzero.symm

theorem Piece.transfer (hu : u.Fits) (hlen : u.off % 512 + n ≤ 512) (hn : 0 < n) {r : Except Errno Unit}
    {t : Sfs × Uio} (h : Piece I i s u n r t) : Transfer I i s u n r t := by
  cases r with
  | ok => exact ⟨h.1, by have := h.2; omega⟩
  | error e => exact h.transfer_error hu (Or.inl hn) (Nat.le_refl n)

end Transfers

end Os161
