import Os161.Sfs.Reach

/-! # Reads at any position

The position and the length of a read come from executables unchecked.
-/

namespace Os161

open Prog Words

section Far

variable {X : Panic → Prop} {I : Set Nat} {i : Nat} {s : Sfs} {u : Uio} {v : Vnode}

theorem fileblock_far (hlo : -2 ^ 31 ≤ u.uio_offset) (hneg : u.uio_offset ≤ -512) : slotOf u.fileblock = none := by
  have hdiv : u.uio_offset.tdiv 512 < 0 ∧ -2 ^ 22 ≤ u.uio_offset.tdiv 512 := by
    have hquot := Int.mul_tdiv_add_tmod u.uio_offset 512
    have hlt := Int.lt_tmod_of_pos u.uio_offset (b := 512) (by omega)
    have hgt := Int.tmod_lt_of_pos u.uio_offset (b := 512) (by omega)
    omega
  rw [slotOf_eq_none, Uio.fileblock, show (SFS_BLOCKSIZE : Int) = 512 from rfl, toU32]
  omega

theorem sfs_partialio_far (hfar : slotOf u.fileblock = none) (skipstart len : Nat) :
    Holds (· = .partialio_len) (sfs_partialio i skipstart len) (s, u) fun r t =>
      r = .error .EINVAL ∧ t = (s, u) := by
  rw [sfs_partialio]
  refine holds_bind_run (get_run _) (holds_ensure_bind (.inr rfl) fun _ => ?_)
  exact holds_of_run (bind_error (first_ok (sfs_bmap_none hfar))) ⟨rfl, rfl⟩

theorem sfs_blockio_far (hfar : slotOf u.fileblock = none) :
    sfs_blockio i (s, u) = .ok (.error .EINVAL, (s, u)) := by
  rw [sfs_blockio, bind_ok (get_run _)]
  exact bind_error (first_ok (sfs_bmap_none hfar))

theorem sfs_io_aligned_far (hfar : slotOf u.fileblock = none) (hal : u.uio_offset.tmod SFS_BLOCKSIZE = 0) :
    Holds (· = .partialio_len) (sfs_io_aligned i) (s, u) fun _ t => t = (s, u) := by
  by_cases h0 : u.uio_resid = 0
  · exact holds_of_run (sfs_io_aligned_zero h0) rfl
  rw [sfs_io_aligned]
  refine holds_bind_run (get_run _) ?_
  dsimp only
  rw [if_neg h0]
  refine holds_bind_run (ensure_run _ _ _ hal) ?_
  cases hn : u.uio_resid / SFS_BLOCKSIZE with
  | succ n =>
    rw [sfs_io_blocks]
    exact holds_of_run (bind_error (bind_error (sfs_blockio_far hfar))) rfl
  | zero =>
    have hlt : u.uio_resid < SFS_BLOCKSIZE := by
      simp only [SFS_BLOCKSIZE] at hn ⊢
      omega
    refine holds_bind_run (pure_run _ _) (holds_bind_run (get_run _) (holds_bind_run (ensure_run _ _ _ hlt) ?_))
    rw [if_pos (Nat.pos_of_ne_zero h0)]
    exact (sfs_partialio_far hfar _ _).imp fun _ _ h => h.2

theorem sfs_io_transfer_far (hfar : slotOf u.fileblock = none) :
    Holds (· = .partialio_len) (sfs_io_transfer i) (s, u) fun _ t => t = (s, u) := by
  rw [sfs_io_transfer]
  refine holds_bind_run (get_run _) ?_
  dsimp only
  by_cases hb : u.blkoff = 0
  · have hal : u.uio_offset.tmod SFS_BLOCKSIZE = 0 := by
      have hlt := Int.lt_tmod_of_pos u.uio_offset (b := 512) (by omega)
      have hgt := Int.tmod_lt_of_pos u.uio_offset (b := 512) (by omega)
      rw [Uio.blkoff, show (SFS_BLOCKSIZE : Int) = 512 from rfl, toU32] at hb
      rw [show (SFS_BLOCKSIZE : Int) = 512 from rfl]
      omega
    rw [if_neg (by omega)]
    exact sfs_io_aligned_far hfar hal
  · rw [if_pos hb]
    refine (sfs_partialio_far hfar _ _).bind (fun _ _ h => ?_) fun _ _ h => h.2
    cases h.1

theorem sfs_io_far (hlen : u.uio_resid < 2 ^ 32) (hlo : -2 ^ 31 ≤ u.uio_offset) (hneg : u.uio_offset ≤ -512)
    (hrw : u.uio_rw = .UIO_READ) (hv : s.vnodes i = some v) (hsize : 0 ≤ s.fileSize i) :
    Holds (· = .partialio_len) (sfs_io i) (s, u) fun _ t => t = (s, u) := by
  have hfar : ∀ n, slotOf (u.setResid n).fileblock = none := fun _ => fileblock_far hlo hneg
  have hback : ∀ n extra, n + extra = u.uio_resid →
      (u.setResid n).setResid (toU32 ((u.setResid n).uio_resid + extra)) = u := by
    intro n extra hn
    have : toU32 ((n : Int) + extra) = u.uio_resid := by simp only [toU32]; omega
    simp only [Uio.setResid, this]
  -- the check for EOF cuts off what it adds back at the end
  have heof : ∃ n extra, n + extra = u.uio_resid ∧
      sfs_io_eof i (s, u) = .ok (.ok (some extra), (s, u.setResid n)) := by
    rw [sfs_io_eof, bind_ok (get_run _)]
    dsimp only
    rw [bind_ok (first_ok (getv_run hv)), hrw]
    dsimp only
    rw [← fileSize_some hv, if_neg (by omega)]
    by_cases h2 : toI32 (u.uio_offset + u.uio_resid) > s.fileSize i
    · have hend : toI32 (u.uio_offset + u.uio_resid) = u.uio_offset + u.uio_resid := by
        simp only [toI32, Int.bmod_def] at h2 ⊢; omega
      rw [hend] at h2 ⊢
      have he : toU32 (u.uio_offset + u.uio_resid - s.fileSize i) =
          (u.uio_offset + u.uio_resid - s.fileSize i).toNat := toU32_of_small (by omega) (by omega)
      refine ⟨u.uio_resid - (u.uio_offset + u.uio_resid - s.fileSize i).toNat,
        (u.uio_offset + u.uio_resid - s.fileSize i).toNat, by omega, ?_⟩
      rw [if_pos h2, he]
      exact (bind_ok (ensure_run _ _ _ (by omega))).trans (bind_ok (second_ok (set_run u _)))
    · refine ⟨u.uio_resid, 0, rfl, ?_⟩
      rw [if_neg h2]
      rfl
  obtain ⟨n, extra, hn, heof⟩ := heof
  rw [sfs_io]
  refine holds_bind_run heof ((sfs_io_transfer_far (hfar n)).bind_attempt fun r t ht => ?_)
  subst ht
  refine holds_bind_run (sfs_io_out_read (by exact hrw) hv extra) (holds_of_run (finish_run _ r) ?_)
  rw [hback n extra hn]

end Far

/-! ## All positions -/

section Bounds

variable {I : Set Nat} {i : Nat} {s : Sfs} {u : Uio} {v : Vnode}

theorem readLen_le (h0 : 0 ≤ u.uio_offset) (h : s.fileSize i ≤ u.uio_offset ∨ u.uio_offset + u.uio_resid < 2 ^ 31) :
    s.readLen i u = 0 ∨ u.uio_offset + s.readLen i u ≤ s.fileSize i := by
  rw [Sfs.readLen]
  by_cases h1 : s.fileSize i ≤ u.uio_offset
  · exact .inl (if_pos h1)
  · rw [if_neg h1, toI32_of_small (by omega) (by omega)]
    by_cases h2 : u.uio_offset + u.uio_resid > s.fileSize i
    · rw [if_pos h2]
      omega
    · rw [if_neg h2]
      omega

end Bounds

end Os161
