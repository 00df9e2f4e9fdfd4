import Os161.Sfs.Reach

/-! # What a truncation discards -/

namespace Os161

open Prog Words

theorem blocklen_eq {len : Nat} (h : len ≤ 73216) : blocklen len = (len + 511) / 512 := by
  rw [blocklen, show (SFS_BLOCKSIZE : Int) = 512 from rfl, toI32_of_small (by omega) (by omega),
    Int.tdiv_eq_ediv_of_nonneg (by omega), toU32_of_small (by omega) (by omega)]
  omega

namespace Truncated

variable {I : Set Nat} {i : Nat} {len : Int} {s s' : Sfs}

theorem ref_cases (h : Truncated I i len s s') (k : Slot) : s'.ref i k = 0 ∨ s'.ref i k = s.ref i k := by
  cases k with
  | inode => exact .inr rfl
  | direct k => rw [h.direct]; split <;> simp
  | indirect => rw [h.indirect]; split <;> simp
  | entry j => rw [h.entry]; split <;> simp

theorem fblock (h : Truncated I i len s s') (fb : Nat) :
    s'.fblock i fb =
      if fb < 15 ∧ blocklen len ≤ fb ∨ 15 ≤ fb ∧ blocklen len < fb then 0 else s.fblock i fb := by
  by_cases h15 : fb < 15
  · have hk : slotOf fb = some (.direct ⟨fb, h15⟩) := dif_pos h15
    rw [fblock_of_slot hk, fblock_of_slot hk, h.direct]
    simp only [h15, true_and, show ¬ 15 ≤ fb by omega, false_and, or_false]
  · by_cases h143 : 143 ≤ fb
    · rw [fblock_of_ge h143, fblock_of_ge h143, ite_self]
    · have h128 : fb - 15 < 128 := by omega
      have hk : slotOf fb = some (.entry ⟨fb - 15, h128⟩) := by rw [slotOf, dif_neg h15, dif_pos h128]
      rw [fblock_of_slot hk, fblock_of_slot hk, h.entry]
      simp only [h15, false_and, false_or, show 15 ≤ fb by omega, true_and, show 15 + (fb - 15) = fb by omega]

theorem freed (h : Truncated I i len s s') (hg : s.Good I) (hi : i ∈ I) {k : Slot} (h0 : s'.ref i k = 0)
    (hne : s.ref i k ≠ 0) : ¬ s'.sfs_freemap.Marked (s.ref i k) := by
  intro hmarked
  obtain ⟨hlt, -, hres⟩ := hg.holding.mem i hi k hne
  have hused : s.ref i k ∈ s'.used := ⟨h.same.super ▸ hlt, hmarked, fun hr => hres ((h.same.reserved _).mp hr)⟩
  rcases h.tight _ hused with ⟨-, hno⟩ | ⟨l, hl⟩
  · exact hno k rfl
  · have hkeep := (h.ref_cases l).resolve_left fun hl0 => hne (hl.symm.trans hl0)
    obtain ⟨-, rfl⟩ := hg.holding.inj i hi i hi k l hne (hl.symm.trans hkeep)
    exact hne (hl.symm.trans h0)

theorem slotByte (h : Truncated I i len s s') (hg : s.Good I) (hi : i ∈ I) {k : Slot} (hk : k ≠ .indirect)
    (hkeep : s'.ref i k = s.ref i k) : s'.slotByte i k = s.slotByte i k := by
  funext q
  rw [Sfs.slotByte, Sfs.slotByte, hkeep]
  split
  · rfl
  · rename_i hne
    rw [h.sect _ (hg.holding.ne hi hi hne (by simpa using hk))]

theorem fileByte_kept (h : Truncated I i len s s') (hg : s.Good I) (hi : i ∈ I) {p : Nat}
    (hkeep : s'.fblock i (p / 512) = s.fblock i (p / 512)) : s'.fileByte i p = s.fileByte i p := by
  rw [Sfs.fileByte, Sfs.fileByte]
  cases hk : slotOf (p / 512) with
  | none => rfl
  | some k =>
    rw [fblock_of_slot hk, fblock_of_slot hk] at hkeep
    dsimp only
    rw [h.slotByte hg hi (slotOf_ne_inode hk).2 hkeep]

end Truncated

section Excess

variable {I : Set Nat} {i : Nat} {s : Sfs} {v : Vnode} {u w : Uio}

theorem fileByte_of_hole {p : Nat} (h : s.fblock i (p / 512) = 0) : s.fileByte i p = 0 := by
  rw [Sfs.fileByte]
  cases hk : slotOf (p / 512) with
  | none => rfl
  | some k =>
    rw [fblock_of_slot hk] at h
    exact if_pos h

theorem readLen_le_resid (hw : w.Fits) (hrw : w.uio_rw = .UIO_READ) (hv : s.vnodes i = some v) :
    s.readLen i w ≤ w.uio_resid := by
  rcases sfs_io_eof_read hw hrw hv with ⟨h0, -⟩ | ⟨extra, hsum, -⟩
  · omega
  · omega

theorem ReadPost.bytes {r : Except Errno Unit} {t : Sfs × Uio} (hw : w.Fits) (hrw : w.uio_rw = .UIO_READ)
    (hv : s.vnodes i = some v) (h : ReadPost i s w r t) :
    ∀ q < w.uio_resid - t.2.uio_resid, t.2.iov_mem (w.iov_base + q) = s.fileByte i (w.off + q) := by
  have hlen := readLen_le_resid hw hrw hv
  obtain ⟨m, hm, huio⟩ : ∃ m ≤ s.readLen i w, t.2 = w.moved (s.from i w) 0 m := by
    cases r with
    | ok => exact ⟨_, Nat.le_refl _, h.2.2.1⟩
    | error e => exact h.2.2.1
  intro q hq
  rw [huio, moved_resid (by omega) hw.resid] at hq
  rw [huio]
  simp only [Uio.moved, hrw, Mem.copy]
  rw [if_pos (by omega), Nat.add_sub_cancel_left, Nat.zero_add]
  rfl

theorem ReadPost.delivered {t : Sfs × Uio} (hw : w.Fits) (hrw : w.uio_rw = .UIO_READ) (hv : s.vnodes i = some v)
    (h : ReadPost i s w (.ok ()) t) {q : Nat} (hq : q < w.uio_resid) (hsize : ((w.off + q : Nat) : Int) < s.fileSize i) :
    q < w.uio_resid - t.2.uio_resid := by
  have hlen := readLen_le_resid hw hrw hv
  have hoff := hw.off_eq
  have hread : q < s.readLen i w := by
    rw [Sfs.readLen, if_neg (by omega)]
    split
    · omega
    · exact hq
  rw [h.2.2.1, moved_resid hlen hw.resid]
  omega

theorem zeros_before_write {len : Nat} (hg : s.Good I) (hi : i ∈ I) (hv : s.vnodes i = some v) (hu : u.Fits)
    (hrw : u.uio_rw = .UIO_WRITE) (hw : w.Fits) (hrd : w.uio_rw = .UIO_READ)
    (hzero : ∀ p, len ≤ p → s.fileByte i p = 0) :
    Holds (fun _ => False) (sfs_write i) (s, u) fun _ t =>
      Holds (fun _ => False) (sfs_read i) (t.1, w) fun r t' =>
        ∀ q < w.uio_resid, len ≤ w.off + q → w.off + q < u.off →
          (r = .ok () → q < w.uio_resid - t'.2.uio_resid) ∧
          (q < w.uio_resid - t'.2.uio_resid → t'.2.iov_mem (w.iov_base + q) = 0) := by
  refine (sfs_write_spec hu hrw hg hi hv).imp fun r t h => ?_
  obtain ⟨k, -, -, hwrote, -, -⟩ := h
  obtain ⟨-, v₁, -, hv₁, -⟩ := hwrote.vnode
  refine (sfs_read_spec hw hrd hwrote.good hi hv₁).imp fun r' t' h' q hq hlen hoff => ⟨?_, fun hq' => ?_⟩
  · rintro rfl
    refine h'.delivered hw hrd hv₁ hq ?_
    rw [hwrote.size]
    omega
  · rw [h'.bytes hw hrd hv₁ q hq', hwrote.bytes, if_neg (by omega), hzero _ hlen]

end Excess

end Os161
