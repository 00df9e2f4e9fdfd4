import Os161.Sfs.Reach
import Os161.Sfs.Retry

/-! # Where a write leaves the end of the file

In any state of the volume: the disk may fail, and the freemap may be full.
-/

namespace Os161

open Prog Words

def Sfs.sizes (s : Sfs) (j : Nat) : Option UInt32 := (s.vnodes j).map fun v => v.sv_i.sfi_size

section Keeps

variable {s t : Sfs} {i b : Nat} {v : Vnode}

theorem Sfs.Polled.vnodes (h : s.Polled t) : t.vnodes = s.vnodes := by obtain ⟨eio, rfl⟩ := h; rfl

theorem sizes_of_vnodes (h : t.vnodes = s.vnodes) : t.sizes = s.sizes := by
  funext j
  rw [Sfs.sizes, Sfs.sizes, h]

/-! ## What the block map keeps -/

theorem keeps_rblock (b : Nat) : Keeps Sfs.vnodes (sfs_rblock b) := fun s =>
  (sfs_rblock_any b s).imp fun _ _ h => h.1.vnodes

theorem keeps_wblock (data : Mem) (b : Nat) : Keeps Sfs.vnodes (sfs_wblock data b) := by
  intro s
  refine (sfs_wblock_any data b s).imp ?_
  rintro r t ⟨-, h | h⟩
  · exact h.vnodes
  · exact h.vnodes

theorem keeps_balloc : Keeps Sfs.vnodes sfs_balloc := by
  intro s
  rw [sfs_balloc]
  refine holds_bind_run (get_run s) ?_
  cases bitmap_alloc s.sfs_freemap with
  | none => exact holds_stop trivial
  | some r =>
    cases r with
    | error e => exact holds_throw rfl
    | ok x =>
      obtain ⟨m, diskblock⟩ := x
      refine holds_bind_run (set_run s _) (Keeps.bind (keeps_ensure _ _) (fun _ => ?_) (s.setFreemap m))
      exact (keeps_wblock _ _).bind fun _ => keeps_pure _

theorem keeps_getv {γ : Type} (f : Sfs → γ) (i : Nat) : Keeps f (getv i) := by
  intro s
  rw [getv]
  refine holds_bind_run (get_run s) ?_
  cases s.vnodes i with
  | none => exact holds_stop trivial
  | some v => exact holds_pure rfl

theorem keeps_modv (i : Nat) {g : Vnode → Vnode} (hg : ∀ v, (g v).sv_i.sfi_size = v.sv_i.sfi_size) :
    Keeps Sfs.sizes (modv i g) := by
  intro s
  cases hv : s.vnodes i with
  | none =>
    refine .panic (p := .vnode_freed) (bind_panic ?_) trivial
    rw [getv, bind_ok (get_run s), hv]
    rfl
  | some v =>
    refine holds_of_run (modv_run hv g) (funext fun j => ?_)
    by_cases hj : j = i
    · subst hj
      simp [Sfs.sizes, hv, hg]
    · simp [Sfs.sizes, hj]

theorem keeps_bmap_check {γ : Type} (f : Sfs → γ) (b : Nat) : Keeps f (sfs_bmap_check b) := by
  rw [sfs_bmap_check]
  split
  · exact (keeps_get.bind fun _ => (keeps_ensure _ _).bind fun _ => keeps_pure _).bind fun _ =>
      (keeps_ensure _ _).bind fun _ => keeps_pure _
  · exact keeps_pure _

theorem keeps_bmap_entry (idblock idoff : Nat) (idbuf : Nat → Nat) (doalloc : Bool) :
    Keeps Sfs.vnodes (sfs_bmap_entry idblock idbuf idoff doalloc) := by
  rw [sfs_bmap_entry]
  split
  · exact keeps_balloc.bind fun _ => (keeps_wblock _ _).bind fun _ => keeps_bmap_check _ _
  · exact keeps_bmap_check _ _

theorem keeps_bmap (i fileblock : Nat) (doalloc : Bool) : Keeps Sfs.sizes (sfs_bmap i fileblock doalloc) := by
  have hblocks : ∀ {α : Type} {m : Prog Panic Errno Sfs α}, Keeps Sfs.vnodes m → Keeps Sfs.sizes m :=
    fun h s => (h s).imp fun _ _ => sizes_of_vnodes
  rw [sfs_bmap]
  split
  · rw [sfs_bmap_direct]
    refine (keeps_getv _ i).bind fun v => ?_
    dsimp only
    split
    · exact (hblocks keeps_balloc).bind fun _ => Keeps.bind (keeps_modv i (by exact fun _ => rfl)) fun _ => keeps_bmap_check _ _
    · exact keeps_bmap_check _ _
  · dsimp only
    split
    · exact keeps_throw _
    rw [sfs_bmap_indirect]
    refine (keeps_getv _ i).bind fun v => ?_
    dsimp only
    split
    · exact keeps_pure _
    split
    · exact (hblocks keeps_balloc).bind fun _ => Keeps.bind (keeps_modv i (by exact fun _ => rfl)) fun _ =>
        hblocks (keeps_bmap_entry _ _ _ _)
    · exact (hblocks (keeps_rblock _)).bind fun _ => hblocks (keeps_bmap_entry _ _ _ _)

end Keeps

/-! ## When the block map stays as it is -/

def Sfs.NoNewBlock (s : Sfs) (i : Nat) (u : Uio) : Prop :=
  (u.uio_resid = 0 ∧ u.off % 512 = 0) ∨ 143 ≤ u.off / 512 ∨
  (s.fblock i (u.off / 512) ≠ 0 ∧ (s.inodeOf i).sfi_indirect < 2 ^ 22) ∨
  bitmap_alloc s.sfs_freemap = some (.error .ENOSPC)

section Map

variable {s t : Sfs} {i b : Nat} {u : Uio} {v : Vnode} {data : Mem}

theorem sfs_balloc_full (h : bitmap_alloc s.sfs_freemap = some (.error .ENOSPC)) :
    sfs_balloc s = .ok (.error .ENOSPC, s) := by
  rw [sfs_balloc, bind_ok (get_run s), h]
  rfl

theorem sfs_bmap_check_polled (b : Nat) :
    Holds (fun _ => True) (sfs_bmap_check b) s fun _ t => s.Polled t := by
  refine (keeps_bmap_check id b s).imp fun _ t ht => ?_
  rw [show t = s from ht]
  exact .refl s

theorem sfs_bmap_direct_settled (hv : s.vnodes i = some v) {k : Fin 15}
    (h : s.ref i (.direct k) ≠ 0 ∨ bitmap_alloc s.sfs_freemap = some (.error .ENOSPC)) :
    Holds (fun _ => True) (sfs_bmap_direct i k true) s fun _ t => s.Polled t := by
  rw [ref_direct hv] at h
  rw [sfs_bmap_direct]
  refine holds_bind_run (getv_run hv) ?_
  dsimp only
  by_cases h0 : v.sv_i.sfi_direct k = 0
  · rw [if_pos ⟨h0, rfl⟩]
    exact holds_of_run (bind_error (sfs_balloc_full (h.resolve_left (absurd h0)))) (.refl s)
  · rw [if_neg fun hc => h0 hc.1]
    exact sfs_bmap_check_polled _

theorem sfs_bmap_entry_settled {idblock : Nat} {idbuf : Nat → Nat} {k : Nat}
    (h : idbuf k ≠ 0 ∨ bitmap_alloc s.sfs_freemap = some (.error .ENOSPC)) :
    Holds (fun _ => True) (sfs_bmap_entry idblock idbuf k true) s fun _ t => s.Polled t := by
  rw [sfs_bmap_entry]
  by_cases h0 : idbuf k = 0
  · rw [if_pos ⟨h0, rfl⟩]
    exact holds_of_run (bind_error (sfs_balloc_full (h.resolve_left (absurd h0)))) (.refl s)
  · rw [if_neg fun hc => h0 hc.1]
    exact sfs_bmap_check_polled _

theorem sfs_bmap_indirect_settled (hv : s.vnodes i = some v) {k : Fin 128}
    (h : (s.ref i (.entry k) ≠ 0 ∧ v.sv_i.sfi_indirect < 2 ^ 22) ∨
      bitmap_alloc s.sfs_freemap = some (.error .ENOSPC)) :
    Holds (fun _ => True) (sfs_bmap_indirect i k true) s fun _ t => s.Polled t := by
  rw [ref_entry hv] at h
  rw [sfs_bmap_indirect]
  refine holds_bind_run (getv_run hv) ?_
  dsimp only
  rw [if_neg (by simp)]
  by_cases h0 : v.sv_i.sfi_indirect = 0
  · rw [if_pos h0] at h ⊢
    exact holds_of_run (bind_error (sfs_balloc_full (h.resolve_left fun hc => hc.1 rfl))) (.refl s)
  rw [if_neg h0] at h ⊢
  refine (sfs_rblock_any v.sv_i.sfi_indirect s).bind ?_ fun _ _ ht => ht.1
  rintro buf t ⟨hp, hbuf⟩
  obtain ⟨-, hbuf⟩ := hbuf buf rfl
  have hfree : t.sfs_freemap = s.sfs_freemap := by obtain ⟨eio, rfl⟩ := hp; rfl
  refine (sfs_bmap_entry_settled ?_).imp fun _ _ ht => hp.trans ht
  rw [hfree]
  refine h.imp_left fun hmapped => ?_
  rw [hbuf, blockSector_eq hmapped.2, wordAt_congr fun q _ hq => if_pos (by omega)]
  exact hmapped.1

theorem ref_of_same (hv : s.vnodes i = some v) (hvnodes : t.vnodes = s.vnodes)
    (hsect : ∀ c, ∀ q < 512, t.sect c q = s.sect c q) : t.ref i = s.ref i := by
  have hv' : t.vnodes i = some v := by rw [hvnodes, hv]
  funext k
  cases k with
  | inode => rfl
  | direct k => rw [ref_direct hv, ref_direct hv']
  | indirect => rw [ref_indirect hv, ref_indirect hv']
  | entry k =>
    rw [ref_entry hv, ref_entry hv']
    split
    · rfl
    · exact wordAt_congr fun q _ hq => hsect _ _ (by omega)

theorem setBlock_same (h : ∀ q < 512, data q = s.sect b q) (c : Nat) (q : Nat) (hq : q < 512) :
    (s.setBlock b data).sect c q = s.sect c q := by
  rw [setBlock_sect]
  by_cases hc : c = b
  · subst hc
    rw [Function.update_self, if_pos hq, h q hq]
  · rw [Function.update_of_ne hc]

theorem ref_of_written_back {w : Sfs} (hv : s.vnodes i = some v) (hp : s.Polled t)
    (hw : t.Polled w ∨ (t.setBlock b data).Polled w) (hdata : ∀ q < 512, data q = t.sect b q) :
    w.ref i = s.ref i := by
  rcases hw with hw | hw
  · exact ref_of_same hv (hw.vnodes.trans hp.vnodes) fun c q _ => by rw [hw.sect, hp.sect]
  · refine ref_of_same hv (Eq.trans (b := t.vnodes) hw.vnodes hp.vnodes) fun c q hq => ?_
    rw [hw.sect, setBlock_same hdata c q hq, hp.sect]

structure Bmapped (s : Sfs) (i : Nat) (u : Uio) (r : Except Errno Nat) (t : Sfs) : Prop where
  sizes : t.sizes = s.sizes
  lt : ∀ b, r = .ok b → u.off / 512 < 143
  polled : s.NoNewBlock i u → s.Polled t

theorem sfs_bmap_any (hv : s.vnodes i = some v) (hbusy : 0 < u.uio_resid ∨ u.off % 512 ≠ 0) :
    Holds (fun _ => True) (sfs_bmap i (u.off / 512) true) s (Bmapped s i u) := by
  cases hk : slotOf (u.off / 512) with
  | none => exact holds_of_run (sfs_bmap_none hk) ⟨rfl, fun b h => (by cases h), fun _ => .refl s⟩
  | some k =>
    have hlt := lt_of_slotOf hk
    have hkeep : ∀ {r : Except Errno Nat} {t : Sfs}, t.sizes = s.sizes → (s.NoNewBlock i u → s.Polled t) →
        Bmapped s i u r t := fun h h' => ⟨h, fun _ _ => hlt, h'⟩
    by_cases hsettled : s.NoNewBlock i u
    · have hmapped : (s.ref i k ≠ 0 ∧ v.sv_i.sfi_indirect < 2 ^ 22) ∨
          bitmap_alloc s.sfs_freemap = some (.error .ENOSPC) := by
        rcases hsettled with h | h | h | h
        · omega
        · omega
        · rw [fblock_of_slot hk, inodeOf_some hv] at h
          exact .inl h
        · exact .inr h
      refine ((keeps_bmap i (u.off / 512) true s).and (R := fun _ t => s.Polled t) (Y := fun _ => True) ?_).imp
        fun r t h => hkeep h.1 fun _ => h.2
      unfold slotOf at hk
      rw [sfs_bmap]
      by_cases h15 : u.off / 512 < 15
      · rw [dif_pos h15] at hk ⊢
        cases hk
        exact sfs_bmap_direct_settled hv (hmapped.imp_left And.left)
      · have h128 : u.off / 512 - 15 < 128 := by omega
        rw [dif_neg h15, dif_pos h128] at hk
        cases hk
        rw [dif_neg h15]
        dsimp only
        rw [if_neg (by simp only [SFS_NDIRECT, SFS_DBPERIDB]; omega)]
        have h := sfs_bmap_indirect_settled hv hmapped
        rwa [show (u.off / 512 - SFS_NDIRECT) % SFS_DBPERIDB = u.off / 512 - 15 from Nat.mod_eq_of_lt h128]
    · exact (keeps_bmap i (u.off / 512) true s).imp fun r t h => hkeep h fun hc => absurd hc hsettled

end Map

/-! ## A piece of a write -/

structure Written (i : Nat) (s : Sfs) (u : Uio) (n : Nat) (t : Sfs × Uio) : Prop where
  sizes : t.1.sizes = s.sizes
  uio : t.2 = u.moved (fun _ => 0) 0 n
  bound : n = 0 ∨ u.off + n ≤ 73216
  map : n = 0 → s.NoNewBlock i u → t.1.ref i = s.ref i

def WritesUpTo (i : Nat) (s : Sfs) (u : Uio) (n : Nat) (r : Except Errno Unit) (t : Sfs × Uio) : Prop :=
  ∃ k ≤ n, Written i s u k t ∧ (r = .ok () → k = n)

section Pieces

variable {s t : Sfs} {i b n : Nat} {u : Uio} {v : Vnode}

theorem Written.zero (hu : u.Fits) (hv : s.vnodes i = some v) {r : Except Errno Nat} (h : Bmapped s i u r t) :
    Written i s u 0 (t, u) where
  sizes := h.sizes
  uio := (moved_zero hu.resid hu.nonneg hu.offset).symm
  bound := .inl rfl
  map _ hn := ref_of_same hv (h.polled hn).vnodes fun c q _ => by rw [(h.polled hn).sect]

theorem Bmapped.polled_trans {r : Except Errno Nat} {w : Sfs} (h : Bmapped s i u r t) (hp : t.Polled w) :
    Bmapped s i u r w where
  sizes := (sizes_of_vnodes hp.vnodes).trans h.sizes
  lt := h.lt
  polled hn := (h.polled hn).trans hp

theorem sfs_partialio_buf_any (hrw : u.uio_rw = .UIO_WRITE) (b : Nat) (s : Sfs) :
    Holds (fun _ => True) (sfs_partialio_buf b) (s, u) fun r t => t.2 = u ∧ s.Polled t.1 ∧
      ∀ buf, r = .ok buf → buf = fun q => if q < 512 then s.sect (blockSector b) q else 0 := by
  rw [sfs_partialio_buf]
  refine holds_bind_run (get_run _) ?_
  dsimp only
  split
  · exact holds_ensure_bind (.inr trivial) fun hc => by rw [hrw] at hc; cases hc
  · exact (sfs_rblock_any b s).first fun r t h => ⟨rfl, h.1, fun buf hr => (h.2 buf hr).2⟩

theorem sfs_partialio_any (hu : u.Fits) (hrw : u.uio_rw = .UIO_WRITE) (hv : s.vnodes i = some v)
    (hbusy : 0 < u.uio_resid ∨ u.off % 512 ≠ 0) (hlen : u.off % 512 + n ≤ 512) (hn : n ≤ u.uio_resid) :
    Holds (fun _ => True) (sfs_partialio i (u.off % 512) n) (s, u) (WritesUpTo i s u n) := by
  have hd : (decide (u.uio_rw = .UIO_WRITE)) = true := by simp [hrw]
  have hfail : ∀ {e : Errno} {r : Except Errno Nat} {t : Sfs}, Bmapped s i u r t →
      WritesUpTo i s u n (.error e) (t, u) := fun h => ⟨0, Nat.zero_le n, .zero hu hv h, fun h => by cases h⟩
  rw [sfs_partialio]
  refine holds_bind_run (get_run _) (holds_ensure_bind (.inr trivial) fun _ => ?_)
  rw [hu.fileblock_eq, hd]
  have hmap : Holds (fun _ => True) (first (sfs_bmap i (u.off / 512) true)) (s, u) fun r t =>
      Bmapped s i u r t.1 ∧ t.2 = u := (sfs_bmap_any hv hbusy).first fun r t h => ⟨h, rfl⟩
  refine hmap.bind ?_ ?_
  rotate_left
  · rintro e ⟨t, u'⟩ ⟨h, rfl⟩
    exact hfail h
  rintro b ⟨t, u'⟩ ⟨h, rfl⟩
  refine (sfs_partialio_buf_any hrw b t).bind ?_ ?_
  rotate_left
  · rintro e ⟨w, u'⟩ ⟨rfl, hp, -⟩
    exact hfail (h.polled_trans hp)
  rintro buf ⟨w, u'⟩ ⟨rfl, hp, hbuf⟩
  have h' := h.polled_trans hp
  refine holds_ensure_bind (.inr trivial) fun _ => ?_
  have hmove := uiomove_at_run hu buf (u'.off % 512) hn
  by_cases hf : u'.faults n
  · rw [if_pos hf] at hmove
    exact holds_of_run (bind_error (second_ok hmove)) (hfail h')
  rw [if_neg hf] at hmove
  refine holds_bind_run (second_ok hmove) ?_
  rw [if_pos hrw]
  have hlt := h.lt b rfl
  refine (sfs_wblock_any _ b w).first fun r x hx => ⟨n, Nat.le_refl n, ⟨?_, ?_, ?_, ?_⟩, fun _ => rfl⟩
  · refine (sizes_of_vnodes ?_).trans h'.sizes
    rcases hx.2 with hx | hx
    · exact hx.vnodes
    · exact hx.vnodes
  · exact moved_write_eq _ hrw
  · omega
  · -- with nothing moved, the block is written back as it was read
    rintro rfl hnew
    refine ref_of_written_back hv (h'.polled hnew) hx.2 fun q hq => ?_
    have hq' : buf q = w.sect (blockSector b) q := by rw [hbuf buf rfl, hp.sect]; exact if_pos hq
    rw [← hq']
    split
    · rfl
    · rw [fetch_write hrw, if_neg (Nat.not_lt_zero _), Nat.add_sub_cancel' (by omega)]

theorem sfs_blockio_direct_holds {X : Panic → Prop} {d : Int} {P Q : Except Errno Unit → Sfs × Uio → Prop}
    (hd : toI32 (toU32 (b * SFS_BLOCKSIZE)) = d) (hres : 512 ≤ u.uio_resid)
    (h : Holds X sfs_rwblock (s, u.request d) Q) (hpq : ∀ r t, Q r t → P r (t.1, u.restore t.2 d)) :
    Holds X (sfs_blockio_direct b) (s, u) P := by
  rw [sfs_blockio_direct]
  refine holds_bind_run (get_run _) ?_
  dsimp only
  refine holds_bind_run (ensure_run _ _ _ hres) ?_
  rw [hd]
  refine holds_bind_run (second_ok (set_run u _)) (Holds.bind_attempt h fun r t hq => ?_)
  exact holds_bind_run (second_ok (modify_run t.2 _)) (holds_of_run (finish_run _ r) (hpq r t hq))

theorem sfs_blockio_direct_any (hu : u.Fits) (hrw : u.uio_rw = .UIO_WRITE) (hres : 512 ≤ u.uio_resid) (b : Nat) :
    Holds (fun _ => True) (sfs_blockio_direct b) (s, u) fun r t => t.1.vnodes = s.vnodes ∧
      ((r ≠ .ok () ∧ t = (s, u)) ∨ t.2 = u.moved (fun _ => 0) 0 512) := by
  obtain ⟨d, hd⟩ : ∃ d, toI32 (toU32 ((b : Int) * (SFS_BLOCKSIZE : Nat))) = d := ⟨_, rfl⟩
  have hmod : (u.request d).uio_offset.tmod 512 = 0 := by
    rw [← Int.dvd_iff_tmod_eq_zero]
    change 512 ∣ d
    rw [← hd, show (SFS_BLOCKSIZE : Int) = 512 from rfl]
    refine dvd_toI32 ?_
    rw [toU32]
    omega
  refine sfs_blockio_direct_holds hd hres (sfs_rwblock_write hmod rfl (Nat.le_trans hres hu.len) hrw) ?_
  rintro r t (⟨rfl, rfl, -⟩ | ⟨rfl, hu', h⟩)
  · exact ⟨rfl, .inl ⟨fun h => (by cases h), by rw [hu.restore_request]⟩⟩
  · refine ⟨?_, .inr ?_⟩
    · rcases h with h | h
      · exact h.vnodes
      · exact h.vnodes
    · rw [hu']
      exact restore_moved _ d

theorem sfs_blockio_any (hu : u.Fits) (hrw : u.uio_rw = .UIO_WRITE) (hv : s.vnodes i = some v)
    (hal : u.off % 512 = 0) (hn : 512 ≤ u.uio_resid) :
    Holds (fun _ => True) (sfs_blockio i) (s, u) (WritesUpTo i s u 512) := by
  have hd : (decide (u.uio_rw = .UIO_WRITE)) = true := by simp [hrw]
  have hfail : ∀ {r' : Except Errno Unit} {r : Except Errno Nat} {t : Sfs}, r' ≠ .ok () → Bmapped s i u r t →
      WritesUpTo i s u 512 r' (t, u) := fun hne h => ⟨0, Nat.zero_le _, .zero hu hv h, fun h => absurd h hne⟩
  rw [sfs_blockio]
  refine holds_bind_run (get_run _) ?_
  dsimp only
  rw [hu.fileblock_eq, hd]
  have hmap : Holds (fun _ => True) (first (sfs_bmap i (u.off / 512) true)) (s, u) fun r t =>
      Bmapped s i u r t.1 ∧ t.2 = u := (sfs_bmap_any hv (.inl (by omega))).first fun r t h => ⟨h, rfl⟩
  refine hmap.bind ?_ ?_
  · rintro b ⟨t, u'⟩ ⟨h, rfl⟩
    have hlt := h.lt b rfl
    split
    · exact holds_ensure_bind (.inr trivial) fun hc => by rw [hrw] at hc; cases hc
    refine (sfs_blockio_direct_any hu hrw hn b).imp ?_
    rintro r ⟨w, u''⟩ ⟨hvnodes, ⟨hne, hw⟩ | hu'⟩
    · cases hw
      exact hfail hne h
    · exact ⟨512, Nat.le_refl _, ⟨(sizes_of_vnodes hvnodes).trans h.sizes, hu', by omega, fun h => (by cases h)⟩,
        fun _ => rfl⟩
  · rintro e ⟨t, u'⟩ ⟨h, rfl⟩
    exact hfail (fun h => by cases h) h

/-! ## A whole write -/

theorem vnode_of_sizes (hv : s.vnodes i = some v) (h : t.sizes = s.sizes) :
    ∃ v', t.vnodes i = some v' ∧ v'.sv_i.sfi_size = v.sv_i.sfi_size := by
  have hi : t.sizes i = s.sizes i := by rw [h]
  rw [Sfs.sizes, Sfs.sizes, hv] at hi
  obtain ⟨v', hv', hsize⟩ := Option.map_eq_some_iff.mp hi
  exact ⟨v', hv', hsize⟩

theorem WritesUpTo.trans {m : Nat} {s₁ : Sfs} {u₁ : Uio} {r : Except Errno Unit} {w : Sfs × Uio} (hu : u.Fits)
    (h : Written i s u n (s₁, u₁)) (hn : 0 < n) (hres : n + m ≤ u.uio_resid) (h' : WritesUpTo i s₁ u₁ m r w) :
    WritesUpTo i s u (n + m) r w := by
  have h31 : u.off + n < 2 ^ 31 := by have := h.bound; omega
  have hrw : u₁ = u.moved (fun _ => 0) 0 n := h.uio
  have hoff : u₁.off = u.off + n := by rw [hrw, hu.moved_off h31]
  obtain ⟨k, hk, hw, hall⟩ := h'
  have hbound := hw.bound
  have hbound' := h.bound
  refine ⟨n + k, by omega, ⟨hw.sizes.trans h.sizes, ?_, by omega, fun h0 => by omega⟩, fun hr => by rw [hall hr]⟩
  rw [hw.uio, hrw]
  exact moved_moved (p := fun _ => 0) (by omega) hu.resid

theorem Written.refl (hu : u.Fits) : Written i s u 0 (s, u) :=
  ⟨rfl, (moved_zero hu.resid hu.nonneg hu.offset).symm, .inl rfl, fun _ _ => rfl⟩

theorem Written.next {s₁ : Sfs} {u₁ : Uio} (hu : u.Fits) (hrw : u.uio_rw = .UIO_WRITE) (hv : s.vnodes i = some v)
    (hn : n ≤ u.uio_resid) (hpos : 0 < n) (h : Written i s u n (s₁, u₁)) :
    u₁.Fits ∧ u₁.uio_rw = .UIO_WRITE ∧ (∃ v₁, s₁.vnodes i = some v₁) ∧ u₁.off = u.off + n ∧
      u₁.uio_resid = u.uio_resid - n := by
  have h31 : u.off + n < 2 ^ 31 := by have := h.bound; omega
  obtain ⟨v₁, hv₁, -⟩ := vnode_of_sizes hv h.sizes
  have huio : u₁ = u.moved (fun _ => 0) 0 n := h.uio
  refine ⟨?_, ?_, ⟨v₁, hv₁⟩, ?_, ?_⟩
  · rw [huio]; exact hu.moved hn h31
  · rw [huio]; exact hrw
  · rw [huio, hu.moved_off h31]
  · rw [huio, moved_resid hn hu.resid]

theorem sfs_io_blocks_any {nblocks : Nat} (hu : u.Fits) (hrw : u.uio_rw = .UIO_WRITE) (hv : s.vnodes i = some v)
    (hal : u.off % 512 = 0) (hn : 512 * nblocks ≤ u.uio_resid) :
    Holds (fun _ => True) (sfs_io_blocks i nblocks) (s, u) fun r t =>
      WritesUpTo i s u (512 * nblocks) r t ∧ (nblocks = 0 → t = (s, u)) := by
  induction nblocks generalizing s u v with
  | zero => exact holds_pure ⟨⟨0, Nat.le_refl _, .refl hu, fun _ => rfl⟩, fun _ => rfl⟩
  | succ nblocks ih =>
    rw [sfs_io_blocks]
    refine (sfs_blockio_any hu hrw hv hal (by omega)).bind ?_ ?_
    · rintro ⟨⟩ ⟨s₁, u₁⟩ ⟨k, -, hw, hall⟩
      obtain rfl := hall rfl
      obtain ⟨hu₁, hrw₁, ⟨v₁, hv₁⟩, hoff₁, hres₁⟩ := hw.next hu hrw hv (by omega) (by omega)
      refine (ih hu₁ hrw₁ hv₁ (by omega) (by omega)).imp fun r t h => ⟨?_, fun h0 => by omega⟩
      rw [show 512 * (nblocks + 1) = 512 + 512 * nblocks by omega]
      exact h.1.trans hu hw (by omega) (by omega)
    · rintro e t ⟨k, hk, hw, -⟩
      exact ⟨⟨k, by omega, hw, fun h => by cases h⟩, fun h0 => by omega⟩

theorem sfs_io_aligned_any (hu : u.Fits) (hrw : u.uio_rw = .UIO_WRITE) (hv : s.vnodes i = some v)
    (hal : u.off % 512 = 0) :
    Holds (fun _ => True) (sfs_io_aligned i) (s, u) (WritesUpTo i s u u.uio_resid) := by
  by_cases h0 : u.uio_resid = 0
  · rw [h0]
    exact holds_of_run (sfs_io_aligned_zero h0) ⟨0, Nat.le_refl _, .refl hu, fun _ => rfl⟩
  rw [sfs_io_aligned]
  refine holds_bind_run (get_run _) ?_
  dsimp only
  rw [if_neg h0]
  refine holds_ensure_bind (.inr trivial) fun _ => ?_
  have hblocks : 512 * (u.uio_resid / 512) ≤ u.uio_resid := by omega
  refine (sfs_io_blocks_any hu hrw hv hal hblocks).bind ?_ ?_
  rotate_left
  · rintro e t ⟨⟨k, hk, hw, -⟩, -⟩
    exact ⟨k, by omega, hw, fun h => by cases h⟩
  rintro ⟨⟩ ⟨s₁, u₁⟩ ⟨⟨k, -, hw, hall⟩, hnone⟩
  obtain rfl := hall rfl
  -- the rest of the write, from the state the blocks left
  obtain ⟨hu₁, hrw₁, ⟨v₁, hv₁⟩, hal₁, hlt₁, hjoin⟩ : u₁.Fits ∧ u₁.uio_rw = .UIO_WRITE ∧
      (∃ v₁, s₁.vnodes i = some v₁) ∧ u₁.off % 512 = 0 ∧ u₁.uio_resid < 512 ∧
      ∀ r t, WritesUpTo i s₁ u₁ u₁.uio_resid r t → WritesUpTo i s u u.uio_resid r t := by
    by_cases hq : u.uio_resid / 512 = 0
    · obtain ⟨rfl, rfl⟩ := Prod.mk.inj (hnone hq)
      exact ⟨hu, hrw, ⟨v, hv⟩, hal, by omega, fun _ _ h => h⟩
    · obtain ⟨hu₁, hrw₁, hv₁, hoff₁, hres₁⟩ := hw.next hu hrw hv hblocks (by omega)
      refine ⟨hu₁, hrw₁, hv₁, by omega, by omega, fun r t h => ?_⟩
      have := h.trans hu hw (by omega) (by omega)
      rwa [hres₁, Nat.add_sub_cancel' hblocks] at this
  refine holds_bind_run (get_run _) (holds_bind_run (ensure_run _ _ _ hlt₁) ?_)
  by_cases h1 : u₁.uio_resid > 0
  · rw [if_pos h1]
    have h := sfs_partialio_any (n := u₁.uio_resid) hu₁ hrw₁ hv₁ (.inl h1) (by omega) (Nat.le_refl _)
    rw [hal₁] at h
    exact h.imp hjoin
  · rw [if_neg h1]
    exact holds_pure (hjoin _ _ ⟨0, Nat.zero_le _, .refl hu₁, fun _ => by omega⟩)

theorem sfs_io_transfer_any (hu : u.Fits) (hrw : u.uio_rw = .UIO_WRITE) (hv : s.vnodes i = some v) :
    Holds (fun _ => True) (sfs_io_transfer i) (s, u) (WritesUpTo i s u u.uio_resid) := by
  rw [sfs_io_transfer]
  refine holds_bind_run (get_run _) ?_
  dsimp only
  rw [hu.blklen_eq, hu.blkoff_eq]
  by_cases hb : u.off % 512 = 0
  · rw [if_neg (by omega)]
    exact sfs_io_aligned_any hu hrw hv hb
  rw [if_pos hb]
  have hn : min (512 - u.off % 512) u.uio_resid ≤ u.uio_resid := by omega
  refine (sfs_partialio_any hu hrw hv (.inr hb) (by omega) hn).bind ?_ ?_
  · rintro ⟨⟩ ⟨s₁, u₁⟩ ⟨k, -, hw, hall⟩
    obtain rfl := hall rfl
    rcases Nat.eq_zero_or_pos u.uio_resid with h0 | hpos
    · -- an empty write inside a block
      have huio : u₁ = _ := hw.uio
      have hres₁ : u₁.uio_resid = 0 := by rw [huio, moved_resid hn hu.resid]; omega
      exact holds_of_run (sfs_io_aligned_zero hres₁) ⟨_, hn, hw, fun _ => by omega⟩
    · obtain ⟨hu₁, hrw₁, ⟨v₁, hv₁⟩, hoff₁, hres₁⟩ := hw.next hu hrw hv hn (by omega)
      rcases Nat.eq_zero_or_pos u₁.uio_resid with h0 | hpos₁
      · exact holds_of_run (sfs_io_aligned_zero h0) ⟨_, hn, hw, fun _ => by omega⟩
      · refine (sfs_io_aligned_any hu₁ hrw₁ hv₁ (by omega)).imp fun r t h => ?_
        have := h.trans hu hw (by omega) (by omega)
        rwa [hres₁, Nat.add_sub_cancel' hn] at this
  · rintro e t ⟨k, hk, hw, -⟩
    exact ⟨k, by omega, hw, fun h => by cases h⟩

theorem sfs_io_out_any (hu : u.Fits) (hrw : u.uio_rw = .UIO_WRITE) (hv : s.vnodes i = some v) :
    ∃ t, sfs_io_out i 0 (s, u) = .ok (.ok (), (t, u)) ∧ t.ref i = s.ref i ∧
      t.fileSize i = max (s.fileSize i) u.uio_offset := by
  have hsize := fileSize_some hv
  have hcut : u.setResid (toU32 (u.uio_resid + (0 : Nat))) = u := by
    have h32 := hu.resid
    have : toU32 (u.uio_resid + (0 : Nat)) = u.uio_resid := by simp only [toU32]; omega
    rw [this]
    rfl
  rw [sfs_io_out, bind_ok (get_run _)]
  dsimp only
  rw [bind_ok (first_ok (getv_run hv)), ← hsize, hcut]
  by_cases hgt : u.uio_offset > s.fileSize i
  · refine ⟨_, ?_, setSize_ref hv u.uio_offset, ?_⟩
    · rw [if_pos ⟨hrw, hgt⟩]
      exact (bind_ok (first_ok (modv_run hv _))).trans (second_ok (set_run _ _))
    · have h0 := hu.nonneg
      have h31 := hu.offset
      rw [setSize_fileSize, toI32_of_small (by omega) h31]
      omega
  · refine ⟨s, ?_, rfl, by omega⟩
    rw [if_neg fun h => hgt h.2]
    exact second_ok (set_run _ _)

theorem sfs_write_size (hu : u.Fits) (hrw : u.uio_rw = .UIO_WRITE) (hv : s.vnodes i = some v) :
    Holds (fun _ => True) (sfs_write i) (s, u) fun _ t => ∃ k ≤ u.uio_resid, t.2.uio_resid = u.uio_resid - k ∧
      t.1.fileSize i = max (s.fileSize i) (u.uio_offset + k) ∧
      (k = 0 → s.NoNewBlock i u → t.1.ref i = s.ref i) := by
  rw [sfs_write]
  refine holds_bind_run (get_run _) (holds_bind_run (ensure_run _ _ _ hrw) ?_)
  rw [sfs_io]
  refine holds_bind_run (sfs_io_eof_write hrw hv) ((sfs_io_transfer_any hu hrw hv).bind_attempt ?_)
  rintro r ⟨s₁, u₁⟩ ⟨k, hk, hw, -⟩
  have huio : u₁ = _ := hw.uio
  have hoff := hu.off_eq
  have h31 : u.off + k < 2 ^ 31 := by
    have := hw.bound
    have := hu.offset
    omega
  obtain ⟨v₁, hv₁, hsame⟩ := vnode_of_sizes hv hw.sizes
  obtain ⟨t, hrun, href, hsize⟩ := sfs_io_out_any (s := s₁) (u := u₁) (by rw [huio]; exact hu.moved hk h31)
    (by rw [huio]; exact hrw) hv₁
  refine holds_bind_run hrun (holds_of_run (finish_run _ r) ⟨k, hk, ?_, ?_, fun h0 hn => ?_⟩)
  · rw [huio, moved_resid hk hu.resid]
  · rw [hsize, fileSize_some hv₁, hsame, fileSize_some hv, huio, moved_offset hu.nonneg (by omega)]
  · exact href.trans (hw.map h0 hn)

end Pieces

end Os161
