import Mathlib.Data.Nat.Find
import Os161.Sfs.Load

/-! # The root directory

`sfs_readdir`, `sfs_writedir` and the functions over them, as operations on the entries.
-/

namespace Os161

open Prog Words

/-! ## Reading and writing a slot -/

section SlotIo

variable {X : Panic → Prop} {δ : Nat → Int} {s : Sfs} {v : Vnode} {k : Nat}

def dirUio (kbuf : Mem) (slot : Nat) (rw : UioRw) : Uio :=
  mk_kuio kbuf SFS_DIRSIZE (toI32 (slot * SFS_DIRSIZE)) rw

theorem dirUio_offset (kbuf : Mem) (rw : UioRw) (hk : k ≤ 1144) : (dirUio kbuf k rw).uio_offset = 64 * k := by
  simp only [dirUio, mk_kuio, SFS_DIRSIZE]
  rw [toI32_of_small (by omega) (by omega)]
  omega

theorem dirUio_off (kbuf : Mem) (rw : UioRw) (hk : k ≤ 1144) : (dirUio kbuf k rw).off = 64 * k := by
  rw [Uio.off, dirUio_offset kbuf rw hk]
  omega

theorem dirUio_fits {kbuf : Mem} {rw : UioRw} (hk : k ≤ 1144) : (dirUio kbuf k rw).Fits := by
  have h := dirUio_offset kbuf rw hk
  exact ⟨Nat.le_refl _, show 64 < 2 ^ 32 by omega, by omega, by omega⟩

theorem dirUio_safe {kbuf : Mem} {rw : UioRw} : (dirUio kbuf k rw).Safe := Or.inl rfl

theorem Inv.root_size (h : Inv δ s) :
    s.fileSize SFS_ROOT_LOCATION = 64 * s.nentries := by
  have h1 := h.size
  have h2 := h.max
  rw [Sfs.fileSize, toI32_of_small (by omega) (by omega), Sfs.nentries]
  omega

theorem sfs_readdir_spec (h : Inv δ s) (hv : s.vnodes SFS_ROOT_LOCATION = some v) (hk : k < s.nentries) :
    Holds X (sfs_readdir SFS_ROOT_LOCATION k) s fun r t => t = s ∧ ∃ sd, r = .ok sd ∧
      sd.sfd_ino = s.slotIno k ∧ ∀ q < 60, sd.sfd_name q = s.slotName k q := by
  have hk' : k ≤ 1144 := by have := h.nentries_le; omega
  have hoff := dirUio_offset (fun _ => 0) .UIO_READ hk'
  have hoff' := dirUio_off (fun _ => 0) .UIO_READ hk'
  have hlen : s.readLen SFS_ROOT_LOCATION (dirUio (fun _ => 0) k .UIO_READ) = 64 := by
    rw [Sfs.readLen, h.root_size, hoff, if_neg (by omega)]
    rw [if_neg]
    · rfl
    · rw [toI32_of_small]
      all_goals
        have : (dirUio (fun _ => 0) k .UIO_READ).uio_resid = 64 := rfl
        omega
  have hio := sfs_io_read (X := X) (dirUio_fits hk') (u := dirUio (fun _ => 0) k .UIO_READ) rfl h.good (live_root s) hv
  rw [sfs_readdir]
  refine (hio.withVar (P := fun r t => t = s ∧ ∃ ku : Unit × Uio, r = .ok ku ∧ ku.2 =
    (dirUio (fun _ => 0) k .UIO_READ).moved (s.from SFS_ROOT_LOCATION (dirUio (fun _ => 0) k .UIO_READ)) 0 64)
    ?_ ?_).bind ?_ ?_
  · rintro a ⟨t, u⟩ ⟨ht, -, hu, -⟩
    exact ⟨ht, _, rfl, hlen ▸ hu⟩
  · rintro e ⟨t, u⟩ ⟨-, -, -, n, hn, hlt, hfail, -⟩
    exfalso
    have := h.nentries_le
    rw [hlen] at hn hlt
    rcases hfail with ⟨-, h143⟩ | ⟨-, hw⟩ | ⟨-, hs⟩
    · rw [hoff'] at h143
      omega
    · cases hw
    · exact hs dirUio_safe
  · rintro ⟨_, ku⟩ t ⟨rfl, _, hku, hmoved⟩
    obtain rfl := Except.ok.inj hku
    dsimp only at hmoved ⊢
    have hmem : ∀ q < 64, ku.iov_mem q = t.slotMem k q := by
      intro q hq
      rw [hmoved]
      change Mem.copy (fun _ => 0) 0 (t.from _ _) 0 64 q = _
      rw [Mem.copy, if_pos (by omega)]
      rw [Sfs.from, hoff', Sfs.slotMem]
      simp
    refine holds_ensure_bind (.inl ?_) fun _ => holds_pure ⟨rfl, _, rfl, ?_, fun q hq => ?_⟩
    · rw [hmoved]; rfl
    · exact wordAt_congr fun q _ hq => hmem q (by omega)
    · exact hmem (4 + q) (by omega)
  · rintro e t ⟨-, _, hr, -⟩
    cases hr

theorem fileByte_hole {i p : Nat} (h : ∀ l, slotOf (p / 512) = some l → s.ref i l = 0) : s.fileByte i p = 0 := by
  rw [Sfs.fileByte]
  cases hl : slotOf (p / 512) with
  | none => rfl
  | some l => exact if_pos (h l hl)

def WritedirPost (s : Sfs) (k : Nat) (sd : Dir) (r : Except Errno Unit) (t : Sfs) : Prop :=
  FileStep s.liveSet SFS_ROOT_LOCATION s t ∧
    match r with
    | .error _ => t.fileSize SFS_ROOT_LOCATION = s.fileSize SFS_ROOT_LOCATION ∧
        t.fileByte SFS_ROOT_LOCATION = s.fileByte SFS_ROOT_LOCATION ∧ (k < 1144 → ∀ q < 64, s.slotMem k q = 0)
    | .ok _ => k < 1144 ∧ t.fileSize SFS_ROOT_LOCATION = max (64 * s.nentries : Int) (64 * (k + 1)) ∧
        ∀ j, ∀ q < 64, t.slotMem j q = if j = k then sd.encode q else s.slotMem j q

theorem sfs_writedir_spec (h : Inv δ s) (hv : s.vnodes SFS_ROOT_LOCATION = some v) (hk : k ≤ s.nentries)
    (sd : Dir) : Holds X (sfs_writedir SFS_ROOT_LOCATION sd k) s (WritedirPost s k sd) := by
  have hk' : k ≤ 1144 := by have := h.nentries_le; omega
  have hoff := dirUio_off sd.encode .UIO_WRITE hk'
  have hres : (dirUio sd.encode k .UIO_WRITE).uio_resid = 64 := rfl
  have hio := sfs_io_write (X := X) (dirUio_fits hk') (u := dirUio sd.encode k .UIO_WRITE) rfl h.good
    (live_root s) hv
  have hsrc : (dirUio sd.encode k .UIO_WRITE).src = sd.encode := by
    funext q
    rw [Uio.src]
    exact congrArg sd.encode (Nat.zero_add q)
  rw [sfs_writedir]
  refine (hio.withVar (P := fun r t => WritedirPost s k sd (r.map fun _ => ()) t ∧
    ∀ ku : Unit × Uio, r = .ok ku → ku.2.uio_resid = 0) ?_ ?_).bind ?_ ?_
  · rintro a ⟨t, u⟩ ⟨n, hn, hu, hw, hbound, hend, -⟩
    obtain rfl : n = 64 := hend
    rw [hoff] at hbound hw
    have hsize := hw.size
    rw [h.root_size] at hsize
    refine ⟨⟨hw.toFileStep, by omega, by push_cast at hsize ⊢; omega, fun j q hq => ?_⟩, fun ku hku => ?_⟩
    · rw [Sfs.slotMem, hw.bytes, hsrc, Sfs.slotMem]
      by_cases hj : j = k
      · subst hj
        rw [if_pos (by omega), if_pos rfl, Nat.add_sub_cancel_left]
      · rw [if_neg (by omega), if_neg hj]
    · obtain rfl := Except.ok.inj hku
      rw [hu, moved_resid (by omega) (by omega), hres]
  · rintro e ⟨t, u⟩ ⟨n, hn, hu, hw, hbound, ⟨hlt, hfail, hblock⟩, hhole⟩
    rw [hoff] at hblock hw hfail hhole
    obtain rfl : n = 0 := by omega
    refine ⟨⟨hw.toFileStep, ?_, ?_, fun hk q hq => ?_⟩, by simp⟩
    · rw [hw.size, h.root_size]; push_cast; omega
    · funext p
      rw [hw.bytes, if_neg (by omega)]
    · -- the slot is in a hole
      rcases hfail with ⟨-, hbig⟩ | ⟨rfl, -⟩ | ⟨-, hsafe⟩
      · omega
      · have hin : (dirUio sd.encode k .UIO_WRITE).InBlock := by
          refine ⟨by rw [hres]; omega, by rw [hres]; omega, ?_⟩
          rw [hres, hoff]
          omega
        exact fileByte_hole (fun l hl => hhole rfl hin l (by rwa [show (64 * k + q) / 512 = 64 * k / 512 by omega] at hl))
      · exact absurd (.inl rfl) hsafe
  · rintro ku t ⟨hpost, hku⟩
    exact holds_ensure (.inl (hku ku rfl)) fun _ => hpost
  · rintro e t ⟨hpost, -⟩
    exact hpost

end SlotIo

/-! ## Entries -/

section Entries

variable {X : Panic → Prop} {L : Licence} {δ : Nat → Int} {s₀ s t : Sfs} {v : Vnode} {k : Nat}

def Dir.entry (sd : Dir) : Option (Nat × List Byte) :=
  if sd.sfd_ino = SFS_NOINO then none else some (sd.sfd_ino, cstr sd.sfd_name 60)

theorem sfi_size_of_fileSize (h : t.fileSize SFS_ROOT_LOCATION = k) (hk : k ≤ 73216) :
    (t.inodeOf SFS_ROOT_LOCATION).sfi_size.toNat = k := by
  have := (t.inodeOf SFS_ROOT_LOCATION).sfi_size.toNat_lt
  simp only [Sfs.fileSize, toI32, Int.bmod_def] at h
  omega

theorem WritedirPost.dirent (h : Inv δ s) {sd : Dir} (hino : sd.sfd_ino < 2 ^ 32)
    (hk : k ≤ s.nentries) (hp : WritedirPost s k sd (.ok ()) t) :
    t.dirent = Function.update s.dirent k sd.entry ∧ t.nentries = max s.nentries (k + 1) ∧
      (∀ j, j ≠ k → ∀ q < 60, t.slotName j q = s.slotName j q) ∧
      ∀ q < 60, t.slotName k q = sd.sfd_name q := by
  obtain ⟨-, hlt, hsize, hmem⟩ := hp
  have hle := h.nentries_le
  have hn : t.nentries = max s.nentries (k + 1) := by
    have := sfi_size_of_fileSize (t := t) (k := 64 * max s.nentries (k + 1)) (by omega) (by omega)
    rw [Sfs.nentries, this]
    omega
  have hname : ∀ j, j ≠ k → ∀ q < 60, t.slotName j q = s.slotName j q := by
    intro j hj q hq
    rw [Sfs.slotName, hmem j _ (by omega), if_neg hj, Sfs.slotName]
  have hname' : ∀ q < 60, t.slotName k q = sd.sfd_name q := by
    intro q hq
    rw [Sfs.slotName, hmem k _ (by omega), if_pos rfl, Dir.name_encode sd hq]
  refine ⟨?_, hn, hname, hname'⟩
  funext j
  by_cases hj : j = k
  · subst hj
    have hi : t.slotIno j = sd.sfd_ino := by
      rw [Sfs.slotIno, wordAt_congr (n := sd.encode) fun q _ hq => by rw [hmem j q (by omega), if_pos rfl],
        Dir.ino_encode, Nat.mod_eq_of_lt hino]
    rw [Function.update_self, Sfs.dirent, Dir.entry, hi, cstr_congr hname']
    by_cases h0 : sd.sfd_ino = SFS_NOINO
    · rw [if_neg (fun hc => hc.2 h0), if_pos h0]
    · rw [if_pos ⟨by omega, h0⟩, if_neg h0]
  · have hi : t.slotIno j = s.slotIno j := by
      rw [Sfs.slotIno, Sfs.slotIno]
      exact wordAt_congr fun q _ hq => by rw [hmem j q (by omega), if_neg hj]
    rw [Function.update_of_ne hj, Sfs.dirent, Sfs.dirent, hi, cstr_congr (hname j hj), hn]
    have : j < max s.nentries (k + 1) ↔ j < s.nentries := by omega
    simp only [this]

theorem WritedirPost.since (h : Since L s₀ δ s) {sd : Dir} {δ' : Nat → Int} (hino : sd.sfd_ino < 2 ^ 32)
    (hk : k ≤ s.nentries) (hp : WritedirPost s k sd (.ok ()) t)
    (hlive : sd.sfd_ino ≠ SFS_NOINO → s.Live sd.sfd_ino) (hnul : ∃ q < 60, sd.sfd_name q = 0)
    (hold : ∀ j, s.named k = some j → ∃ w, s.vnodes j = some w)
    (hroot : sd.sfd_ino = SFS_ROOT_LOCATION → L.root ∨ ∃ l, s.named l = some SFS_ROOT_LOCATION)
    (hnew : ∀ e, sd.entry = some e → ∀ j, j ≠ k → ∀ e', s.dirent j = some e' → e'.2 ≠ e.2)
    (hlinks : ∀ j, δ' j = δ j + (if s.named k = some j then 1 else 0) -
      if sd.sfd_ino ≠ SFS_NOINO ∧ sd.sfd_ino = j then 1 else 0) : Since L s₀ δ' t := by
  obtain ⟨hd, hn, hname, hname'⟩ := hp.dirent h.toInv hino hk
  obtain ⟨hstep, hlt, hsize, -⟩ := hp
  have hle := h.nentries_le
  have hsz := sfi_size_of_fileSize (t := t) (k := 64 * max s.nentries (k + 1)) (by omega) (by omega)
  have hnamed : t.named = Function.update s.named k (sd.entry.map Prod.fst) := by
    funext j
    rw [Sfs.named, hd]
    by_cases hj : j = k
    · subst hj; rw [Function.update_self, Function.update_self]
    · rw [Function.update_of_ne hj, Function.update_of_ne hj, Sfs.named]
  have hentry : ∀ j, sd.entry.map Prod.fst = some j ↔ sd.sfd_ino ≠ SFS_NOINO ∧ sd.sfd_ino = j := by
    intro j
    rw [Dir.entry]
    split <;> simp_all
  have hchange : Change L s t := by
    refine .of_step h.toInv hstep ?_ ?_
    · rintro j (hj | ⟨l, hl⟩ | ⟨w, hw⟩)
      · exact .inl hj
      · by_cases hlk : l = k
        · subst hlk
          obtain ⟨w, hw⟩ := (hstep.loaded j).mpr (hold j hl)
          exact live_of_vnode hw
        · refine live_of_named (k := l) ?_
          rw [hnamed, Function.update_of_ne hlk, hl]
      · obtain ⟨w', hw'⟩ := (hstep.loaded j).mpr ⟨w, hw⟩
        exact live_of_vnode hw'
    · rintro ⟨l, hl⟩
      rw [hnamed] at hl
      by_cases hlk : l = k
      · subst hlk
        rw [Function.update_self, hentry] at hl
        exact hroot hl.2
      · rw [Function.update_of_ne hlk] at hl
        exact .inr ⟨l, hl⟩
  refine ⟨h.of_step hstep ?_ (by omega) (by omega) ?_ ?_ ?_, h.change.trans hchange⟩
  · rintro j (hj | ⟨l, hl⟩ | ⟨w, hw⟩)
    · exact Or.inl hj
    · rw [hnamed] at hl
      by_cases hlk : l = k
      · subst hlk
        rw [Function.update_self, hentry] at hl
        exact hl.2 ▸ hlive hl.1
      · rw [Function.update_of_ne hlk] at hl
        exact live_of_named hl
    · obtain ⟨w', hw'⟩ := (hstep.loaded j).mp ⟨w, hw⟩
      exact live_of_vnode hw'
  · intro l hl
    by_cases hlk : l = k
    · subst hlk
      obtain ⟨q, hq, h0⟩ := hnul
      exact ⟨q, hq, (hname' q hq).trans h0⟩
    · rw [hd, Function.update_of_ne hlk] at hl
      obtain ⟨q, hq, h0⟩ := h.nul l hl
      exact ⟨q, hq, (hname l hlk q hq).trans h0⟩
  · intro l l' e e' hl hl' he
    rw [hd] at hl hl'
    by_cases hlk : l = k <;> by_cases hlk' : l' = k
    · rw [hlk, hlk']
    · subst hlk
      rw [Function.update_self] at hl
      rw [Function.update_of_ne hlk'] at hl'
      exact absurd he.symm (hnew e hl l' hlk' e' hl')
    · subst hlk'
      rw [Function.update_self] at hl'
      rw [Function.update_of_ne hlk] at hl
      exact absurd he (hnew e' hl' l hlk e hl)
    · rw [Function.update_of_ne hlk] at hl
      rw [Function.update_of_ne hlk'] at hl'
      exact h.names l l' e e' hl hl' he
  · intro j _
    rw [Sfs.links, Sfs.links, hnamed, Table.count_update 1144 s.named hlt, hlinks]
    simp only [hentry]
    omega

end Entries

/-! ## Looking for a name -/

section Find

variable {X : Panic → Prop} {δ : Nat → Int} {s : Sfs} {v : Vnode}

theorem cstr_first_nul {m : Mem} (h : ∃ j < 60, m j = 0) :
    ∃ k < 60, m k = 0 ∧ (∀ i < k, m i ≠ 0) ∧ cstr m 60 = (List.range k).map m := by
  have hex : ∃ j, m j = 0 := h.imp fun _ hj => hj.2
  obtain ⟨j, hj, h0⟩ := h
  have hle := Nat.find_min' hex h0
  have hmin : ∀ i < Nat.find hex, m i ≠ 0 := fun i hi => Nat.find_min hex hi
  exact ⟨_, by omega, Nat.find_spec hex, hmin, cstr_eq (by omega) (Nat.find_spec hex) hmin⟩

theorem length_cstr_lt {m : Mem} (h : ∃ j < 60, m j = 0) : (cstr m 60).length ≤ 59 := by
  obtain ⟨k, hk, -, -, he⟩ := cstr_first_nul h
  rw [he, List.length_map, List.length_range]
  omega

theorem cstr_terminated {m : Mem} (h : ∃ j < 60, m j = 0) : cstr (Function.update m 59 0) 60 = cstr m 60 := by
  obtain ⟨k, hk, h0, hne, he⟩ := cstr_first_nul h
  rw [he, cstr_eq hk]
  · refine List.map_congr_left fun i hi => Function.update_of_ne ?_ _ _
    have := List.mem_range.mp hi
    omega
  · by_cases h59 : k = 59
    · rw [h59, Function.update_self]
    · rw [Function.update_of_ne h59, h0]
  · intro i hi
    rw [Function.update_of_ne (by omega)]
    exact hne i hi

structure Searched (s : Sfs) (name : List Byte) (n : Nat) (l : Lookup) : Prop where
  found : ∀ ino slot, l.found = some (ino, slot) → slot < n ∧ s.dirent slot = some (ino, name)
  missing : l.found = none → ∀ k < n, ∀ e, s.dirent k = some e → e.2 ≠ name
  empty : ∀ slot, l.emptyslot = some slot → slot < n ∧ s.dirent slot = none

theorem sfs_dir_findname_slot_spec (h : Inv δ s) (hv : s.vnodes SFS_ROOT_LOCATION = some v) {name : CStr}
    {n : Nat} {l : Lookup} (hn : n < s.nentries) (hl : Searched s name.chars n l) :
    Holds X (sfs_dir_findname_slot SFS_ROOT_LOCATION name n l) s fun r t =>
      t = s ∧ ∃ l', r = .ok l' ∧ Searched s name.chars (n + 1) l' := by
  rw [sfs_dir_findname_slot]
  refine (sfs_readdir_spec h hv hn).bind ?_ ?_
  rotate_left
  · rintro e t ⟨-, _, hr, -⟩
    cases hr
  rintro sd t ⟨rfl, _, hr, hino, hname⟩
  obtain rfl := Except.ok.inj hr
  have hcstr : cstr sd.sfd_name 60 = cstr (t.slotName n) 60 := cstr_congr hname
  by_cases h0 : sd.sfd_ino = SFS_NOINO
  · -- a free slot
    rw [if_pos h0]
    have hd : t.dirent n = none := by
      rw [Sfs.dirent, if_neg]
      exact fun hc => hc.2 (hino ▸ h0)
    refine holds_pure ⟨rfl, _, rfl, ?_, ?_, ?_⟩
    · intro ino slot hf
      obtain ⟨hlt, he⟩ := hl.found ino slot hf
      exact ⟨by omega, he⟩
    · intro hf k hk e he
      rcases Nat.lt_succ_iff_lt_or_eq.mp hk with hlt | rfl
      · exact hl.missing hf k hlt e he
      · rw [hd] at he; cases he
    · intro slot hs
      obtain rfl := Option.some.inj hs
      exact ⟨by omega, hd⟩
  rw [if_neg h0]
  have hd : t.dirent n = some (sd.sfd_ino, cstr sd.sfd_name 60) := by
    rw [Sfs.dirent, if_pos ⟨hn, hino ▸ h0⟩, hino, hcstr]
  have hterm : cstr (Function.update sd.sfd_name (SFS_NAMELEN - 1) 0) SFS_NAMELEN = cstr sd.sfd_name 60 := by
    obtain ⟨q, hq, hz⟩ := h.nul n (by rw [hd]; simp)
    exact cstr_terminated ⟨q, hq, (hname q hq).trans hz⟩
  rw [hterm]
  by_cases heq : cstr sd.sfd_name 60 = name.chars
  · -- the name: no earlier slot has it
    rw [if_pos heq]
    have hnone : l.found = none := by
      cases hf : l.found with
      | none => rfl
      | some p =>
        obtain ⟨hlt, he⟩ := hl.found p.1 p.2 hf
        have := h.names _ _ _ _ he hd heq.symm
        omega
    refine holds_ensure_bind (.inl hnone) fun _ => holds_pure ⟨rfl, _, rfl, ?_, ?_, ?_⟩
    · rintro ino slot hf
      obtain ⟨rfl, rfl⟩ := Prod.mk.inj (Option.some.inj hf)
      exact ⟨by omega, heq ▸ hd⟩
    · intro hf; cases hf
    · intro slot hs
      obtain ⟨hlt, he⟩ := hl.empty slot hs
      exact ⟨by omega, he⟩
  · rw [if_neg heq]
    refine holds_pure ⟨rfl, _, rfl, ?_, ?_, ?_⟩
    · intro ino slot hf
      obtain ⟨hlt, he⟩ := hl.found ino slot hf
      exact ⟨by omega, he⟩
    · intro hf k hk e he
      rcases Nat.lt_succ_iff_lt_or_eq.mp hk with hlt | rfl
      · exact hl.missing hf k hlt e he
      · rw [hd] at he
        obtain rfl := Option.some.inj he
        exact heq
    · intro slot hs
      obtain ⟨hlt, he⟩ := hl.empty slot hs
      exact ⟨by omega, he⟩

theorem sfs_dir_findname_loop_spec (h : Inv δ s) (hv : s.vnodes SFS_ROOT_LOCATION = some v) {name : CStr}
    {m n : Nat} {l : Lookup} (hn : n + m = s.nentries) (hl : Searched s name.chars n l) :
    Holds X (sfs_dir_findname_loop SFS_ROOT_LOCATION name m n l) s fun r t =>
      t = s ∧ ∃ l', r = .ok l' ∧ Searched s name.chars s.nentries l' := by
  induction m generalizing n l with
  | zero =>
    obtain rfl : n = s.nentries := hn
    exact holds_pure ⟨rfl, l, rfl, hl⟩
  | succ m ih =>
    rw [sfs_dir_findname_loop]
    refine (sfs_dir_findname_slot_spec h hv (by omega) hl).bind ?_ ?_
    · rintro l' t ⟨rfl, _, hr, hl'⟩
      obtain rfl := Except.ok.inj hr
      exact ih (by omega) hl'
    · rintro e t ⟨-, _, hr, -⟩
      cases hr

theorem sfs_dir_nentries_run (h : Inv δ s) (hv : s.vnodes SFS_ROOT_LOCATION = some v) :
    sfs_dir_nentries SFS_ROOT_LOCATION s = .ok (.ok s.nentries, s) := by
  have htype := h.type _ (live_root s)
  have hsize := h.size
  rw [inodeOf_some hv] at htype hsize
  rw [sfs_dir_nentries, Sfs.nentries, inodeOf_some hv]
  refine (bind_ok (getv_run hv)).trans ((bind_ok (ensure_run _ _ _ ?_)).trans (bind_ok (ensure_run _ _ _ hsize)))
  exact htype

theorem sfs_dir_findname_spec (h : Inv δ s) (hv : s.vnodes SFS_ROOT_LOCATION = some v) (name : CStr) :
    Holds X (sfs_dir_findname SFS_ROOT_LOCATION name) s fun r t =>
      t = s ∧ ∃ l, r = .ok l ∧ Searched s name.chars s.nentries l := by
  rw [sfs_dir_findname]
  refine holds_bind_run (sfs_dir_nentries_run h hv) (sfs_dir_findname_loop_spec h hv (by omega) ?_)
  exact ⟨fun _ _ hf => (nomatch hf), fun _ k hk => absurd hk (Nat.not_lt_zero k), fun _ hs => (nomatch hs)⟩

end Find

/-! ## Adding and removing an entry -/

section Link

variable {X : Panic → Prop} {L : Licence} {s₀ s : Sfs} {v : Vnode} {f k : Nat}

def behind (f : Nat) : Nat → Int := fun j => if j = f then -1 else 0

def ahead (f : Nat) : Nat → Int := fun j => if j = f then 1 else 0

def LinkPost (L : Licence) (s₀ s : Sfs) (name : CStr) (f : Nat) (r : Except Errno Nat) (t : Sfs) : Prop :=
  FileStep s.liveSet SFS_ROOT_LOCATION s t ∧
    match r with
    | .error _ => Since L s₀ 0 t ∧ t.dirent = s.dirent
    | .ok slot => Since L s₀ (behind f) t ∧ s.dirent slot = none ∧ (∀ k e, s.dirent k = some e → e.2 ≠ name.chars) ∧
        t.dirent = Function.update s.dirent slot (some (f, name.chars))

structure UnlinkPost (L : Licence) (s₀ s : Sfs) (k f : Nat) (r : Except Errno Unit) (t : Sfs) : Prop where
  works : r = .ok ()
  step : FileStep s.liveSet SFS_ROOT_LOCATION s t
  since : Since L s₀ (ahead f) t
  dirent : t.dirent = Function.update s.dirent k none

theorem WritedirPost.error {sd : Dir} {e : Errno} {t : Sfs} (h : Since L s₀ 0 s)
    (hp : WritedirPost s k sd (.error e) t) : Since L s₀ 0 t ∧ t.dirent = s.dirent := by
  obtain ⟨hstep, hsize, hbytes, -⟩ := hp
  have hle := h.nentries_le
  have hsz : (t.inodeOf SFS_ROOT_LOCATION).sfi_size = (s.inodeOf SFS_ROOT_LOCATION).sfi_size := by
    rw [h.root_size] at hsize
    have h1 := sfi_size_of_fileSize (t := t) (k := 64 * s.nentries) (by omega) (by omega)
    have h2 := sfi_size_of_fileSize (t := s) (k := 64 * s.nentries) (by rw [h.root_size]; omega) (by omega)
    exact UInt32.toNat.inj (h1.trans h2.symm)
  exact ⟨h.of_step_same_dir hstep hsz hbytes, (dirent_congr hsz hbytes).1⟩

theorem sfs_dir_link_slot_run (h : Inv 0 s) (hv : s.vnodes SFS_ROOT_LOCATION = some v) {name : List Byte}
    {l : Lookup} (hl : Searched s name s.nentries l) :
    ∃ k ≤ s.nentries, s.dirent k = none ∧
      sfs_dir_link_slot SFS_ROOT_LOCATION l.emptyslot s = .ok (.ok k, s) := by
  cases he : l.emptyslot with
  | some k =>
    obtain ⟨hlt, hd⟩ := hl.empty k he
    exact ⟨k, by omega, hd, rfl⟩
  | none =>
    refine ⟨s.nentries, Nat.le_refl _, ?_, sfs_dir_nentries_run h hv⟩
    rw [Sfs.dirent, if_neg (by omega)]

theorem sfs_dir_link_spec (h : Since L s₀ 0 s) (hv : s.vnodes SFS_ROOT_LOCATION = some v) (hf : s.Live f)
    (hroot : f = SFS_ROOT_LOCATION → L.root ∨ ∃ l, s.named l = some SFS_ROOT_LOCATION) (name : CStr) :
    Holds X (sfs_dir_link SFS_ROOT_LOCATION name f) s (LinkPost L s₀ s name f) := by
  rw [sfs_dir_link]
  refine (sfs_dir_findname_spec h.toInv hv name).bind ?_ ?_
  rotate_left
  · rintro e t ⟨-, _, hr, -⟩
    cases hr
  rintro l t ⟨rfl, _, hr, hl⟩
  obtain rfl := Except.ok.inj hr
  by_cases hfound : l.found ≠ none
  · rw [if_pos hfound]
    exact holds_throw ⟨.refl h.good hv, h, rfl⟩
  rw [if_neg hfound]
  by_cases hlen : name.chars.length + 1 > SFS_NAMELEN
  · rw [if_pos hlen]
    exact holds_throw ⟨.refl h.good hv, h, rfl⟩
  rw [if_neg hlen]
  obtain ⟨k, hk, hd, hslot⟩ := sfs_dir_link_slot_run h.toInv hv hl
  have hnone : t.named k = none := by rw [Sfs.named, hd]; rfl
  have hlen' : name.chars.length < 60 := by
    simp only [SFS_NAMELEN] at hlen
    omega
  have hf0 := h.pos hf
  have hf32 : f < 2 ^ 32 := by
    have := used_lt (h.mem_used hf)
    have := h.good.volume.nblocks_le
    omega
  have hentry : (⟨f, strcpy name⟩ : Dir).entry = some (f, name.chars) := by
    rw [Dir.entry, if_neg hf0, cstr_strcpy hlen']
  -- the search saw every entry, and none had the name
  have hmissing : ∀ j e, t.dirent j = some e → e.2 ≠ name.chars := fun j e he =>
    hl.missing (not_not.mp hfound) j (dirent_some.mp he).1 e he
  refine holds_bind_run hslot ((sfs_writedir_spec h.toInv hv hk _).bind ?_ ?_)
  · intro _ t' hp
    refine holds_pure ⟨hp.1, hp.since h hf32 hk (fun _ => hf) ?_ (fun j hj => ?_) hroot ?_ ?_, hd, hmissing, ?_⟩
    · exact ⟨name.chars.length, hlen', by simp [strcpy]⟩
    · rw [hnone] at hj
      cases hj
    · rintro e he j - e' he'
      rw [hentry] at he
      obtain rfl := Option.some.inj he
      exact hmissing j e' he'
    · intro j
      simp only [behind, hnone, Pi.zero_apply]
      by_cases hj : j = f
      · subst hj
        rw [if_pos rfl, if_neg (by simp), if_pos ⟨hf0, rfl⟩]
        omega
      · rw [if_neg hj, if_neg (by simp), if_neg (fun hc => hj hc.2.symm)]
        omega
    · rw [(hp.dirent h.toInv hf32 hk).1, hentry]
  · intro e t' hp
    exact ⟨hp.1, hp.error h⟩

theorem sfs_dir_unlink_spec {w : Vnode} (h : Since L s₀ 0 s) (hv : s.vnodes SFS_ROOT_LOCATION = some v)
    {name : List Byte} (hd : s.dirent k = some (f, name)) (hw : s.vnodes f = some w) :
    Holds X (sfs_dir_unlink SFS_ROOT_LOCATION k) s (UnlinkPost L s₀ s k f) := by
  have hk := (dirent_some.mp hd).1
  have hnamed : s.named k = some f := by rw [Sfs.named, hd]; rfl
  rw [sfs_dir_unlink]
  refine (sfs_writedir_spec h.toInv hv (by omega) _).imp fun r t hp => ?_
  cases r with
  | error e =>
    have hzero := hp.2.2.2 (by have := h.nentries_le; omega)
    exact absurd (wordAt_zero _ fun q _ hq => hzero q (by omega)) (dirent_some.mp hd).2.1
  | ok =>
    refine ⟨rfl, hp.1, hp.since h (by decide) (by omega) (fun hc => absurd rfl hc) ⟨0, by omega, rfl⟩ (fun j hj => ?_)
      (by simp) ?_ ?_, (hp.dirent h.toInv (by decide) (by omega)).1⟩
    · obtain rfl := Option.some.inj (hnamed.symm.trans hj)
      exact ⟨w, hw⟩
    · rintro e he
      rw [Dir.entry, if_pos rfl] at he
      cases he
    · intro j
      rw [hnamed, if_neg (show ¬ (SFS_NOINO ≠ SFS_NOINO ∧ SFS_NOINO = j) from fun hc => hc.1 rfl), ahead]
      by_cases hj : j = f
      · subst hj; rw [if_pos rfl, if_pos rfl]; rfl
      · rw [if_neg hj, if_neg (fun hc => hj (Option.some.inj hc).symm)]; rfl

/-! ## Link counts -/

theorem sfs_linkcount_inc_run (h : Since L s₀ (behind f) s) (hv : s.vnodes f = some v) :
    ∃ v', sfs_linkcount_inc f s = .ok (.ok (), s.setVnode f (some v')) ∧ v'.vn_refcount = v.vn_refcount ∧
      v'.vn_opencount = v.vn_opencount ∧ Since L s₀ 0 (s.setVnode f (some v')) := by
  refine ⟨v.setLinkcount (v.sv_i.sfi_linkcount + 1), modv_run hv _, rfl, rfl, ?_⟩
  refine h.set_counts hv ?_ ?_ (fun hc => ?_) (fun j hj => ?_) ?_
  · rfl
  · rfl
  · cases hc
  · rw [behind, if_neg hj]; rfl
  · have hl := h.links f (live_of_vnode hv)
    have hle := Table.count_le 1144 s.named f
    rw [inodeOf_some hv, behind, if_pos rfl, Sfs.links, ownLinks] at hl
    have hadd : (v.sv_i.sfi_linkcount + 1).toNat = v.sv_i.sfi_linkcount.toNat + 1 := by
      rw [UInt16.toNat_add]
      split at hl <;> simp <;> omega
    simp only [Vnode.setLinkcount, hadd, behind, if_pos, Pi.zero_apply]
    omega

theorem Inv.links_ahead (h : Inv (ahead f) s) (hv : s.vnodes f = some v) :
    0 < v.sv_i.sfi_linkcount.toNat ∧
      (v.sv_i.sfi_linkcount - 1).toNat = v.sv_i.sfi_linkcount.toNat - 1 := by
  have hl := h.links f (live_of_vnode hv)
  rw [inodeOf_some hv, ahead, if_pos rfl, ownLinks] at hl
  have hpos : 0 < v.sv_i.sfi_linkcount.toNat := by
    split at hl <;> omega
  refine ⟨hpos, ?_⟩
  rw [UInt16.toNat_sub_of_le]
  · rfl
  · rw [UInt16.le_iff_toNat_le]
    exact hpos

theorem Since.of_linkcount_dec (h : Since L s₀ (ahead f) s) (hv : s.vnodes f = some v) {v' : Vnode}
    (hops : v'.vn_ops = v.vn_ops) (hdirty : v'.sv_dirty = true)
    (hsv : v'.sv_i = { v.sv_i with sfi_linkcount := v.sv_i.sfi_linkcount - 1 }) :
    Since L s₀ 0 (s.setVnode f (some v')) := by
  obtain ⟨hpos, hsub⟩ := h.links_ahead hv
  refine h.set_counts hv hops (by rw [hsv]) (fun hc => ?_) (fun j hj => ?_) ?_
  · rw [hdirty] at hc; cases hc
  · rw [ahead, if_neg hj]; rfl
  · simp only [hsv, hsub, ahead, if_pos, Pi.zero_apply]
    omega

end Link

end Os161
