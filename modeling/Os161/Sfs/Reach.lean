import Os161.Sfs.Mount

/-! # The file system in any state

Every state that calls can reach from a fresh volume keeps its accounting of blocks and of links.
-/

namespace Os161

open Prog Words

/-- The states between calls, from the mount of a volume that `mksfs` wrote on a disk that reports
no errors. `kmalloc` fails as the heap says. -/
inductive Reach : Sfs → Prop
  | mount {volname : CStr} {d d' : Device} {heap : Heap} {s : Sfs} (disk : d.Works)
      (format : mksfs volname d = some d') (run : sfs_domount (Sfs.new d' heap) = .ok (.ok (), s)) : Reach s
  | call {s s' : Sfs} {op : Op} {r : Except Errno Unit} (reach : Reach s) (valid : op.Valid s)
      (run : exec op s = .ok (r, s')) : Reach s'

theorem Reach.inv {s : Sfs} (h : Reach s) : Inv 0 s := by
  induction h with
  | @mount volname d d' heap s disk format run =>
    obtain ⟨hf, hd, hm⟩ := (sfs_domount_spec (X := fun _ => False) heap disk format).post run rfl
    exact (hm.inv hf hd).1
  | call reach valid run ih => exact ((exec_spec ih valid).post run).toInv

theorem Reach.panic {s : Sfs} {op : Op} {p : Panic} (h : Reach s) (hop : op.Valid s) (hp : exec op s = .error p) :
    p.Allowed := by
  cases exec_spec h.inv hop with
  | done run _ => cases hp.symm.trans run
  | panic run allowed =>
    obtain rfl := Except.error.inj (hp.symm.trans run)
    exact allowed

/-! ## Runs that can be evaluated -/

instance (s : Sfs) (i : Nat) : Decidable (∃ v, s.vnodes i = some v) :=
  decidable_of_iff ((s.vnodes i).isSome = true) Option.isSome_iff_exists

instance (u : Uio) : Decidable u.Fits :=
  decidable_of_iff (u.uio_resid ≤ u.iov_len ∧ u.uio_resid < 2 ^ 32 ∧ 0 ≤ u.uio_offset ∧ u.uio_offset < 2 ^ 31)
    ⟨fun h => ⟨h.1, h.2.1, h.2.2.1, h.2.2.2⟩, fun h => ⟨h.len, h.resid, h.nonneg, h.offset⟩⟩

instance (s : Sfs) (op : Op) : Decidable (op.Valid s) := by
  cases op <;> unfold Op.Valid <;> infer_instance

def runOps : List Op → Sfs → Option Sfs
  | [], s => some s
  | op :: ops, s =>
    if op.Valid s then
      match exec op s with
      | .ok (_, s') => runOps ops s'
      | .error _ => none
    else none

theorem reach_runOps {ops : List Op} {s s' : Sfs} (h : Reach s) (hrun : runOps ops s = some s') : Reach s' := by
  induction ops generalizing s with
  | nil =>
    obtain rfl := Option.some.inj hrun
    exact h
  | cons op ops ih =>
    rw [runOps] at hrun
    split at hrun
    · rename_i hvalid
      split at hrun
      · rename_i r s₁ hexec
        exact ih (.call h hvalid hexec) hrun
      · cases hrun
    · cases hrun

def bootVolume (volname : CStr) (d : Device) (heap : Heap) : Option Sfs := do
  let d' ← mksfs volname d
  match sfs_domount (Sfs.new d' heap) with
  | .ok (.ok _, s) => some s
  | _ => none

theorem reach_bootVolume {volname : CStr} {d : Device} {heap : Heap} {s : Sfs} (hd : d.Works)
    (h : bootVolume volname d heap = some s) : Reach s := by
  obtain ⟨d', hformat, h⟩ := Option.bind_eq_some_iff.mp h
  split at h
  · rename_i hrun
    obtain rfl := Option.some.inj h
    exact .mount hd hformat hrun
  · cases h

theorem bootVolume_mounted {volname : CStr} {d : Device} {heap : Heap} {s : Sfs} (hd : d.Works)
    (h : bootVolume volname d heap = some s) : ∃ d' : Device, Formatted d' ∧ d'.Works ∧ Mounted d' s := by
  obtain ⟨d', hformat, h⟩ := Option.bind_eq_some_iff.mp h
  split at h
  · rename_i hmount
    obtain rfl := Option.some.inj h
    exact ⟨d', (sfs_domount_spec (X := fun _ => False) heap hd hformat).post hmount rfl⟩
  · cases h

def blankDisk : Device := ⟨4096, fun _ _ => 0, []⟩

def runFresh (ops : List Op) : Option Sfs := do
  let s ← bootVolume (.ofBytes []) blankDisk []
  runOps ops s

theorem blankDisk_works : blankDisk.Works := ⟨by decide, rfl⟩

theorem reach_runFresh (ops : List Op) (check : Sfs → Bool) (h : (runFresh ops).any check = true) :
    ∃ s, Reach s ∧ check s = true := by
  cases hs : runFresh ops with
  | none => rw [hs] at h; cases h
  | some s =>
    rw [hs] at h
    rw [runFresh] at hs
    obtain ⟨s₀, hboot, hrun⟩ := Option.bind_eq_some_iff.mp hs
    have hreach := reach_bootVolume blankDisk_works hboot
    exact ⟨s, reach_runOps hreach hrun, h⟩

/-! ## Blocks -/

def Sfs.Refers (s : Sfs) (i : Nat) (k : Slot) (b : Nat) : Prop :=
  s.ref i k = b ∧ (k = .inode ∨ b ≠ 0)

theorem Inv.refers_ne_zero {δ : Nat → Int} {s : Sfs} {i b : Nat} {k : Slot} (h : Inv δ s) (hi : s.Live i)
    (hb : s.Refers i k b) : s.ref i k ≠ 0 := by
  obtain ⟨rfl, rfl | h0⟩ := hb
  · exact h.pos hi
  · exact h0

/-- Every block that a live inode refers to is in use, is no block of the superblock or the freemap, and is referred
to once. -/
theorem block_accounting {s : Sfs} (h : Reach s) :
    (∀ i k b, s.Live i → s.Refers i k b →
      b < s.sfs_super.sp_nblocks ∧ s.sfs_freemap.Marked b ∧ ¬ s.Reserved b ∧
        ∀ j l, s.Live j → s.Refers j l b → j = i ∧ l = k) ∧
    ∀ op p, op.Valid s → exec op s = .error p →
      p ≠ .bmap_marked_free ∧ p ≠ .loadvnode_found_unallocated ∧ p ≠ .loadvnode_unallocated := by
  have hinv := h.inv
  constructor
  · intro i k b hi hb
    have h0 := hinv.refers_ne_zero hi hb
    obtain ⟨hlt, hmark, hres⟩ := hinv.good.holding.mem i hi k h0
    rw [hb.1] at hlt hmark hres
    refine ⟨hlt, hmark, hres, fun j l hj hb' => ?_⟩
    exact hinv.good.holding.inj j hj i hi l k (hinv.refers_ne_zero hj hb') (hb'.1.trans hb.1.symm)
  · intro op p hop hp
    have := h.panic hop hp
    refine ⟨?_, ?_, ?_⟩ <;> rintro rfl <;> simp [Panic.Allowed] at this

theorem block_accounting_one_byte :
    ∃ s : Sfs, s.Live 3 ∧ s.Refers 3 (.direct 0) 5 ∧ s.sfs_freemap.Marked 5 ∧
      ∀ j l, s.Live j → s.Refers j l 5 → j = 3 ∧ l = .direct 0 := by
  obtain ⟨s, hs, hc⟩ := reach_runFresh
    [.getroot, .creat 1 (.ofBytes [0x61]) false, .write 3 (mk_kuio (fun _ => 0x61) 1 0 .UIO_WRITE)]
    (fun s => (s.vnodes 3).isSome && s.ref 3 (.direct 0) == 5) (by decide +kernel)
  obtain ⟨h3, h5⟩ := Bool.and_eq_true_iff.mp hc
  obtain ⟨v, hv⟩ := Option.isSome_iff_exists.mp h3
  have hlive := live_of_vnode hv
  have hrefers : s.Refers 3 (.direct 0) 5 := ⟨by simpa using h5, Or.inr (by decide)⟩
  obtain ⟨-, hmark, -, honce⟩ := (block_accounting hs).1 3 (.direct 0) 5 hlive hrefers
  exact ⟨s, hlive, hrefers, hmark, honce⟩

/-! ## Blocks that are lost -/

def Sfs.Exact (s : Sfs) : Prop :=
  ∀ b < s.sfs_freemap.nbits, s.sfs_freemap.Marked b ↔
    s.Reserved b ∨ s.sfs_super.sp_nblocks ≤ b ∨ ∃ i k, s.Live i ∧ s.Refers i k b

theorem Inv.exact_iff {δ : Nat → Int} {s : Sfs} (h : Inv δ s) : s.Exact ↔ s.Tight := by
  have hV := h.good.volume
  obtain ⟨-, hle, -⟩ := bitmap_size hV.nblocks_le
  constructor
  · rintro hx b ⟨hlt, hmark, hres⟩
    have hb : b < s.sfs_freemap.nbits := by rw [hV.nbits]; omega
    rcases (hx b hb).mp hmark with hr | hge | ⟨i, k, hi, hk⟩
    · exact absurd hr hres
    · omega
    · exact ⟨i, k, hi, hk.1⟩
  · intro ht b hb
    constructor
    · intro hmark
      by_cases hres : s.Reserved b
      · exact .inl hres
      by_cases hge : s.sfs_super.sp_nblocks ≤ b
      · exact .inr (.inl hge)
      have hused : b ∈ s.used := ⟨by omega, hmark, hres⟩
      obtain ⟨i, k, hi, rfl⟩ := ht b hused
      exact .inr (.inr ⟨i, k, hi, rfl, .inr fun h0 => hres (.inl h0)⟩)
    · rintro (hr | hge | ⟨i, k, hi, hk⟩)
      · exact hV.reserved b hr
      · exact hV.beyond b hge hb
      · have hmem := h.good.holding.mem i hi k (h.refers_ne_zero hi hk)
        rw [hk.1] at hmem
        exact hmem.2.1

theorem exec_tight {s t : Sfs} {op : Op} {r : Except Errno Unit} (h : Inv 0 s) (ht : s.Tight)
    (hop : op.Valid s) (hlose : op.loses s = false) (run : exec op s = .ok (r, t)) : Inv 0 t ∧ t.Tight := by
  have hsince : Since ⟨True, False⟩ s 0 t := by
    refine (exec_since ⟨h, .refl s⟩ hop (fun _ => trivial) fun hl => ?_).post run
    rw [hlose] at hl
    cases hl
  exact ⟨hsince.toInv, (hsince.change.tight ht).resolve_left id⟩

def rootVolume (heap : Heap) : Option Sfs := do
  let s ← bootVolume (.ofBytes []) blankDisk heap
  runOps [.getroot] s

theorem bootVolume_tight {heap : Heap} {s : Sfs} (h : bootVolume (.ofBytes []) blankDisk heap = some s) : s.Tight := by
  obtain ⟨d', hf, hd, hm⟩ := bootVolume_mounted blankDisk_works h
  exact (hm.inv hf hd).2

theorem exists_rootVolume (heap : Heap) (check : Sfs → Bool) (h : (rootVolume heap).any check = true) :
    ∃ s, Reach s ∧ s.Exact ∧ check s = true := by
  cases hs : rootVolume heap with
  | none => rw [hs] at h; cases h
  | some s =>
    rw [hs] at h
    obtain ⟨s₀, hboot, hrun⟩ := Option.bind_eq_some_iff.mp hs
    have hreach := reach_bootVolume blankDisk_works hboot
    refine ⟨s, reach_runOps hreach hrun, ?_, h⟩
    rw [runOps, if_pos (show Op.Valid s₀ .getroot from trivial)] at hrun
    split at hrun
    · rename_i hexec
      obtain rfl := Option.some.inj hrun
      have hvalid : Op.Valid s₀ .getroot := trivial
      obtain ⟨hinv, ht⟩ := exec_tight hreach.inv (bootVolume_tight hboot) hvalid rfl hexec
      exact hinv.exact_iff.mpr ht
    · cases hrun

theorem Inv.links_eq {δ : Nat → Int} {s : Sfs} (h : Inv δ s) (i : Nat) :
    s.links i = Table.count s.nentries s.named i :=
  Table.count_of_le h.nentries_le fun k hk hn => by
    have := (named_some.mp hn).1
    omega

/-- The names in the directory are good and each used once, each entry names an inode in use, and the link count of a
file is the number of its entries. -/
theorem links_agree {s : Sfs} (h : Reach s) :
    (∀ k k' e e', s.dirent k = some e → s.dirent k' = some e' → e.2 = e'.2 → k = k') ∧
    (∀ k i name, s.dirent k = some (i, name) →
      name.length ≤ 59 ∧ (∃ q < SFS_NAMELEN, s.slotName k q = 0) ∧
        i < s.sfs_super.sp_nblocks ∧ s.sfs_freemap.Marked i ∧ (s.inodeOf i).sfi_type ≠ SFS_TYPE_INVAL) ∧
    (s.inodeOf SFS_ROOT_LOCATION).sfi_size.toNat % SFS_DIRSIZE = 0 ∧
    (∀ i, s.Live i → i ≠ SFS_ROOT_LOCATION →
      (s.inodeOf i).sfi_linkcount.toNat = Table.count s.nentries s.named i) ∧
    ∀ op p, op.Valid s → exec op s = .error p →
      p ≠ .findname_found ∧ p ≠ .remove_linkcount ∧ p ≠ .rename_linkcount ∧ p ≠ .lookonce_linkcount := by
  have hinv := h.inv
  refine ⟨hinv.names, fun k i name hd => ?_, hinv.size, fun i hi hroot => ?_, fun op p hop hp => ?_⟩
  · have hnul := hinv.nul k (by rw [hd]; simp)
    obtain ⟨-, -, -, hname⟩ := dirent_some.mp hd
    have hlive : s.Live i := live_of_named (k := k) (by rw [Sfs.named, hd]; rfl)
    obtain ⟨hlt, hmark, -⟩ := hinv.mem_used hlive
    have hlen := length_cstr_lt hnul
    rw [hname] at hlen
    refine ⟨hlen, hnul, hlt, hmark, ?_⟩
    rw [hinv.type i hlive, typeOf]
    split <;> decide
  · have := hinv.links i hi
    rw [ownLinks, if_neg hroot, hinv.links_eq, Pi.zero_apply] at this
    omega
  · have := h.panic hop hp
    refine ⟨?_, ?_, ?_, ?_⟩ <;> rintro rfl <;> simp [Panic.Allowed] at this

theorem links_agree_two_names :
    ∃ s : Sfs, s.named 0 = some 3 ∧ s.named 1 = some 3 ∧ s.nentries = 2 ∧
      (s.inodeOf 3).sfi_linkcount.toNat = Table.count s.nentries s.named 3 := by
  obtain ⟨s, hs, hc⟩ := reach_runFresh
    [.getroot, .creat 1 (.ofBytes [0x61]) false, .link 1 (.ofBytes [0x62]) 3]
    (fun s => s.named 0 == some 3 && s.named 1 == some 3 && s.nentries == 2) (by decide +kernel)
  simp only [Bool.and_eq_true, beq_iff_eq] at hc
  exact ⟨s, hc.1.1, hc.1.2, hc.2, (links_agree hs).2.2.2.1 3 (live_of_named hc.1.1) (by decide)⟩

end Os161
