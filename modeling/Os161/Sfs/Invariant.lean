import Os161.Lib.Count
import Os161.Sfs.Dir
import Os161.Sfs.Bmap

/-! # The invariant of a mounted volume

The entries of the root directory, the inodes that are live, and what holds of all of them between
calls.
-/

namespace Os161

open Words

namespace Sfs

def slotMem (s : Sfs) (k : Nat) : Mem := fun q => s.fileByte SFS_ROOT_LOCATION (64 * k + q)

def slotIno (s : Sfs) (k : Nat) : Nat := wordAt (s.slotMem k) 0

def slotName (s : Sfs) (k : Nat) : Mem := fun q => s.slotMem k (4 + q)

def nentries (s : Sfs) : Nat := (s.inodeOf SFS_ROOT_LOCATION).sfi_size.toNat / 64

def dirent (s : Sfs) (k : Nat) : Option (Nat × List Byte) :=
  if k < s.nentries ∧ s.slotIno k ≠ SFS_NOINO then some (s.slotIno k, cstr (s.slotName k) 60) else none

def named (s : Sfs) (k : Nat) : Option Nat := (s.dirent k).map Prod.fst

def links (s : Sfs) (i : Nat) : Nat := Table.count 1144 s.named i

def Live (s : Sfs) (i : Nat) : Prop :=
  i = SFS_ROOT_LOCATION ∨ (∃ k, s.named k = some i) ∨ ∃ v, s.vnodes i = some v

def liveSet (s : Sfs) : Set Nat := {i | s.Live i}

end Sfs

def typeOf (i : Nat) : UInt16 := if i = SFS_ROOT_LOCATION then SFS_TYPE_DIR else SFS_TYPE_FILE

def opsOf (i : Nat) : VnodeOps := if i = SFS_ROOT_LOCATION then .dirops else .fileops

def ownLinks (i : Nat) : Int := if i = SFS_ROOT_LOCATION then 1 else 0

/-- What holds of a mounted volume. `δ i` is how far the link count of `i` is ahead of its names in
the middle of a call; it is zero between calls. -/
structure Inv (δ : Nat → Int) (s : Sfs) : Prop where
  good : s.Good s.liveSet
  nodup : s.sfs_vnodes.toList.Nodup
  table : ∀ i, i ∈ s.sfs_vnodes.toList ↔ ∃ v, s.vnodes i = some v
  clean : ∀ i v, s.vnodes i = some v → v.sv_dirty = false → Inode.decode (s.sect i) = v.sv_i
  ops : ∀ i v, s.vnodes i = some v → v.vn_ops = opsOf i
  type : ∀ i, s.Live i → (s.inodeOf i).sfi_type = typeOf i
  size : (s.inodeOf SFS_ROOT_LOCATION).sfi_size.toNat % 64 = 0
  max : (s.inodeOf SFS_ROOT_LOCATION).sfi_size.toNat ≤ 73216
  nul : ∀ k, s.dirent k ≠ none → ∃ j < 60, s.slotName k j = 0
  names : ∀ k k' e e', s.dirent k = some e → s.dirent k' = some e' → e.2 = e'.2 → k = k'
  links : ∀ i, s.Live i → ((s.inodeOf i).sfi_linkcount.toNat : Int) = s.links i + ownLinks i + δ i

section Basics

variable {δ : Nat → Int} {s s' : Sfs} {i k : Nat} {v : Vnode}

theorem live_root (s : Sfs) : s.Live SFS_ROOT_LOCATION := Or.inl rfl

theorem live_of_vnode (h : s.vnodes i = some v) : s.Live i := Or.inr (Or.inr ⟨v, h⟩)

theorem live_of_named (h : s.named k = some i) : s.Live i := Or.inr (Or.inl ⟨k, h⟩)

theorem dirent_some {e : Nat × List Byte} :
    s.dirent k = some e ↔
      k < s.nentries ∧ s.slotIno k ≠ 0 ∧ s.slotIno k = e.1 ∧ cstr (s.slotName k) 60 = e.2 := by
  unfold Sfs.dirent
  split
  · rename_i h
    simp only [Option.some.injEq, Prod.ext_iff]
    exact ⟨fun he => ⟨h.1, h.2, he.1, he.2⟩, fun he => ⟨he.2.2.1, he.2.2.2⟩⟩
  · rename_i h
    constructor
    · simp
    · exact fun he => absurd ⟨he.1, he.2.1⟩ h

theorem named_some : s.named k = some i ↔ k < s.nentries ∧ s.slotIno k ≠ 0 ∧ s.slotIno k = i := by
  unfold Sfs.named
  constructor
  · intro h
    obtain ⟨e, he, rfl⟩ := Option.map_eq_some_iff.mp h
    obtain ⟨h1, h2, h3, -⟩ := dirent_some.mp he
    exact ⟨h1, h2, h3⟩
  · rintro ⟨h1, h2, rfl⟩
    have he : s.dirent k = some (s.slotIno k, cstr (s.slotName k) 60) :=
      dirent_some.mpr ⟨h1, h2, rfl, rfl⟩
    rw [he]
    rfl

theorem Inv.nentries_le (h : Inv δ s) : s.nentries ≤ 1144 := by
  have := h.max
  unfold Sfs.nentries
  omega

theorem Inv.pos (h : Inv δ s) (hi : s.Live i) : i ≠ 0 := h.good.pos i hi

theorem Inv.mem_used (h : Inv δ s) (hi : s.Live i) : i ∈ s.used := by
  have := h.good.holding.mem i hi .inode
  simp only [ref_inode] at this
  exact this (h.pos hi)

theorem Inv.links_pos (h : Inv δ s) (hk : s.named k = some i) : 0 < s.links i := by
  refine Table.count_pos_iff.mpr ⟨k, ?_, hk⟩
  have := (named_some.mp hk).1
  have := h.nentries_le
  omega

theorem dirent_congr (hsize : (s'.inodeOf SFS_ROOT_LOCATION).sfi_size = (s.inodeOf SFS_ROOT_LOCATION).sfi_size)
    (hbytes : s'.fileByte SFS_ROOT_LOCATION = s.fileByte SFS_ROOT_LOCATION) :
    s'.dirent = s.dirent ∧ s'.slotName = s.slotName := by
  have h1 : s'.nentries = s.nentries := by rw [Sfs.nentries, Sfs.nentries, hsize]
  have h2 : s'.slotMem = s.slotMem := by
    funext k q
    rw [Sfs.slotMem, Sfs.slotMem, hbytes]
  have h3 : s'.slotName = s.slotName := by
    funext k q
    rw [Sfs.slotName, Sfs.slotName, h2]
  have h4 : s'.slotIno = s.slotIno := by
    funext k
    rw [Sfs.slotIno, Sfs.slotIno, h2]
  refine ⟨?_, h3⟩
  funext k
  rw [Sfs.dirent, Sfs.dirent, h1, h3, h4]

theorem Inv.of_same_dir (h : Inv δ s) {δ' : Nat → Int}
    (hsize : (s'.inodeOf SFS_ROOT_LOCATION).sfi_size = (s.inodeOf SFS_ROOT_LOCATION).sfi_size)
    (hbytes : s'.fileByte SFS_ROOT_LOCATION = s.fileByte SFS_ROOT_LOCATION)
    (good : s'.Good s'.liveSet) (nodup : s'.sfs_vnodes.toList.Nodup)
    (table : ∀ i, i ∈ s'.sfs_vnodes.toList ↔ ∃ v, s'.vnodes i = some v)
    (clean : ∀ i v, s'.vnodes i = some v → v.sv_dirty = false → Inode.decode (s'.sect i) = v.sv_i)
    (ops : ∀ i v, s'.vnodes i = some v → v.vn_ops = opsOf i)
    (type : ∀ i, s'.Live i → (s'.inodeOf i).sfi_type = typeOf i)
    (links : ∀ i, s'.Live i →
      ((s'.inodeOf i).sfi_linkcount.toNat : Int) = s.links i + ownLinks i + δ' i) : Inv δ' s' := by
  obtain ⟨hd, hn⟩ := dirent_congr hsize hbytes
  have hnamed : s'.named = s.named := by funext k; rw [Sfs.named, Sfs.named, hd]
  refine ⟨good, nodup, table, clean, ops, type, hsize ▸ h.size, hsize ▸ h.max, ?_, ?_, ?_⟩
  · rw [hd, hn]; exact h.nul
  · rw [hd]; exact h.names
  · intro i hi
    rw [links i hi, Sfs.links, Sfs.links, hnamed]

end Basics

/-! ## What a call may do -/

def Sfs.Tight (s : Sfs) : Prop := ∀ b ∈ s.used, ∃ i k, s.Live i ∧ s.ref i k = b

structure Licence where
  root : Prop
  lose : Prop

structure Change (L : Licence) (s t : Sfs) : Prop extends Frame s t where
  named : (∃ k, t.named k = some SFS_ROOT_LOCATION) → L.root ∨ ∃ k, s.named k = some SFS_ROOT_LOCATION
  tight : s.Tight → L.lose ∨ t.Tight

namespace Change

variable {L : Licence} {s t u : Sfs}

theorem refl (s : Sfs) : Change L s s := ⟨.refl s, .inr, .inr⟩

theorem trans (h : Change L s t) (h' : Change L t u) : Change L s u where
  toFrame := h.toFrame.trans h'.toFrame
  named hk := (h'.named hk).elim .inl h.named
  tight hs := (h.tight hs).elim .inl h'.tight

theorem of_same (hframe : Frame s t) (hnamed : t.named = s.named) (hlive : ∀ j, s.Live j → t.Live j)
    (href : ∀ j, s.Live j → t.ref j = s.ref j) (hused : t.used ⊆ s.used) : Change L s t := by
  refine ⟨hframe, fun hk => .inr (hnamed ▸ hk), fun hs => .inr fun b hb => ?_⟩
  obtain ⟨i, k, hi, rfl⟩ := hs b (hused hb)
  exact ⟨i, k, hlive i hi, by rw [href i hi]⟩

end Change

structure Since (L : Licence) (s₀ : Sfs) (δ : Nat → Int) (s : Sfs) : Prop extends Inv δ s where
  change : Change L s₀ s

end Os161
