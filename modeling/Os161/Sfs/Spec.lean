import Os161.Lib.Holding
import Os161.Sfs.File

/-! # What the volume holds

The inode of a file, the blocks it refers to, the bytes they store, and the accounting of blocks.
-/

namespace Os161

open Words

namespace Sfs

def inodeOf (s : Sfs) (ino : Nat) : Inode :=
  match s.vnodes ino with
  | some v => v.sv_i
  | none => Inode.decode (s.sect ino)

end Sfs

/-! ## References -/

inductive Slot where
  | inode
  | direct (k : Fin 15)
  | indirect
  | entry (k : Fin 128)
  deriving DecidableEq

def Inode.ref (i : Inode) (sect : Nat → Mem) (ino : Nat) : Slot → Nat
  | .inode => ino
  | .direct k => i.sfi_direct k
  | .indirect => i.sfi_indirect
  | .entry k => if i.sfi_indirect = 0 then 0 else wordAt (sect i.sfi_indirect) k

def slotOf (fileblock : Nat) : Option Slot :=
  if h : fileblock < 15 then some (.direct ⟨fileblock, h⟩)
  else if h : fileblock - 15 < 128 then some (.entry ⟨fileblock - 15, h⟩)
  else none

namespace Sfs

def ref (s : Sfs) (ino : Nat) : Slot → Nat := (s.inodeOf ino).ref s.sect ino

def fblock (s : Sfs) (ino fileblock : Nat) : Nat :=
  match slotOf fileblock with
  | some k => s.ref ino k
  | none => 0

def slotByte (s : Sfs) (ino : Nat) (k : Slot) : Mem := fun q =>
  if s.ref ino k = 0 then 0 else s.sect (s.ref ino k) q

def fileByte (s : Sfs) (ino : Nat) : Mem := fun p =>
  match slotOf (p / 512) with
  | some k => s.slotByte ino k (p % 512)
  | none => 0

def fileSize (s : Sfs) (ino : Nat) : Int := toI32 (s.inodeOf ino).sfi_size.toNat

/-! ## Accounting -/

def Reserved (s : Sfs) (b : Nat) : Prop :=
  b = SFS_SB_LOCATION ∨
    SFS_MAP_LOCATION ≤ b ∧ b < SFS_MAP_LOCATION + SFS_BITBLOCKS s.sfs_super.sp_nblocks

def used (s : Sfs) : Set Nat :=
  {b | b < s.sfs_super.sp_nblocks ∧ s.sfs_freemap.Marked b ∧ ¬ s.Reserved b}

structure Volume (s : Sfs) : Prop where
  nblocks_le : s.sfs_super.sp_nblocks ≤ 2 ^ 22
  nblocks_le_device : s.sfs_super.sp_nblocks ≤ s.sfs_device.d_blocks
  device_lt : s.sfs_device.d_blocks < 2 ^ 32
  eio : s.sfs_device.eio = []
  nbits : s.sfs_freemap.nbits = SFS_BITMAPSIZE s.sfs_super.sp_nblocks
  reserved : ∀ b, s.Reserved b → s.sfs_freemap.Marked b
  beyond : ∀ b, s.sfs_super.sp_nblocks ≤ b → b < s.sfs_freemap.nbits → s.sfs_freemap.Marked b

structure Good (I : Set Nat) (s : Sfs) : Prop where
  pos : ∀ i ∈ I, i ≠ 0
  volume : s.Volume
  holding : Holding I s.ref s.used

end Sfs

section Lemmas

variable {I : Set Nat} {s s' : Sfs} {i j b : Nat} {v : Vnode}

@[simp] theorem ref_inode : s.ref i .inode = i := rfl

theorem inodeOf_some (h : s.vnodes i = some v) : s.inodeOf i = v.sv_i := by
  rw [Sfs.inodeOf, h]

theorem inodeOf_none (h : s.vnodes i = none) : s.inodeOf i = Inode.decode (s.sect i) := by
  rw [Sfs.inodeOf, h]

theorem not_mem_used_zero : 0 ∉ s.used := fun h => h.2.2 (Or.inl rfl)

theorem used_lt (h : b ∈ s.used) : b < s.sfs_super.sp_nblocks := h.1

theorem slotOf_ne_inode {fb : Nat} {k : Slot} (h : slotOf fb = some k) : k ≠ .inode ∧ k ≠ .indirect := by
  unfold slotOf at h
  split at h
  · cases h; simp
  · split at h
    · cases h; simp
    · cases h

theorem slotOf_inj {fb fb' : Nat} {k : Slot} (h : slotOf fb = some k) (h' : slotOf fb' = some k) :
    fb = fb' := by
  unfold slotOf at h h'
  repeat' split at h
  all_goals repeat' split at h'
  all_goals simp_all
  all_goals subst h'
  all_goals simp_all
  all_goals omega

theorem slotOf_eq_none {fb : Nat} : slotOf fb = none ↔ 143 ≤ fb := by
  unfold slotOf
  repeat' split
  all_goals simp
  all_goals omega

theorem lt_of_slotOf {fb : Nat} {k : Slot} (h : slotOf fb = some k) : fb < 143 := by
  have hnone : slotOf fb = none ↔ 143 ≤ fb := slotOf_eq_none
  rw [h] at hnone
  simpa using hnone

theorem fblock_of_slot {fb : Nat} {k : Slot} (h : slotOf fb = some k) : s.fblock i fb = s.ref i k := by
  rw [Sfs.fblock, h]

theorem fblock_of_ge {fb : Nat} (h : 143 ≤ fb) : s.fblock i fb = 0 := by
  rw [Sfs.fblock, slotOf_eq_none.mpr h]

theorem fileByte_congr (h : ∀ k, k ≠ .inode → k ≠ .indirect → ∀ q < 512,
    s'.slotByte i k q = s.slotByte i k q) : s'.fileByte i = s.fileByte i := by
  funext p
  rw [Sfs.fileByte, Sfs.fileByte]
  cases hk : slotOf (p / 512) with
  | none => rfl
  | some k =>
    obtain ⟨h1, h2⟩ := slotOf_ne_inode hk
    exact h k h1 h2 _ (Nat.mod_lt _ (by omega))

end Lemmas

/-! ## A file that is left alone -/

structure Untouched (s s' : Sfs) (j : Nat) : Prop where
  vnode : s'.vnodes j = s.vnodes j
  block : ∀ k, s.ref j k ≠ 0 → s'.sect (s.ref j k) = s.sect (s.ref j k)

namespace Untouched

variable {s s' s'' : Sfs} {j : Nat}

theorem refl (s : Sfs) (j : Nat) : Untouched s s j := ⟨rfl, fun _ _ => rfl⟩

theorem inodeOf (h : Untouched s s' j) (hj : j ≠ 0) : s'.inodeOf j = s.inodeOf j := by
  have := h.block .inode hj
  simp only [ref_inode] at this
  rw [Sfs.inodeOf, Sfs.inodeOf, h.vnode, this]

theorem ref (h : Untouched s s' j) (hj : j ≠ 0) : s'.ref j = s.ref j := by
  funext k
  have hind := h.block .indirect
  simp only [Sfs.ref, Inode.ref] at hind
  rw [Sfs.ref, Sfs.ref, h.inodeOf hj]
  cases k <;> simp only [Inode.ref]
  split
  · rfl
  · rw [hind (by assumption)]

theorem fblock (h : Untouched s s' j) (hj : j ≠ 0) (fb : Nat) : s'.fblock j fb = s.fblock j fb := by
  rw [Sfs.fblock, Sfs.fblock, h.ref hj]

theorem fileByte (h : Untouched s s' j) (hj : j ≠ 0) : s'.fileByte j = s.fileByte j := by
  apply fileByte_congr
  intro k _ _ q _
  rw [Sfs.slotByte, Sfs.slotByte, h.ref hj]
  split
  · rfl
  · rw [h.block k (by assumption)]

theorem fileSize (h : Untouched s s' j) (hj : j ≠ 0) : s'.fileSize j = s.fileSize j := by
  rw [Sfs.fileSize, Sfs.fileSize, h.inodeOf hj]

theorem trans (h : Untouched s s' j) (hj : j ≠ 0) (h' : Untouched s' s'' j) : Untouched s s'' j where
  vnode := h'.vnode.trans h.vnode
  block k h0 := by
    have hr : s'.ref j k = s.ref j k := by rw [h.ref hj]
    rw [← h.block k h0, ← hr]
    exact h'.block k (hr ▸ h0)

end Untouched

end Os161
