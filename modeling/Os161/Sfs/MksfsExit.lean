import Os161.Sfs.Freemap
import Os161.Sfs.Mksfs

/-! # `mksfs` that exits early

What it has written by then stays on the disk.
-/

namespace Os161.Mksfs

open Prog Words

inductive Exit where
  | errx | assertion
  deriving DecidableEq, Repr

/-! ## The tool with its disk -/

def diskwrite (data : Mem) (block : Nat) : Prog Empty Exit Device Unit := do
  let d ← get
  match Os161.diskwrite data block d with
  | some d' => set d'
  | none => throw .errx

def writesuper (volname : CStr) (nblocks : Nat) : Prog Empty Exit Device Unit :=
  if volname.chars.length ≥ SFS_VOLNAME_SIZE then throw .errx
  else diskwrite (Super.encode ⟨SFS_MAGIC, nblocks, strcpy volname⟩) SFS_SB_LOCATION

def writerootdir : Prog Empty Exit Device Unit :=
  diskwrite (Inode.encode ⟨0, SFS_TYPE_DIR, 1, fun _ => 0, 0⟩) SFS_ROOT_LOCATION

def fillbits (fsblocks : Nat) : Option Mem := do
  let bitbuf ← doallocbit (fun _ => 0) SFS_SB_LOCATION
  let bitbuf ← doallocbit bitbuf SFS_ROOT_LOCATION
  let bitbuf ← (List.range' SFS_MAP_LOCATION (SFS_BITBLOCKS fsblocks)).foldlM doallocbit bitbuf
  (List.range' fsblocks (SFS_BITMAPSIZE fsblocks - fsblocks)).foldlM doallocbit bitbuf

def writebitmap_blocks (bitbuf : Mem) : Nat → Nat → Prog Empty Exit Device Unit
  | 0, _ => pure ()
  | n + 1, i => do
    diskwrite (fun q => bitbuf (i * SFS_BLOCKSIZE + q)) (SFS_MAP_LOCATION + i)
    writebitmap_blocks bitbuf n (i + 1)

def writebitmap (fsblocks : Nat) : Prog Empty Exit Device Unit :=
  if SFS_BITBLOCKS fsblocks > MAXBITBLOCKS then throw .errx
  else
    match fillbits fsblocks with
    | some bitbuf => writebitmap_blocks bitbuf (SFS_BITBLOCKS fsblocks) 0
    | none => throw .assertion

def main (volname : CStr) : Prog Empty Exit Device Unit :=
  match mksfs_volname volname with
  | none => throw .errx
  | some volname => do
    let d ← get
    writesuper volname d.d_blocks
    writerootdir
    writebitmap d.d_blocks

/-! ## The same volume as before -/

section Same

variable {d d' : Device} {data bitbuf : Mem} {b n i : Nat} {volname : CStr}

theorem diskwrite_ok (h : Os161.diskwrite data b d = some d') : diskwrite data b d = .ok (.ok (), d') := by
  rw [diskwrite, bind_ok (get_run d)]
  simp only [h]
  rfl

theorem diskwrite_error (h : Os161.diskwrite data b d = none) : diskwrite data b d = .ok (.error .errx, d) := by
  rw [diskwrite, bind_ok (get_run d)]
  simp only [h]
  rfl

theorem writesuper_ok (h : Os161.writesuper volname n d = some d') : writesuper volname n d = .ok (.ok (), d') := by
  unfold Os161.writesuper at h
  split at h
  · cases h
  · rename_i hlen
    rw [writesuper, if_neg hlen]
    exact diskwrite_ok h

theorem writesuper_error (h : Os161.writesuper volname n d = none) :
    writesuper volname n d = .ok (.error .errx, d) := by
  unfold Os161.writesuper at h
  rw [writesuper]
  split at h
  · rename_i hlen
    rw [if_pos hlen]
    rfl
  · rename_i hlen
    rw [if_neg hlen]
    exact diskwrite_error h

theorem writerootdir_ok (h : Os161.writerootdir d = some d') : writerootdir d = .ok (.ok (), d') := diskwrite_ok h

theorem writerootdir_error (h : Os161.writerootdir d = none) : writerootdir d = .ok (.error .errx, d) :=
  diskwrite_error h

theorem writebitmap_blocks_ok (h : Os161.writebitmap_blocks bitbuf n i d = some d') :
    writebitmap_blocks bitbuf n i d = .ok (.ok (), d') := by
  induction n generalizing i d with
  | zero =>
    obtain rfl := Option.some.inj h
    rfl
  | succ n ih =>
    rw [Os161.writebitmap_blocks] at h
    obtain ⟨d₁, h₁, h₂⟩ := Option.bind_eq_some_iff.mp h
    rw [writebitmap_blocks, bind_ok (diskwrite_ok h₁)]
    exact ih h₂

theorem writebitmap_ok (h : Os161.writebitmap n d = some d') : writebitmap n d = .ok (.ok (), d') := by
  unfold Os161.writebitmap at h
  dsimp only at h
  split at h
  · cases h
  rename_i hle
  obtain ⟨buf₀, h₀, h⟩ := Option.bind_eq_some_iff.mp h
  obtain ⟨buf₁, h₁, h⟩ := Option.bind_eq_some_iff.mp h
  obtain ⟨buf₂, h₂, h⟩ := Option.bind_eq_some_iff.mp h
  obtain ⟨buf₃, h₃, h⟩ := Option.bind_eq_some_iff.mp h
  have hbits : fillbits n = some buf₃ := by
    simp only [fillbits, h₀, h₁, h₂, Option.bind_eq_bind, Option.bind_some, h₃]
  rw [writebitmap, if_neg hle, hbits]
  exact writebitmap_blocks_ok h

theorem main_ok (h : mksfs volname d = some d') : main volname d = .ok (.ok (), d') := by
  obtain ⟨name, hname, h⟩ := Option.bind_eq_some_iff.mp h
  obtain ⟨d₁, h₁, h⟩ := Option.bind_eq_some_iff.mp h
  obtain ⟨d₂, h₂, h⟩ := Option.bind_eq_some_iff.mp h
  rw [main, hname]
  dsimp only
  rw [bind_ok (get_run d), bind_ok (writesuper_ok h₁), bind_ok (writerootdir_ok h₂)]
  exact writebitmap_ok h

end Same

/-! ## What is left -/

section Left

variable {d d' : Device} {data bitbuf : Mem} {b n i : Nat} {volname name : CStr} {e : Exit}

def Headed (d : Device) : Prop :=
  ∃ volname, ∀ q < 512, d.sect SFS_SB_LOCATION q = Super.encode ⟨SFS_MAGIC, d.d_blocks, volname⟩ q

theorem Headed.of_write {r : Except Exit Unit} (h : Headed d) (hb : b ≠ SFS_SB_LOCATION)
    (run : diskwrite data b d = .ok (r, d')) : Headed d' ∧ d'.d_blocks = d.d_blocks := by
  cases hw : Os161.diskwrite data b d with
  | none =>
    rw [diskwrite_error hw] at run
    cases run
    exact ⟨h, rfl⟩
  | some d₁ =>
    rw [diskwrite_ok hw] at run
    cases run
    obtain ⟨-, rfl⟩ := diskwrite_some hw
    obtain ⟨volname, hs⟩ := h
    refine ⟨⟨volname, fun q hq => ?_⟩, rfl⟩
    dsimp only
    rw [Function.update_of_ne hb.symm]
    exact hs q hq

theorem Headed.of_bitmap_blocks {r : Except Exit Unit} (h : Headed d)
    (run : writebitmap_blocks bitbuf n i d = .ok (r, d')) : Headed d' ∧ d'.d_blocks = d.d_blocks := by
  induction n generalizing i d with
  | zero =>
    cases run
    exact ⟨h, rfl⟩
  | succ n ih =>
    have hne : SFS_MAP_LOCATION + i ≠ SFS_SB_LOCATION := by
      simp only [SFS_MAP_LOCATION, SFS_SB_LOCATION]
      omega
    rw [writebitmap_blocks] at run
    cases hw : Os161.diskwrite (fun q => bitbuf (i * SFS_BLOCKSIZE + q)) (SFS_MAP_LOCATION + i) d with
    | none =>
      rw [bind_error (diskwrite_error hw)] at run
      cases run
      exact ⟨h, rfl⟩
    | some d₁ =>
      obtain ⟨h₁, hn₁⟩ := h.of_write hne (diskwrite_ok hw)
      rw [bind_ok (diskwrite_ok hw)] at run
      obtain ⟨h', hn⟩ := ih h₁ run
      exact ⟨h', hn.trans hn₁⟩

theorem Headed.of_bitmap {r : Except Exit Unit} (h : Headed d) (run : writebitmap n d = .ok (r, d')) :
    Headed d' ∧ d'.d_blocks = d.d_blocks := by
  rw [writebitmap] at run
  split at run
  · cases run
    exact ⟨h, rfl⟩
  cases hb : fillbits n with
  | none =>
    rw [hb] at run
    cases run
    exact ⟨h, rfl⟩
  | some bitbuf =>
    rw [hb] at run
    exact h.of_bitmap_blocks run

theorem headed_of_super (h : Os161.writesuper volname d.d_blocks d = some d') :
    Headed d' ∧ d'.d_blocks = d.d_blocks := by
  unfold Os161.writesuper at h
  split at h
  · cases h
  · obtain ⟨-, rfl⟩ := diskwrite_some h
    refine ⟨⟨strcpy volname, fun q hq => ?_⟩, rfl⟩
    dsimp only
    rw [Function.update_self, if_pos hq]

theorem main_left {r : Except Exit Unit} (run : main volname d = .ok (r, d')) :
    d' = d ∨ Headed d' ∧ d'.d_blocks = d.d_blocks := by
  rw [main] at run
  cases hname : mksfs_volname volname with
  | none =>
    rw [hname] at run
    cases run
    exact .inl rfl
  | some name =>
  simp only [hname] at run
  rw [bind_ok (get_run d)] at run
  cases hs : Os161.writesuper name d.d_blocks d with
  | none =>
    rw [bind_error (writesuper_error hs)] at run
    cases run
    exact .inl rfl
  | some d₁ =>
    obtain ⟨h₁, hn₁⟩ := headed_of_super hs
    rw [bind_ok (writesuper_ok hs)] at run
    cases hr : Os161.writerootdir d₁ with
    | none =>
      rw [bind_error (writerootdir_error hr)] at run
      cases run
      exact .inr ⟨h₁, hn₁⟩
    | some d₂ =>
      obtain ⟨h₂, hn₂⟩ := h₁.of_write (by decide) (writerootdir_ok hr)
      rw [bind_ok (writerootdir_ok hr)] at run
      obtain ⟨h', hn⟩ := h₂.of_bitmap run
      exact .inr ⟨h', hn.trans (hn₂.trans hn₁)⟩

theorem Headed.not_mountable (h : Headed d) (hn : d.d_blocks = 1 ∨ d.d_blocks = 2) (heap : Heap) (s : Sfs) :
    sfs_domount (Sfs.new d heap) ≠ .ok (.ok (), s) := by
  intro hmount
  obtain ⟨volname, hs⟩ := h
  obtain ⟨-, hnblocks, -⟩ := superblock_eq (by omega) hs
  have hfits := (sfs_domount_any hmount).fits
  rw [hnblocks] at hfits
  have hone : SFS_BITBLOCKS d.d_blocks = 1 := by
    rcases hn with hn | hn <;> rw [hn] <;> decide
  omega

theorem main_too_large (hname : mksfs_volname volname = some name) (hlen : name.chars.length < 32)
    (hbig : MAXBITBLOCKS < SFS_BITBLOCKS d.d_blocks) (hn : 1 < d.d_blocks) :
    ∃ d', main volname d = .ok (.error .errx, d') ∧ Headed d' ∧ d'.d_blocks = d.d_blocks ∧ d'.eio = d.eio ∧
      ∀ b, 2 ≤ b → d'.sect b = d.sect b := by
  set d₁ : Device := { d with sect := Function.update d.sect SFS_SB_LOCATION fun i =>
    if i < 512 then Super.encode ⟨SFS_MAGIC, d.d_blocks, strcpy name⟩ i else 0 } with hd₁
  set d₂ : Device := { d₁ with sect := Function.update d₁.sect SFS_ROOT_LOCATION fun i =>
    if i < 512 then Inode.encode ⟨0, SFS_TYPE_DIR, 1, fun _ => 0, 0⟩ i else 0 } with hd₂
  have hs : Os161.writesuper name d.d_blocks d = some d₁ := by
    rw [Os161.writesuper, if_neg (by simp only [SFS_VOLNAME_SIZE]; omega), Os161.diskwrite,
      if_pos (by simp only [SFS_SB_LOCATION]; omega)]
  have hr : Os161.writerootdir d₁ = some d₂ := by
    rw [Os161.writerootdir, Os161.diskwrite, if_pos hn]
  have hrun : main volname d = .ok (.error .errx, d₂) := by
    rw [main, hname]
    dsimp only
    rw [bind_ok (get_run d), bind_ok (writesuper_ok hs), bind_ok (writerootdir_ok hr), writebitmap, if_pos hbig]
    rfl
  obtain ⟨h₁, -⟩ := headed_of_super hs
  refine ⟨d₂, hrun, (h₁.of_write (by decide) (writerootdir_ok hr)).1, rfl, rfl, fun b hb => ?_⟩
  rw [hd₂, hd₁]
  dsimp only
  rw [Function.update_of_ne (by simp only [SFS_ROOT_LOCATION]; omega),
    Function.update_of_ne (by simp only [SFS_SB_LOCATION]; omega)]

end Left

end Os161.Mksfs
