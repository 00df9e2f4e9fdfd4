import Os161.Kern.Basic
import Mathlib.Data.Fin.Basic

/-! # `kern/sfs.h`: the volume on disk -/

namespace Os161

open Words

abbrev SFS_MAGIC : Nat := 0xabadf001
abbrev SFS_BLOCKSIZE : Nat := 512
abbrev SFS_VOLNAME_SIZE : Nat := 32
abbrev SFS_NDIRECT : Nat := 15
abbrev SFS_DBPERIDB : Nat := 128
abbrev SFS_NAMELEN : Nat := 60
abbrev SFS_SB_LOCATION : Nat := 0
abbrev SFS_ROOT_LOCATION : Nat := 1
abbrev SFS_MAP_LOCATION : Nat := 2
abbrev SFS_NOINO : Nat := 0
abbrev SFS_BLOCKBITS : Nat := SFS_BLOCKSIZE * 8

def SFS_ROUNDUP (a b : Nat) : Nat := (a + b - 1) % 2 ^ 32 / b * b % 2 ^ 32

def SFS_BITMAPSIZE (nblocks : Nat) : Nat := SFS_ROUNDUP nblocks SFS_BLOCKBITS

def SFS_BITBLOCKS (nblocks : Nat) : Nat := SFS_BITMAPSIZE nblocks / SFS_BLOCKBITS

abbrev SFS_TYPE_INVAL : UInt16 := 0
abbrev SFS_TYPE_FILE : UInt16 := 1
abbrev SFS_TYPE_DIR : UInt16 := 2

abbrev SFS_DIRSIZE : Nat := 64

/-! ## The superblock -/

structure Super where
  sp_magic : Nat
  sp_nblocks : Nat
  sp_volname : Mem

def Super.encode (sp : Super) : Mem := fun i =>
  if i < 8 then bytesOf (fun k => if k = 0 then sp.sp_magic else sp.sp_nblocks) i
  else if i < 40 then sp.sp_volname (i - 8)
  else 0

def Super.decode (m : Mem) : Super where
  sp_magic := wordAt m 0
  sp_nblocks := wordAt m 1
  sp_volname := fun i => m (8 + i)

/-! ## The inode -/

@[ext] structure Inode where
  sfi_size : UInt32
  sfi_type : UInt16
  sfi_linkcount : UInt16
  sfi_direct : Fin 15 → Nat
  sfi_indirect : Nat

namespace Inode

def words (i : Inode) (k : Nat) : Nat :=
  if k = 0 then i.sfi_size.toNat
  else if k = 1 then i.sfi_type.toNat * 2 ^ 16 + i.sfi_linkcount.toNat
  else if h : k - 2 < 15 then i.sfi_direct ⟨k - 2, h⟩
  else if k = 17 then i.sfi_indirect
  else 0

def encode (i : Inode) : Mem := bytesOf i.words

def decode (m : Mem) : Inode where
  sfi_size := UInt32.ofNat (wordAt m 0)
  sfi_type := UInt16.ofNat (wordAt m 1 / 2 ^ 16)
  sfi_linkcount := UInt16.ofNat (wordAt m 1 % 2 ^ 16)
  sfi_direct := fun k => wordAt m (k + 2)
  sfi_indirect := wordAt m 17

theorem decode_congr {m n : Mem} (h : ∀ i < 512, m i = n i) : decode m = decode n := by
  have hw : ∀ k < 128, wordAt m k = wordAt n k := fun k hk =>
    wordAt_congr fun i _ hi => h i (by omega)
  have hd : (fun k : Fin 15 => wordAt m (k + 2)) = fun k : Fin 15 => wordAt n (k + 2) :=
    funext fun k => hw _ (by omega)
  rw [decode, decode, hw 0 (by omega), hw 1 (by omega), hw 17 (by omega), hd]

theorem decode_encode {i : Inode} (hd : ∀ k, i.sfi_direct k < 2 ^ 32) (hi : i.sfi_indirect < 2 ^ 32) :
    decode i.encode = i := by
  have h32 := i.sfi_size.toNat_lt
  have ht := i.sfi_type.toNat_lt
  have hl := i.sfi_linkcount.toNat_lt
  apply Inode.ext
  · apply UInt32.toNat.inj
    simp only [decode, encode, wordAt_bytesOf, words, UInt32.toNat_ofNat', if_pos]
    omega
  · apply UInt16.toNat.inj
    simp only [decode, encode, wordAt_bytesOf, words, UInt16.toNat_ofNat', if_neg one_ne_zero, if_pos]
    omega
  · apply UInt16.toNat.inj
    simp only [decode, encode, wordAt_bytesOf, words, UInt16.toNat_ofNat', if_neg one_ne_zero, if_pos]
    omega
  · funext k
    simp only [decode, encode, wordAt_bytesOf, words]
    rw [if_neg (by omega), if_neg (by omega), dif_pos (by omega), Nat.mod_eq_of_lt]
    · rfl
    · exact hd _
  · simp only [decode, encode, wordAt_bytesOf, words]
    exact Nat.mod_eq_of_lt hi

def cleared : Inode := ⟨0, SFS_TYPE_INVAL, 0, fun _ => 0, 0⟩

theorem decode_zero {m : Mem} (h : ∀ i < 512, m i = 0) : decode m = cleared := by
  have hw : ∀ k < 128, wordAt m k = 0 := fun k hk =>
    wordAt_zero k fun i _ hi => h i (by omega)
  have hd : (fun k : Fin 15 => wordAt m (k + 2)) = fun _ => 0 := funext fun k => hw _ (by omega)
  rw [decode, hw 0 (by omega), hw 1 (by omega), hw 17 (by omega), hd]
  rfl

end Inode

/-! ## Directory entries and names -/

structure CStr where
  chars : List Byte
  no_nul : ∀ c ∈ chars, c ≠ 0

def CStr.ofBytes (l : List Byte) : CStr := ⟨l.filter (· ≠ 0), fun c hc => by simpa using (List.mem_filter.mp hc).2⟩

def cstr (m : Mem) (n : Nat) : List Byte := ((List.range n).map m).takeWhile (· ≠ 0)

structure Dir where
  sfd_ino : Nat
  sfd_name : Mem

def Dir.encode (sd : Dir) : Mem := fun i =>
  if i < 4 then bytesOf (fun _ => sd.sfd_ino) i else if i < 64 then sd.sfd_name (i - 4) else 0

def Dir.decode (m : Mem) : Dir := ⟨wordAt m 0, fun i => m (4 + i)⟩

theorem Dir.ino_encode (sd : Dir) : wordAt sd.encode 0 = sd.sfd_ino % 2 ^ 32 := by
  rw [← wordAt_bytesOf (fun _ => sd.sfd_ino) 0]
  apply wordAt_congr
  intro i _ hi
  simp only [Dir.encode]
  rw [if_pos (by omega)]

theorem Dir.name_encode (sd : Dir) {i : Nat} (hi : i < 60) :
    sd.encode (4 + i) = sd.sfd_name i := by
  simp only [Dir.encode]
  rw [if_neg (by omega), if_pos (by omega), Nat.add_sub_cancel_left]

def strcpy (name : CStr) : Mem := fun i => name.chars.getD i 0

theorem cstr_congr {m m' : Mem} {n : Nat} (h : ∀ i < n, m i = m' i) : cstr m n = cstr m' n := by
  have : (List.range n).map m = (List.range n).map m' :=
    List.map_congr_left fun i hi => h i (List.mem_range.mp hi)
  rw [cstr, cstr, this]

theorem cstr_eq {m : Mem} {n k : Nat} (hk : k < n) (h0 : m k = 0) (hne : ∀ i < k, m i ≠ 0) :
    cstr m n = (List.range k).map m := by
  obtain ⟨d, rfl⟩ : ∃ d, n = k + (d + 1) := ⟨n - k - 1, by omega⟩
  rw [cstr, List.range_add, List.map_append, List.takeWhile_append_of_pos]
  · rw [List.map_map, List.range_succ_eq_map, List.map_cons, List.takeWhile_cons_of_neg]
    · rw [List.append_nil]
    · simp [h0]
  · intro c hc
    obtain ⟨i, hi, rfl⟩ := List.mem_map.mp hc
    simpa using hne i (List.mem_range.mp hi)

theorem cstr_strcpy {name : CStr} {n : Nat} (hn : name.chars.length < n) :
    cstr (strcpy name) n = name.chars := by
  rw [cstr_eq hn]
  · apply List.ext_getElem
    · simp
    · intro i h1 h2
      simp only [strcpy, List.getElem_map, List.getElem_range]
      exact (List.getElem_eq_getD 0).symm
  · simp [strcpy]
  · intro i hi
    simp only [strcpy, List.getD_eq_getElem _ _ hi]
    exact name.no_nul _ (List.getElem_mem hi)

end Os161
