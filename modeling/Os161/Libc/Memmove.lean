import Os161.Kern.Array

/-! # `memmove.c` and `memcpy.c`

Addresses are 32-bit numbers, and a `long` is four bytes with the first one on top. The loops are compared with
`Mem.copy`, which reads everything from the memory before the call.
-/

namespace Os161.Memmove

open Words

/-! ## The code -/

def addr (p off : Nat) : Nat := (p + off) % 2 ^ 32

def copyChar (m : Mem) (d s : Nat) : Mem := Function.update m d (m s)

def loadLong (m : Mem) (a : Nat) : Nat := ofBytes (m (addr a 0)) (m (addr a 1)) (m (addr a 2)) (m (addr a 3))

def storeLong (m : Mem) (a w : Nat) : Mem :=
  Function.update (Function.update (Function.update (Function.update m (addr a 0) (byteOf w 0))
    (addr a 1) (byteOf w 1)) (addr a 2) (byteOf w 2)) (addr a 3) (byteOf w 3)

def copyLong (m : Mem) (d s : Nat) : Mem := storeLong m d (loadLong m s)

def copyUp (copy : Mem → Nat → Nat → Mem) (size dst src : Nat) : Nat → Nat → Mem → Mem
  | 0, _, m => m
  | n + 1, i, m => copyUp copy size dst src n (i + 1) (copy m (addr dst (size * i)) (addr src (size * i)))

def copyDown (copy : Mem → Nat → Nat → Mem) (size dst src : Nat) : Nat → Mem → Mem
  | 0, m => m
  | i + 1, m => copyDown copy size dst src i (copy m (addr dst (size * i)) (addr src (size * i)))

def memcpy (m : Mem) (dst src len : Nat) : Nat × Mem :=
  if dst % 4 = 0 ∧ src % 4 = 0 ∧ len % 4 = 0 then
    (dst, copyUp copyLong 4 dst src (len / 4) 0 m)
  else
    (dst, copyUp copyChar 1 dst src len 0 m)

def memmove (m : Mem) (dst src len : Nat) : Nat × Mem :=
  if dst < src then
    memcpy m dst src len
  else if dst % 4 = 0 ∧ src % 4 = 0 ∧ len % 4 = 0 then
    (dst, copyDown copyLong 4 dst src (len / 4) m)
  else
    (dst, copyDown copyChar 1 dst src len m)

/-! ## One element -/

section Element

variable {m : Mem} {a d s : Nat}

theorem addr_of_lt {p off : Nat} (h : p + off < 2 ^ 32) : addr p off = p + off := Nat.mod_eq_of_lt h

theorem copyChar_eq : copyChar m d s = m.copy d m s 1 := by
  funext i
  unfold copyChar Mem.copy
  by_cases hi : i = d
  · subst hi
    rw [Function.update_self, if_pos (by omega), Nat.sub_self, Nat.add_zero]
  · rw [Function.update_of_ne hi, if_neg (by omega)]

theorem byteOf_ofBytes (a b c e : Byte) :
    byteOf (ofBytes a b c e) 0 = a ∧ byteOf (ofBytes a b c e) 1 = b ∧ byteOf (ofBytes a b c e) 2 = c ∧
      byteOf (ofBytes a b c e) 3 = e := by
  have := a.isLt
  have := b.isLt
  have := c.isLt
  have := e.isLt
  refine ⟨?_, ?_, ?_, ?_⟩ <;> apply BitVec.eq_of_toNat_eq <;> simp only [byteOf, ofBytes, BitVec.toNat_ofNat] <;> omega

theorem copyLong_eq (hd : d + 4 ≤ 2 ^ 32) (hs : s + 4 ≤ 2 ^ 32) : copyLong m d s = m.copy d m s 4 := by
  obtain ⟨h0, h1, h2, h3⟩ := byteOf_ofBytes (m s) (m (s + 1)) (m (s + 2)) (m (s + 3))
  have hload : loadLong m s = ofBytes (m s) (m (s + 1)) (m (s + 2)) (m (s + 3)) := by
    rw [loadLong, addr_of_lt (by omega), addr_of_lt (by omega), addr_of_lt (by omega), addr_of_lt (by omega)]
    rfl
  rw [copyLong, storeLong, hload, h0, h1, h2, h3, addr_of_lt (by omega), addr_of_lt (by omega),
    addr_of_lt (by omega), addr_of_lt (by omega)]
  funext i
  simp only [Function.update_apply, Mem.copy]
  split_ifs <;> first | omega | rfl | skip
  all_goals congr 1; omega

end Element

/-! ## The loops -/

section Loops

variable {m : Mem} {dst src : Nat}

theorem copy_up_step (h : dst ≤ src) (k size : Nat) :
    (m.copy dst m src k).copy (dst + k) (m.copy dst m src k) (src + k) size = m.copy dst m src (k + size) := by
  funext i
  simp only [Mem.copy]
  split
  · rw [if_neg (by omega), if_pos (by omega)]
    congr 1
    omega
  · split
    · rw [if_pos (by omega)]
    · rw [if_neg (by omega)]

theorem copy_down_step (h : src ≤ dst) (k size n : Nat) :
    (m.copy (dst + (k + size)) m (src + (k + size)) n).copy (dst + k)
        (m.copy (dst + (k + size)) m (src + (k + size)) n) (src + k) size =
      m.copy (dst + k) m (src + k) (size + n) := by
  funext i
  simp only [Mem.copy]
  split
  · rw [if_neg (by omega), if_pos (by omega)]
  · split
    · rw [if_pos (by omega)]
      congr 1
      omega
    · rw [if_neg (by omega)]

variable {copy : Mem → Nat → Nat → Mem} {size n : Nat}

/-- The induction is on the elements to go; the first `i` have been copied. -/
theorem copyUp_eq
    (hcopy : ∀ m d s, d + size ≤ 2 ^ 32 → s + size ≤ 2 ^ 32 → copy m d s = m.copy d m s size)
    (h : dst ≤ src) (hsize : 0 < size) (i : Nat) (hd : dst + size * (i + n) ≤ 2 ^ 32)
    (hs : src + size * (i + n) ≤ 2 ^ 32) :
    copyUp copy size dst src n i (m.copy dst m src (size * i)) = m.copy dst m src (size * (i + n)) := by
  induction n generalizing i with
  | zero => rfl
  | succ n ih =>
    have hle : size * i + size ≤ size * (i + (n + 1)) := by
      rw [← Nat.mul_succ]
      exact Nat.mul_le_mul_left size (by omega)
    rw [copyUp, addr_of_lt (by omega), addr_of_lt (by omega), hcopy _ _ _ (by omega) (by omega),
      copy_up_step h, ← Nat.mul_succ, show i + (n + 1) = i + 1 + n by omega]
    rw [show i + (n + 1) = i + 1 + n by omega] at hd hs
    exact ih (i + 1) hd hs

theorem copyDown_eq
    (hcopy : ∀ m d s, d + size ≤ 2 ^ 32 → s + size ≤ 2 ^ 32 → copy m d s = m.copy d m s size)
    (h : src ≤ dst) (hsize : 0 < size) (i : Nat) (hd : dst + size * (i + n) ≤ 2 ^ 32)
    (hs : src + size * (i + n) ≤ 2 ^ 32) :
    copyDown copy size dst src i (m.copy (dst + size * i) m (src + size * i) (size * n)) =
      m.copy dst m src (size * (i + n)) := by
  induction i generalizing n with
  | zero => rw [copyDown, Nat.mul_zero, Nat.add_zero, Nat.add_zero, Nat.zero_add]
  | succ i ih =>
    have hle : size * i + size ≤ size * (i + 1 + n) := by
      rw [← Nat.mul_succ]
      exact Nat.mul_le_mul_left size (by omega)
    rw [copyDown, addr_of_lt (by omega), addr_of_lt (by omega), hcopy _ _ _ (by omega) (by omega), Nat.mul_succ,
      copy_down_step h, Nat.add_comm size, ← Nat.mul_succ, show i + 1 + n = i + (n + 1) by omega]
    rw [show i + 1 + n = i + (n + 1) by omega] at hd hs
    exact ih hd hs

end Loops

/-! ## The functions -/

section Functions

variable (m : Mem) {dst src len : Nat}

theorem memcpy_eq (h : dst ≤ src) (hd : dst + len ≤ 2 ^ 32) (hs : src + len ≤ 2 ^ 32) :
    memcpy m dst src len = (dst, m.copy dst m src len) := by
  have hzero : m = m.copy dst m src 0 := (Mem.copy_zero m dst m src).symm
  unfold memcpy
  split
  · rename_i halign
    have hlen : 4 * (0 + len / 4) = len := by omega
    have hloop := copyUp_eq (m := m) (n := len / 4) (fun _ _ _ => copyLong_eq) h (by decide) 0 (by omega) (by omega)
    rw [hlen, Nat.mul_zero, ← hzero] at hloop
    rw [hloop]
  · have hloop := copyUp_eq (m := m) (n := len) (fun _ _ _ _ _ => copyChar_eq) h (by decide) 0 (by omega) (by omega)
    rw [Nat.mul_zero, ← hzero, Nat.zero_add, Nat.one_mul] at hloop
    rw [hloop]

theorem memmove_eq (hd : dst + len ≤ 2 ^ 32) (hs : src + len ≤ 2 ^ 32) :
    memmove m dst src len = (dst, m.copy dst m src len) := by
  unfold memmove
  split
  · rename_i hlt
    exact memcpy_eq m (Nat.le_of_lt hlt) hd hs
  rename_i hge
  have hle : src ≤ dst := Nat.le_of_not_lt hge
  split
  · rename_i halign
    have hlen : 4 * (len / 4 + 0) = len := by omega
    have hloop := copyDown_eq (m := m) (n := 0) (fun _ _ _ => copyLong_eq) hle (by decide) (len / 4) (by omega)
      (by omega)
    rw [hlen, Nat.mul_zero, Mem.copy_zero] at hloop
    rw [hloop]
  · have hloop := copyDown_eq (m := m) (n := 0) (fun _ _ _ _ _ => copyChar_eq) hle (by decide) len (by omega)
      (by omega)
    rw [Nat.mul_zero, Mem.copy_zero, Nat.add_zero, Nat.one_mul] at hloop
    rw [hloop]

/-- Whichever loop runs, the destination holds what the source held, and no other byte changes. -/
theorem memmove_moves (hd : dst + len ≤ 2 ^ 32) (hs : src + len ≤ 2 ^ 32) :
    (memmove m dst src len).1 = dst ∧
    (∀ i < len, (memmove m dst src len).2 (dst + i) = m (src + i)) ∧
    ∀ a, a < dst ∨ dst + len ≤ a → (memmove m dst src len).2 a = m a := by
  rw [memmove_eq m hd hs]
  refine ⟨rfl, ?_, ?_⟩
  · intro i hi
    simp only [Mem.copy]
    rw [if_pos (by omega), Nat.add_sub_cancel_left]
  · intro a ha
    exact if_neg (by omega)

end Functions

theorem memmove_moves_words :
    (memmove (fun a => BitVec.ofNat 8 a) 8 4 8).1 = 8 ∧
    (∀ i < 8, (memmove (fun a => BitVec.ofNat 8 a) 8 4 8).2 (8 + i) = BitVec.ofNat 8 (4 + i)) ∧
    ∀ a, a < 8 ∨ 8 + 8 ≤ a → (memmove (fun a => BitVec.ofNat 8 a) 8 4 8).2 a = BitVec.ofNat 8 a :=
  memmove_moves (fun a => BitVec.ofNat 8 a) (by decide) (by decide)

/-! ## The caller -/

theorem memmove_array_remove (m : Mem) (p : Nat) (a : KArray Nat) (index : Fin a.num) (hp : p + 4 * a.num ≤ 2 ^ 32)
    (hv : ∀ i < a.num, wordAt (fun off => m (p + off)) i = a.v i) :
    ∀ i < (array_remove a index).num,
      wordAt (fun off => (memmove m (p + 4 * index) (p + 4 * (index + 1)) (4 * (a.num - (index + 1)))).2 (p + off)) i =
        (array_remove a index).v i := by
  have hix := index.isLt
  rw [memmove_eq m (by omega) (by omega)]
  intro i hi
  have hnum : (array_remove a index).num = a.num - 1 := rfl
  have hslot : (array_remove a index).v i = if i < index then a.v i else a.v (i + 1) := rfl
  rw [hnum] at hi
  rw [hslot]
  split
  · rw [← hv i (by omega)]
    apply wordAt_congr
    intro off hlo hhi
    exact if_neg (by omega)
  · rw [← hv (i + 1) (by omega)]
    simp only [wordAt, Mem.copy]
    rw [if_pos (by omega), if_pos (by omega), if_pos (by omega), if_pos (by omega)]
    congr 2 <;> omega

def threeSlots : KArray Nat := ⟨3, 3, wordAt fun off => BitVec.ofNat 8 (0x80000000 + off), Nat.le_refl 3⟩

theorem memmove_array_remove_middle :
    wordAt (fun off => (memmove (BitVec.ofNat 8) 0x80000004 0x80000008 4).2 (0x80000000 + off)) 1 = threeSlots.v 2 :=
  memmove_array_remove (BitVec.ofNat 8) 0x80000000 threeSlots ⟨1, by decide⟩ (by decide) (fun _ _ => rfl) 1 (by decide)

end Os161.Memmove
