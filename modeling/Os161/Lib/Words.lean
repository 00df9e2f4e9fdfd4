import Mathlib.Tactic.Common
import Mathlib.Data.Int.Bitwise

/-! # Machine words

32-bit integers as numbers with explicit wraparound, and words as big-endian bytes.
-/

abbrev Byte := BitVec 8

instance byteLawfulBEq : LawfulBEq Byte := inferInstance

abbrev Mem := Nat → Byte

/-- `memmove`: `n` bytes of `src` from `at_src` on go to `at_dst` on. -/
def Mem.copy (dst : Mem) (at_dst : Nat) (src : Mem) (at_src n : Nat) : Mem := fun i =>
  if at_dst ≤ i ∧ i < at_dst + n then src (at_src + (i - at_dst)) else dst i

theorem Mem.copy_zero (d : Mem) (a : Nat) (s : Mem) (b : Nat) : d.copy a s b 0 = d := by
  funext i
  exact if_neg (by omega)

theorem Mem.copy_copy (d : Mem) (a : Nat) (s : Mem) (b n m : Nat) :
    (d.copy a s b n).copy (a + n) s (b + n) m = d.copy a s b (n + m) := by
  funext i
  simp only [Mem.copy]
  split
  · rw [if_pos (by omega)]
    congr 1
    omega
  · split
    · rw [if_pos (by omega)]
    · rw [if_neg (by omega)]

theorem Mem.copy_copy_self (d : Mem) {a b n m : Nat} (h : b + (n + m) ≤ a ∨ a + (n + m) ≤ b) :
    (d.copy a d b n).copy (a + n) (d.copy a d b n) (b + n) m = d.copy a d b (n + m) := by
  rw [← Mem.copy_copy]
  funext i
  simp only [Mem.copy]
  split
  · rw [if_neg (by omega)]
  · rfl

theorem Mem.copy_zeros {d z : Mem} {a b n : Nat} (hz : ∀ i < n, z (b + i) = 0) :
    d.copy a z b n = d.copy a (fun _ => 0) 0 n := by
  funext i
  simp only [Mem.copy]
  split
  · exact hz _ (by omega)
  · rfl

namespace Words

/-- The signed 32-bit integer with the low 32 bits of `x`. -/
def toI32 (x : Int) : Int := Int.bmod x (2 ^ 32)

/-- The unsigned 32-bit integer with the low 32 bits of `x`. -/
def toU32 (x : Int) : Nat := (x % 2 ^ 32).toNat

theorem dvd_toI32 {x : Int} (h : 512 ∣ x) : 512 ∣ toI32 x := by
  unfold toI32; rw [Int.bmod_def]; omega

theorem toI32_of_small {x : Int} (h0 : -2 ^ 31 ≤ x) (h1 : x < 2 ^ 31) : toI32 x = x := by
  unfold toI32; rw [Int.bmod_def]; omega

theorem toI32_range (x : Int) : -2 ^ 31 ≤ toI32 x ∧ toI32 x < 2 ^ 31 := by
  unfold toI32
  rw [Int.bmod_def]
  omega

theorem toI32_toI32_add (x y : Int) : toI32 (toI32 x + y) = toI32 (x + y) := Int.bmod_add_bmod

theorem toU32_of_small {x : Int} (h0 : 0 ≤ x) (h1 : x < 2 ^ 32) : toU32 x = x.toNat := by
  unfold toU32; omega

theorem toI32_add_zero {x : Int} (h0 : -2 ^ 31 ≤ x) (h1 : x < 2 ^ 31) : toI32 (x + (0 : Nat)) = x :=
  (toI32_of_small (by omega) (by omega)).trans (Int.add_zero x)

theorem toI32_add_add (x : Int) (n m : Nat) : toI32 (toI32 (x + n) + m) = toI32 (x + (n + m : Nat)) := by
  rw [toI32_toI32_add, Nat.cast_add, Int.add_assoc]

theorem toU32_sub {x n : Nat} (hn : n ≤ x) (hx : x < 2 ^ 32) : toU32 (x - n) = x - n := by
  unfold toU32; omega

theorem toU32_sub_sub {x n m : Nat} (h : n + m ≤ x) (hx : x < 2 ^ 32) :
    toU32 (toU32 (x - n) - m) = toU32 (x - (n + m : Nat)) := by
  rw [toU32_sub (Nat.le_of_add_right_le h) hx, toU32_sub h hx, toU32_sub (by omega) (by omega), Nat.sub_sub]

@[simp] theorem toU32_natCast {n : Nat} (h : n < 2 ^ 32) : toU32 (n : Int) = n := by
  unfold toU32; omega

/-! ## Big-endian bytes of a word -/

/-- Byte `k` of the word `w`, byte 0 on top. -/
def byteOf (w k : Nat) : Byte := BitVec.ofNat 8 (w / 256 ^ (3 - k))

def ofBytes (a b c d : Byte) : Nat :=
  a.toNat * 2 ^ 24 + b.toNat * 2 ^ 16 + c.toNat * 2 ^ 8 + d.toNat

theorem ofBytes_lt (a b c d : Byte) : ofBytes a b c d < 2 ^ 32 := by
  have := a.isLt; have := b.isLt; have := c.isLt; have := d.isLt
  unfold ofBytes; omega

theorem ofBytes_byteOf (w : Nat) :
    ofBytes (byteOf w 0) (byteOf w 1) (byteOf w 2) (byteOf w 3) = w % 2 ^ 32 := by
  simp only [ofBytes, byteOf, BitVec.toNat_ofNat]
  omega

def bytesOf (w : Nat → Nat) : Mem := fun i => byteOf (w (i / 4)) (i % 4)

def wordAt (m : Mem) (k : Nat) : Nat :=
  ofBytes (m (4 * k)) (m (4 * k + 1)) (m (4 * k + 2)) (m (4 * k + 3))

theorem wordAt_lt (m : Mem) (k : Nat) : wordAt m k < 2 ^ 32 := ofBytes_lt _ _ _ _

theorem wordAt_bytesOf (w : Nat → Nat) (k : Nat) : wordAt (bytesOf w) k = w k % 2 ^ 32 := by
  have e : ∀ j, j < 4 → bytesOf w (4 * k + j) = byteOf (w k) j := by
    intro j hj
    rw [bytesOf, show (4 * k + j) / 4 = k by omega, show (4 * k + j) % 4 = j by omega]
  rw [wordAt, ← Nat.add_zero (4 * k), e 0 (by omega), Nat.add_zero, e 1 (by omega), e 2 (by omega),
    e 3 (by omega), ofBytes_byteOf]

theorem wordAt_congr {m n : Mem} {k : Nat} (h : ∀ i, 4 * k ≤ i → i < 4 * k + 4 → m i = n i) :
    wordAt m k = wordAt n k := by
  unfold wordAt
  rw [h _ (by omega) (by omega), h _ (by omega) (by omega), h _ (by omega) (by omega),
    h _ (by omega) (by omega)]

theorem wordAt_zero {m : Mem} (k : Nat) (h : ∀ i, 4 * k ≤ i → i < 4 * k + 4 → m i = 0) :
    wordAt m k = 0 := by
  unfold wordAt
  rw [h _ (by omega) (by omega), h _ (by omega) (by omega), h _ (by omega) (by omega),
    h _ (by omega) (by omega)]
  rfl

end Words
