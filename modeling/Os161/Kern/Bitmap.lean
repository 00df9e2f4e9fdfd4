import Os161.Kern.Basic

/-! # `lib/bitmap.c`: the array of bits -/

namespace Os161

structure Bitmap where
  nbits : Nat
  v : Nat → Byte

abbrev BITS_PER_WORD : Nat := 8

def WORD_ALLBITS : Byte := 0xff

def bitmap_translate (bitno : Nat) : Nat × Byte :=
  (bitno / BITS_PER_WORD, 1#8 <<< (bitno % BITS_PER_WORD))

def Bitmap.setWord (b : Bitmap) (ix : Nat) (w : Byte) : Bitmap :=
  { b with v := Function.update b.v ix w }

def bitmap_fill (w : Byte) (overbits : Nat) : Byte :=
  (List.range BITS_PER_WORD).foldl (fun w j => if overbits ≤ j then w ||| (1#8 <<< j) else w) w

/-- `none` if a `kmalloc` fails. -/
def bitmap_create (nbits : Nat) : Alloc (Option Bitmap) := fun h =>
  let words := DIVROUNDUP nbits BITS_PER_WORD
  match kmalloc h with
  | (false, h) => (none, h)
  | (true, h) =>
    match kmalloc h with
    | (false, h) => (none, h)
    | (true, h) =>
      let b : Bitmap := ⟨nbits, fun _ => 0⟩
      if nbits / BITS_PER_WORD < words then
        let ix := words - 1
        (some (b.setWord ix (bitmap_fill 0 (nbits - ix * BITS_PER_WORD))), h)
      else
        (some b, h)

/-- The first free bit, now taken. The outer `none` is a failed assertion. -/
def bitmap_alloc (b : Bitmap) : Option (Except Errno (Bitmap × Nat)) :=
  match (List.range (DIVROUNDUP b.nbits BITS_PER_WORD)).find? fun ix => b.v ix ≠ WORD_ALLBITS with
  | none => some (.error .ENOSPC)
  | some ix =>
    match (List.range BITS_PER_WORD).find? fun offset => b.v ix &&& (1#8 <<< offset) = 0 with
    | none => none
    | some offset =>
      let index := ix * BITS_PER_WORD + offset
      if index < b.nbits then
        some (.ok (b.setWord ix (b.v ix ||| (1#8 <<< offset)), index))
      else
        none

/-- `none` if an assertion fails. -/
def bitmap_mark (b : Bitmap) (index : Nat) : Option Bitmap :=
  let (ix, mask) := bitmap_translate index
  if index < b.nbits ∧ b.v ix &&& mask = 0 then some (b.setWord ix (b.v ix ||| mask)) else none

/-- `none` if an assertion fails. -/
def bitmap_unmark (b : Bitmap) (index : Nat) : Option Bitmap :=
  let (ix, mask) := bitmap_translate index
  if index < b.nbits ∧ b.v ix &&& mask ≠ 0 then some (b.setWord ix (b.v ix &&& ~~~mask)) else none

def bitmap_isset (b : Bitmap) (index : Nat) : Bool :=
  let (ix, mask) := bitmap_translate index
  b.v ix &&& mask ≠ 0

/-! ## The bitmap is a set -/

def Bitmap.Marked (b : Bitmap) (i : Nat) : Prop := (b.v (i / 8)).getLsbD (i % 8) = true

theorem byte_and_mask (w : Byte) (k : Nat) : w &&& 1#8 <<< k = 0 ↔ k < 8 → w.getLsbD k = false := by
  rw [show (1#8 <<< k) = BitVec.twoPow 8 k from (BitVec.twoPow_eq 8 k).symm, BitVec.and_twoPow]
  by_cases hk : k < 8
  · have h2 : BitVec.twoPow 8 k ≠ 0#8 := by
      intro h
      have := congrArg (BitVec.getLsbD · k) h
      simp [hk] at this
    cases w.getLsbD k <;> simp [hk, h2]
  · simp [hk, BitVec.getLsbD_of_ge w k (by omega)]

theorem isset_iff (b : Bitmap) (i : Nat) : bitmap_isset b i = true ↔ b.Marked i := by
  have hk : i % 8 < 8 := Nat.mod_lt _ (by omega)
  simp only [bitmap_isset, bitmap_translate, BITS_PER_WORD, ne_eq, decide_eq_true_eq, byte_and_mask,
    Bitmap.Marked]
  cases (b.v (i / 8)).getLsbD (i % 8) <;> simp [hk]

theorem marked_setWord (b : Bitmap) (ix : Nat) (w : Byte) (i : Nat) :
    (b.setWord ix w).Marked i ↔ if i / 8 = ix then w.getLsbD (i % 8) = true else b.Marked i := by
  unfold Bitmap.Marked Bitmap.setWord
  by_cases h : i / 8 = ix
  · subst h; simp
  · simp [h]

theorem marked_or (b : Bitmap) (j i : Nat) :
    (b.setWord (j / 8) (b.v (j / 8) ||| 1#8 <<< (j % 8))).Marked i ↔ i = j ∨ b.Marked i := by
  rw [marked_setWord]
  by_cases h : i / 8 = j / 8
  · rw [if_pos h, BitVec.getLsbD_or, Bool.or_eq_true, Bitmap.Marked, h,
      ← BitVec.twoPow_eq 8 (j % 8), BitVec.getLsbD_twoPow]
    simp only [Bool.and_eq_true, decide_eq_true_eq]
    constructor
    · rintro (h1 | ⟨-, h1⟩)
      · exact Or.inr h1
      · left; omega
    · rintro (rfl | h1)
      · exact Or.inr ⟨Nat.mod_lt _ (by omega), rfl⟩
      · exact Or.inl h1
  · rw [if_neg h]
    constructor
    · exact Or.inr
    · rintro (rfl | h1)
      · exact absurd rfl h
      · exact h1

theorem marked_andnot (b : Bitmap) (j i : Nat) :
    (b.setWord (j / 8) (b.v (j / 8) &&& ~~~(1#8 <<< (j % 8)))).Marked i ↔ i ≠ j ∧ b.Marked i := by
  rw [marked_setWord]
  have h8 : i % 8 < 8 := Nat.mod_lt _ (by omega)
  by_cases h : i / 8 = j / 8
  · rw [if_pos h, BitVec.getLsbD_and, Bool.and_eq_true, Bitmap.Marked, h, BitVec.getLsbD_not,
      ← BitVec.twoPow_eq 8 (j % 8), BitVec.getLsbD_twoPow]
    simp only [h8, decide_true, Bool.true_and, Bool.not_eq_true', Bool.and_eq_false_iff,
      decide_eq_false_iff_not]
    constructor
    · rintro ⟨h1, h2⟩
      refine ⟨?_, h1⟩
      rintro rfl
      rcases h2 with h2 | h2
      · exact h2 h8
      · exact h2 rfl
    · rintro ⟨h1, h2⟩
      refine ⟨h2, ?_⟩
      right; omega
  · rw [if_neg h]
    constructor
    · intro h1
      exact ⟨fun hij => h (by rw [hij]), h1⟩
    · exact And.right

theorem bitmap_mark_spec {b : Bitmap} {j : Nat} (hj : j < b.nbits) (hm : ¬ b.Marked j) :
    ∃ b', bitmap_mark b j = some b' ∧ b'.nbits = b.nbits ∧ ∀ i, b'.Marked i ↔ i = j ∨ b.Marked i := by
  have h0 : b.v (j / 8) &&& 1#8 <<< (j % 8) = 0 := by
    rw [byte_and_mask]
    intro _
    simpa [Bitmap.Marked] using hm
  exact ⟨b.setWord (j / 8) (b.v (j / 8) ||| 1#8 <<< (j % 8)), if_pos ⟨hj, h0⟩, rfl, marked_or b j⟩

theorem bitmap_unmark_spec {b : Bitmap} {j : Nat} (hj : j < b.nbits) (hm : b.Marked j) :
    ∃ b', bitmap_unmark b j = some b' ∧ b'.nbits = b.nbits ∧
      ∀ i, b'.Marked i ↔ i ≠ j ∧ b.Marked i := by
  have h0 : b.v (j / 8) &&& 1#8 <<< (j % 8) ≠ 0 := by
    rw [ne_eq, byte_and_mask]
    intro h
    have := h (Nat.mod_lt j (by omega))
    rw [Bitmap.Marked, this] at hm
    cases hm
  exact ⟨b.setWord (j / 8) (b.v (j / 8) &&& ~~~(1#8 <<< (j % 8))), if_pos ⟨hj, h0⟩, rfl,
    marked_andnot b j⟩

theorem exists_free_bit (w : Byte) (h : w ≠ WORD_ALLBITS) : ∃ k < 8, w.getLsbD k = false := by
  by_contra hall
  apply h
  apply BitVec.eq_of_getLsbD_eq
  intro k hk
  have h1 : w.getLsbD k = true := by
    by_contra hf
    exact hall ⟨k, hk, by simpa using hf⟩
  rw [h1]
  rcases (by omega : k = 0 ∨ k = 1 ∨ k = 2 ∨ k = 3 ∨ k = 4 ∨ k = 5 ∨ k = 6 ∨ k = 7) with
    rfl | rfl | rfl | rfl | rfl | rfl | rfl | rfl <;> rfl

theorem marked_of_full {b : Bitmap} {i : Nat} (h : b.v (i / 8) = WORD_ALLBITS) : b.Marked i := by
  have h8 : i % 8 < 8 := Nat.mod_lt _ (by omega)
  rw [Bitmap.Marked, h]
  generalize i % 8 = k at h8
  revert k
  decide

def Bitmap.Spare (b : Bitmap) : Prop := ∀ i, b.nbits ≤ i → i < 8 * ((b.nbits + 7) / 8) → b.Marked i

theorem divroundup_eq {nbits : Nat} (h32 : nbits ≤ 2 ^ 32 - 8) : DIVROUNDUP nbits BITS_PER_WORD = (nbits + 7) / 8 := by
  unfold DIVROUNDUP BITS_PER_WORD
  omega

theorem bitmap_alloc_cases {b : Bitmap} (h32 : b.nbits ≤ 2 ^ 32 - 8) (hspare : b.Spare) :
    bitmap_alloc b = some (.error .ENOSPC) ∧ (∀ i < b.nbits, b.Marked i) ∨
    ∃ b' j, bitmap_alloc b = some (.ok (b', j)) ∧ j < b.nbits ∧ ¬ b.Marked j ∧ (∀ i < j, b.Marked i) ∧
      b'.nbits = b.nbits ∧ ∀ i, b'.Marked i ↔ i = j ∨ b.Marked i := by
  unfold bitmap_alloc
  rw [divroundup_eq h32]
  cases hf : (List.range ((b.nbits + 7) / 8)).find? fun ix => b.v ix ≠ WORD_ALLBITS with
  | none =>
    refine .inl ⟨rfl, fun i hi => marked_of_full ?_⟩
    have := List.find?_eq_none.mp hf (i / 8) (List.mem_range.mpr (by omega))
    simpa using this
  | some ix =>
    right
    obtain ⟨hne, hix, hfull⟩ := List.find?_range_eq_some.mp hf
    simp only [List.mem_range] at hix
    obtain ⟨k, hk, hfree⟩ := exists_free_bit (b.v ix) (by simpa using hne)
    dsimp only
    cases ho : (List.range BITS_PER_WORD).find? fun offset => b.v ix &&& (1#8 <<< offset) = 0 with
    | none =>
      rw [List.find?_eq_none] at ho
      have h0 : b.v ix &&& 1#8 <<< k = 0 := (byte_and_mask _ _).mpr fun _ => hfree
      exact absurd (decide_eq_true h0) (ho k (List.mem_range.mpr hk))
    | some o =>
      obtain ⟨h0, ho8, hset⟩ := List.find?_range_eq_some.mp ho
      simp only [List.mem_range, BITS_PER_WORD, decide_eq_true_eq] at ho8 h0
      have e1 : (ix * 8 + o) / 8 = ix := by omega
      have e2 : (ix * 8 + o) % 8 = o := by omega
      have hoff : ¬ b.Marked (ix * 8 + o) := by
        rw [Bitmap.Marked, e1, e2, (byte_and_mask _ _).mp h0 ho8]
        simp
      -- a free bit of the last word is not a spare one
      have hj : ix * 8 + o < b.nbits := by
        by_contra hge
        exact hoff (hspare _ (by omega) (by omega))
      refine ⟨b.setWord ix (b.v ix ||| 1#8 <<< o), ix * 8 + o, if_pos hj, hj, hoff, ?_, rfl, ?_⟩
      · intro i hi
        rcases Nat.lt_or_ge (i / 8) ix with hlt | hge
        · exact marked_of_full (by simpa using hfull _ hlt)
        · -- a bit of the same word
          have hsame : i / 8 = ix := by omega
          have hbit := hset (i % 8) (by omega)
          simp only [byte_and_mask, Bool.not_eq_eq_eq_not, Bool.not_true, decide_eq_false_iff_not] at hbit
          rw [Bitmap.Marked, hsame]
          by_contra hn
          exact hbit fun _ => by simpa using hn
      · intro i
        have := marked_or b (ix * 8 + o) i
        rwa [e1, e2] at this

theorem spare_of_words {b : Bitmap} (hw : b.nbits % 8 = 0) : b.Spare := by
  intro i h1 h2
  omega

end Os161
