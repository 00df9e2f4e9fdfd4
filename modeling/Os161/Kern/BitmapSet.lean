import Mathlib.Data.Finset.Erase
import Mathlib.Data.Finset.Filter
import Mathlib.Data.Finset.Range
import Os161.Kern.Bitmap
import Os161.Lib.Calls

/-! # The bitmap is a set with first-fit allocation -/

namespace Os161

open Calls

/-! ## Calls -/

inductive BitmapCall where
  | mark (index : Nat)
  | unmark (index : Nat)
  | isset (index : Nat)
  | alloc
  deriving DecidableEq, Repr

inductive BitmapAnswer where
  | done
  | isset (b : Bool)
  | index (i : Nat)
  | failed (e : Errno)
  deriving DecidableEq, Repr

def bitmap_call : BitmapCall → Bitmap → Option (BitmapAnswer × Bitmap)
  | .mark i, b => (bitmap_mark b i).map fun b => (.done, b)
  | .unmark i, b => (bitmap_unmark b i).map fun b => (.done, b)
  | .isset i, b => some (.isset (bitmap_isset b i), b)
  | .alloc, b => (bitmap_alloc b).map fun r =>
    match r with
    | .error e => (.failed e, b)
    | .ok (b', i) => (.index i, b')

def Bitmap.toSet (b : Bitmap) : Finset Nat := (Finset.range b.nbits).filter fun i => bitmap_isset b i = true

def Bitmap.May (b : Bitmap) : BitmapCall → Prop
  | .mark i => i < b.nbits ∧ i ∉ b.toSet
  | .unmark i => i ∈ b.toSet
  | .isset i => i < b.nbits
  | .alloc => True

instance Bitmap.decidableMay (b : Bitmap) : (c : BitmapCall) → Decidable (b.May c)
  | .mark i => inferInstanceAs (Decidable (i < b.nbits ∧ i ∉ b.toSet))
  | .unmark i => inferInstanceAs (Decidable (i ∈ b.toSet))
  | .isset i => inferInstanceAs (Decidable (i < b.nbits))
  | .alloc => isTrue trivial

inductive FirstFit (n : Nat) : Finset Nat → BitmapCall → BitmapAnswer → Finset Nat → Prop
  | mark {S : Finset Nat} {i : Nat} : i < n → i ∉ S → FirstFit n S (.mark i) .done (insert i S)
  | unmark {S : Finset Nat} {i : Nat} : i ∈ S → FirstFit n S (.unmark i) .done (S.erase i)
  | isset {S : Finset Nat} {i : Nat} : i < n → FirstFit n S (.isset i) (.isset (decide (i ∈ S))) S
  | alloc {S : Finset Nat} {i : Nat} :
      i < n → i ∉ S → (∀ j < i, j ∈ S) → FirstFit n S .alloc (.index i) (insert i S)
  | full : FirstFit n (Finset.range n) .alloc (.failed .ENOSPC) (Finset.range n)

/-! ## One call -/

section Call

variable {b b' : Bitmap} {i : Nat}

theorem mem_toSet : i ∈ b.toSet ↔ i < b.nbits ∧ b.Marked i := by
  rw [Bitmap.toSet, Finset.mem_filter, Finset.mem_range, isset_iff]

theorem toSet_insert (hi : i < b.nbits) (hbits : b'.nbits = b.nbits)
    (h : ∀ j, b'.Marked j ↔ j = i ∨ b.Marked j) : b'.toSet = insert i b.toSet := by
  ext j
  rw [Finset.mem_insert, mem_toSet, mem_toSet, hbits, h]
  constructor
  · rintro ⟨hj, rfl | hm⟩
    · exact .inl rfl
    · exact .inr ⟨hj, hm⟩
  · rintro (rfl | ⟨hj, hm⟩)
    · exact ⟨hi, .inl rfl⟩
    · exact ⟨hj, .inr hm⟩

theorem toSet_erase (hbits : b'.nbits = b.nbits) (h : ∀ j, b'.Marked j ↔ j ≠ i ∧ b.Marked j) :
    b'.toSet = b.toSet.erase i := by
  ext j
  rw [Finset.mem_erase, mem_toSet, mem_toSet, hbits, h]
  tauto

theorem Bitmap.Spare.of_marked (h : b.Spare) (hbits : b'.nbits = b.nbits)
    (hm : ∀ j, b.nbits ≤ j → b.Marked j → b'.Marked j) : b'.Spare := by
  intro j h1 h2
  rw [hbits] at h1 h2
  exact hm j h1 (h j h1 h2)

structure Bitmap.Ok (n : Nat) (b : Bitmap) : Prop where
  nbits : b.nbits = n
  spare : b.Spare

theorem bitmap_call_firstFit {n : Nat} (hn : n ≤ 2 ^ 32 - 8) (c : BitmapCall) (b : Bitmap) (h : b.Ok n)
    (hmay : b.May c) :
    ∃ r b', bitmap_call c b = some (r, b') ∧ b'.Ok n ∧ FirstFit n b.toSet c r b'.toSet := by
  obtain ⟨rfl, hspare⟩ := h
  cases c with
  | mark i =>
    have hm : ¬ b.Marked i := fun hm => hmay.2 (mem_toSet.mpr ⟨hmay.1, hm⟩)
    obtain ⟨b', hrun, hbits, hmark⟩ := bitmap_mark_spec hmay.1 hm
    refine ⟨.done, b', ?_, ⟨hbits, ?_⟩, ?_⟩
    · rw [bitmap_call, hrun]
      rfl
    · exact hspare.of_marked hbits fun j _ hj => (hmark j).mpr (.inr hj)
    · rw [toSet_insert hmay.1 hbits hmark]
      exact .mark hmay.1 hmay.2
  | unmark i =>
    obtain ⟨hi, hm⟩ := mem_toSet.mp hmay
    obtain ⟨b', hrun, hbits, hmark⟩ := bitmap_unmark_spec hi hm
    refine ⟨.done, b', ?_, ⟨hbits, ?_⟩, ?_⟩
    · rw [bitmap_call, hrun]
      rfl
    · exact hspare.of_marked hbits fun j hge hj => (hmark j).mpr ⟨by omega, hj⟩
    · rw [toSet_erase hbits hmark]
      exact .unmark hmay
  | isset i =>
    refine ⟨.isset (bitmap_isset b i), b, rfl, ⟨rfl, hspare⟩, ?_⟩
    have hset : bitmap_isset b i = decide (i ∈ b.toSet) := by
      rw [Bool.eq_iff_iff, isset_iff, decide_eq_true_eq, mem_toSet]
      exact ⟨fun hm => ⟨hmay, hm⟩, And.right⟩
    rw [hset]
    exact .isset hmay
  | alloc =>
    rcases bitmap_alloc_cases hn hspare with ⟨hrun, hall⟩ | ⟨b', i, hrun, hi, hfree, hfirst, hbits, hmark⟩
    · have hset : b.toSet = Finset.range b.nbits := by
        ext j
        rw [mem_toSet, Finset.mem_range]
        exact ⟨And.left, fun hj => ⟨hj, hall j hj⟩⟩
      refine ⟨.failed .ENOSPC, b, ?_, ⟨rfl, hspare⟩, ?_⟩
      · rw [bitmap_call, hrun]
        rfl
      · rw [hset]
        exact .full
    · refine ⟨.index i, b', ?_, ⟨hbits, ?_⟩, ?_⟩
      · rw [bitmap_call, hrun]
        rfl
      · exact hspare.of_marked hbits fun j _ hj => (hmark j).mpr (.inr hj)
      · rw [toSet_insert hi hbits hmark]
        refine .alloc hi (fun hs => hfree (mem_toSet.mp hs).2) fun j hj => mem_toSet.mpr ⟨by omega, hfirst j hj⟩

end Call

/-! ## The bitmap from `bitmap_create` -/

theorem bitmap_fill_bit : ∀ overbits < 8, ∀ k < 8, (bitmap_fill 0 overbits).getLsbD k = decide (overbits ≤ k) := by
  decide

theorem bitmap_create_overbits {n : Nat} (hn : n ≤ 2 ^ 32 - 8)
    (hlast : n / BITS_PER_WORD < DIVROUNDUP n BITS_PER_WORD) :
    n / BITS_PER_WORD = DIVROUNDUP n BITS_PER_WORD - 1 ∧
      0 < n - (DIVROUNDUP n BITS_PER_WORD - 1) * BITS_PER_WORD ∧
      n - (DIVROUNDUP n BITS_PER_WORD - 1) * BITS_PER_WORD < BITS_PER_WORD := by
  rw [divroundup_eq hn] at *
  simp only [BITS_PER_WORD] at *
  omega

theorem bitmap_create_marked {n : Nat} (hn : n ≤ 2 ^ 32 - 8) {h h' : Heap} {b : Bitmap}
    (hb : bitmap_create n h = (some b, h')) :
    b.nbits = n ∧ ∀ i < 8 * ((n + 7) / 8), b.Marked i ↔ n ≤ i := by
  have hdiv := divroundup_eq hn
  have hzero : ∀ i, ¬ (Bitmap.mk n fun _ => 0).Marked i := by
    intro i
    simp [Bitmap.Marked]
  unfold bitmap_create at hb
  dsimp only at hb
  cases h1 : kmalloc h with
  | mk ok1 k1 =>
    rw [h1] at hb
    cases ok1 with
    | false => cases hb
    | true =>
      dsimp only at hb
      cases h2 : kmalloc k1 with
      | mk ok2 k2 =>
        rw [h2] at hb
        cases ok2 with
        | false => cases hb
        | true =>
          dsimp only at hb
          split at hb
          · rename_i hlast
            simp only [Prod.mk.injEq, Option.some.injEq] at hb
            obtain ⟨rfl, -⟩ := hb
            refine ⟨rfl, fun i hi => ?_⟩
            obtain ⟨hwords, hpos, hover⟩ := bitmap_create_overbits hn hlast
            rw [marked_setWord, bitmap_fill_bit _ hover _ (Nat.mod_lt _ (by decide))]
            simp only [hdiv, BITS_PER_WORD] at hwords hpos hover ⊢
            split
            · rw [decide_eq_true_eq]
              omega
            · have := hzero i
              simp only [this, false_iff]
              omega
          · rename_i hwhole
            simp only [Prod.mk.injEq, Option.some.injEq] at hb
            obtain ⟨rfl, -⟩ := hb
            refine ⟨rfl, fun i hi => ?_⟩
            have := hzero i
            simp only [this, false_iff]
            simp only [hdiv, BITS_PER_WORD] at hwhole
            omega

/-- After `bitmap_create`, the answers to any calls that respect the assertions are those of a set that begins empty,
and the spare bits of the last word stay on. -/
theorem bitmap_is_set {n : Nat} (hn : n ≤ 2 ^ 32 - 8) {h h' : Heap} {b : Bitmap}
    (hb : bitmap_create n h = (some b, h')) (calls : List BitmapCall) (hl : Legal bitmap_call Bitmap.May calls b) :
    ∃ answers b', run bitmap_call calls b = some (answers, b') ∧ Trace (FirstFit n) ∅ calls answers b'.toSet ∧
      b'.nbits = n ∧ ∀ i, n ≤ i → i < 8 * ((n + 7) / 8) → b'.Marked i := by
  obtain ⟨hbits, hmarked⟩ := bitmap_create_marked hn hb
  have hok : b.Ok n := ⟨hbits, fun i h1 h2 => (hmarked i (by rwa [hbits] at h2)).mpr (by rwa [hbits] at h1)⟩
  have hempty : b.toSet = ∅ := by
    rw [Finset.eq_empty_iff_forall_notMem]
    intro i hi
    obtain ⟨hlt, hm⟩ := mem_toSet.mp hi
    have := (hmarked i (by omega)).mp hm
    omega
  obtain ⟨answers, b', hrun, hok', htrace⟩ := run_trace (Bitmap.Ok n) Bitmap.toSet (bitmap_call_firstFit hn) calls hok hl
  rw [hempty] at htrace
  refine ⟨answers, b', hrun, htrace, hok'.nbits, ?_⟩
  have hspare := hok'.spare
  rwa [Bitmap.Spare, hok'.nbits] at hspare

theorem bitmap_is_set_ten : ∃ b, bitmap_create 10 [] = (some b, []) ∧
    ∃ answers b', run bitmap_call ([.mark 9] ++ List.replicate 9 .alloc ++ [.unmark 4, .alloc, .alloc]) b =
        some (answers, b') ∧
      Trace (FirstFit 10) ∅ ([.mark 9] ++ List.replicate 9 .alloc ++ [.unmark 4, .alloc, .alloc]) answers b'.toSet ∧
      b'.nbits = 10 ∧ ∀ i, 10 ≤ i → i < 8 * ((10 + 7) / 8) → b'.Marked i := by
  have hb : bitmap_create 10 [] = (some ((Bitmap.mk 10 fun _ => 0).setWord 1 (bitmap_fill 0 2)), []) := rfl
  exact ⟨_, hb, bitmap_is_set (by decide) hb _ (by decide)⟩

end Os161
