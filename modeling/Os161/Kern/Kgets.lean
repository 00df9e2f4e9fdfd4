import Mathlib.Data.List.DropRight
import Os161.Libc.Str

/-! # `lib/kgets.c`: a line from the console -/

namespace Os161.Kgets

open Libc

/-! ## The code -/

inductive Output where
  | putch (c : Byte)
  | beep
  deriving DecidableEq, Repr

structure State where
  buf : Mem
  pos : Nat
  out : List Output

def put (text : List Nat) : List Output := text.map fun c => .putch (BitVec.ofNat 8 c)

def backsp : List Output := put [8, 32, 8]

def eraseWhile (more : Byte → Bool) (buf : Mem) : Nat → List Output → State
  | 0, out => ⟨buf, 0, out⟩
  | pos + 1, out => if more (buf pos) then eraseWhile more buf pos (out ++ backsp) else ⟨buf, pos + 1, out⟩

def kgets_key (maxlen : Nat) (s : State) (ch : Int) : State × Bool :=
  if ch = 10 ∨ ch = 13 then
    ({ s with out := s.out ++ put [10] }, true)
  else if 32 ≤ ch ∧ ch < 127 ∧ s.pos < maxlen - 1 then
    (⟨Function.update s.buf s.pos (BitVec.ofInt 8 ch), s.pos + 1, s.out ++ [.putch (BitVec.ofInt 8 ch)]⟩, false)
  else if (ch = 8 ∨ ch = 127) ∧ s.pos > 0 then
    (⟨s.buf, s.pos - 1, s.out ++ backsp⟩, false)
  else if ch = 3 then
    -- `^C`
    (⟨s.buf, 0, s.out ++ put [94, 67, 10]⟩, true)
  else if ch = 18 then
    -- `^R`, printed with what the buffer holds up to the NUL
    let buf := Function.update s.buf s.pos 0
    (⟨buf, s.pos, s.out ++ put [94, 82, 10] ++ (str buf maxlen).map .putch⟩, false)
  else if ch = 21 then
    -- `^U`
    (eraseWhile (fun _ => true) s.buf s.pos s.out, false)
  else if ch = 23 then
    -- `^W`
    let t := eraseWhile (· == 32) s.buf s.pos s.out
    (eraseWhile (· != 32) t.buf t.pos t.out, false)
  else
    ({ s with out := s.out ++ [.beep] }, false)

/-- The loop of `kgets` on the characters that `getch` will return, with those it has not asked for. `none`:
it still waits for one. -/
def kgets_loop (maxlen : Nat) : State → List Int → Option (State × List Int)
  | _, [] => none
  | s, ch :: rest =>
    if (kgets_key maxlen s ch).2 then some ((kgets_key maxlen s ch).1, rest)
    else kgets_loop maxlen (kgets_key maxlen s ch).1 rest

def kgets (buf : Mem) (maxlen : Nat) (input : List Int) : Option (State × List Int) :=
  (kgets_loop maxlen ⟨buf, 0, []⟩ input).map fun r =>
    ({ r.1 with buf := Function.update r.1.buf r.1.pos 0 }, r.2)

/-! ## The editor -/

def dropWord (line : List Byte) : List Byte := (line.rdropWhile (· == 32)).rdropWhile (· != 32)

def edit (maxlen : Nat) (line : List Byte) (ch : Int) : List Byte :=
  if 32 ≤ ch ∧ ch ≤ 126 then
    if line.length < maxlen - 1 then line ++ [BitVec.ofInt 8 ch] else line
  else if ch = 8 ∨ ch = 127 then line.dropLast
  else if ch = 21 then []
  else if ch = 23 then dropWord line
  else line

def Ends (ch : Int) : Prop := ch = 10 ∨ ch = 13 ∨ ch = 3

structure Shows (maxlen : Nat) (before : Mem) (s : State) (line : List Byte) : Prop where
  pos : s.pos = line.length
  room : line.length ≤ maxlen - 1
  begins : Begins s.buf line
  printable : ∀ c ∈ line, c ≠ 0
  outside : ∀ i, maxlen ≤ i → s.buf i = before i

section Keys

variable {maxlen : Nat} {before : Mem} {s : State} {line : List Byte}

theorem Shows.shorten (h : Shows maxlen before s line) {t : List Byte} (ht : t <+: line) (out : List Output) :
    Shows maxlen before ⟨s.buf, t.length, out⟩ t where
  pos := rfl
  room := Nat.le_trans ht.length_le h.room
  begins := h.begins.of_isPrefix ht
  printable := fun c hc => h.printable c (ht.subset hc)
  outside := h.outside

theorem Shows.type (h : Shows maxlen before s line) {c : Byte} (hc : c ≠ 0) (hroom : line.length < maxlen - 1)
    (out : List Output) :
    Shows maxlen before ⟨Function.update s.buf s.pos c, s.pos + 1, out⟩ (line ++ [c]) where
  pos := by rw [h.pos, List.length_append, List.length_singleton]
  room := by rw [List.length_append, List.length_singleton]; omega
  begins := by
    rw [h.pos, begins_snoc]
    exact ⟨h.begins.update (Nat.le_refl _) c, Function.update_self ..⟩
  printable := by
    intro x hx
    rw [List.mem_append, List.mem_singleton] at hx
    rcases hx with hx | rfl
    · exact h.printable x hx
    · exact hc
  outside := by
    intro i hi
    have := h.pos
    exact (Function.update_of_ne (show i ≠ s.pos by omega) ..).trans (h.outside i hi)

theorem Shows.terminate (h : Shows maxlen before s line) (hmax : 1 ≤ maxlen) (out : List Output) :
    Shows maxlen before ⟨Function.update s.buf s.pos 0, s.pos, out⟩ line where
  pos := h.pos
  room := h.room
  begins := h.begins.update (Nat.le_of_eq h.pos.symm) 0
  printable := h.printable
  outside := by
    intro i hi
    have := h.pos
    have := h.room
    exact (Function.update_of_ne (show i ≠ s.pos by omega) ..).trans (h.outside i hi)

/-- The loops that erase: the induction is on the line from its end. -/
theorem eraseWhile_shows (more : Byte → Bool) (h : Shows maxlen before s line) :
    Shows maxlen before (eraseWhile more s.buf s.pos s.out) (line.rdropWhile more) := by
  induction line using List.reverseRecOn generalizing s with
  | nil =>
    rw [h.pos, List.length_nil, eraseWhile, List.rdropWhile_nil]
    exact h.shorten (List.prefix_refl _) _
  | append_singleton line c ih =>
    have hlast := (begins_snoc.mp h.begins).2
    rw [h.pos, List.length_append, List.length_singleton, eraseWhile, hlast, List.rdropWhile_concat]
    split
    · exact ih (h.shorten (List.prefix_append line [c]) _)
    · have hkeep := h.shorten (List.prefix_refl _) s.out
      rwa [List.length_append, List.length_singleton] at hkeep

theorem rdropWhile_all (line : List Byte) : line.rdropWhile (fun _ => true) = [] :=
  List.rdropWhile_eq_nil_iff.mpr fun _ _ => rfl

theorem ofInt_ne_zero {ch : Int} (h1 : 32 ≤ ch) (h2 : ch ≤ 126) : BitVec.ofInt 8 ch ≠ 0 := by
  intro h
  have := congrArg BitVec.toNat h
  simp at this
  omega

theorem kgets_key_edits (h : Shows maxlen before s line) (hmax : 1 ≤ maxlen) {ch : Int} (hch : ¬ Ends ch) :
    (kgets_key maxlen s ch).2 = false ∧ Shows maxlen before (kgets_key maxlen s ch).1 (edit maxlen line ch) := by
  obtain ⟨hnl, hcr, hc⟩ : ch ≠ 10 ∧ ch ≠ 13 ∧ ch ≠ 3 := by
    unfold Ends at hch
    omega
  have hpos := h.pos
  have hsame : ∀ out, Shows maxlen before ⟨s.buf, s.pos, out⟩ line := by
    intro out
    rw [h.pos]
    exact h.shorten (List.prefix_refl _) out
  unfold kgets_key edit
  rw [if_neg (by omega)]
  by_cases hprint : 32 ≤ ch ∧ ch ≤ 126
  · rw [if_pos hprint]
    by_cases hroom : line.length < maxlen - 1
    · rw [if_pos (by omega), if_pos hroom]
      exact ⟨rfl, h.type (ofInt_ne_zero hprint.1 hprint.2) hroom _⟩
    · -- the buffer is full: no other branch is for this key
      rw [if_neg (by omega), if_neg (by omega), if_neg hc, if_neg (by omega), if_neg (by omega), if_neg (by omega),
        if_neg hroom]
      exact ⟨rfl, hsame _⟩
  rw [if_neg hprint, if_neg (by omega)]
  by_cases hback : ch = 8 ∨ ch = 127
  · rw [if_pos hback]
    by_cases hempty : s.pos > 0
    · rw [if_pos ⟨hback, hempty⟩, h.pos, ← List.length_dropLast]
      exact ⟨rfl, h.shorten (List.dropLast_prefix line) _⟩
    · -- an empty line: no other branch is for this key
      obtain rfl : line = [] := List.length_eq_zero_iff.mp (by omega)
      rw [if_neg (fun hc => hempty hc.2), if_neg hc, if_neg (by omega), if_neg (by omega), if_neg (by omega)]
      exact ⟨rfl, hsame _⟩
  rw [if_neg hback, if_neg (fun hc => hback hc.1), if_neg hc]
  by_cases hr : ch = 18
  · rw [if_pos hr, if_neg (by omega), if_neg (by omega)]
    exact ⟨rfl, h.terminate hmax _⟩
  rw [if_neg hr]
  by_cases hu : ch = 21
  · rw [if_pos hu, if_pos hu]
    have herase := eraseWhile_shows (fun _ => true) h
    rw [rdropWhile_all] at herase
    exact ⟨rfl, herase⟩
  rw [if_neg hu, if_neg hu]
  by_cases hw : ch = 23
  · rw [if_pos hw, if_pos hw]
    exact ⟨rfl, eraseWhile_shows _ (eraseWhile_shows _ h)⟩
  · rw [if_neg hw, if_neg hw]
    exact ⟨rfl, hsame _⟩

theorem kgets_key_ends (h : Shows maxlen before s line) {ch : Int} (hch : Ends ch) :
    (kgets_key maxlen s ch).2 = true ∧
      Shows maxlen before (kgets_key maxlen s ch).1 (if ch = 3 then [] else line) := by
  unfold kgets_key
  rcases hch with rfl | rfl | rfl
  · have := h.shorten (List.prefix_refl _) (s.out ++ put [10])
    rw [← h.pos] at this
    exact ⟨rfl, this⟩
  · have := h.shorten (List.prefix_refl _) (s.out ++ put [10])
    rw [← h.pos] at this
    exact ⟨rfl, this⟩
  · rw [if_neg (by decide), if_neg (by omega), if_neg (by omega), if_pos rfl, if_pos rfl]
    exact ⟨rfl, h.shorten List.nil_prefix _⟩

/-- The loop stops at the first key that ends the line; the induction is on the keys before it. -/
theorem kgets_loop_edits (h : Shows maxlen before s line) (hmax : 1 ≤ maxlen) (keys : List Int)
    (hkeys : ∀ ch ∈ keys, ¬ Ends ch) {last : Int} (hlast : Ends last) (rest : List Int) :
    ∃ t, kgets_loop maxlen s (keys ++ last :: rest) = some (t, rest) ∧
      Shows maxlen before t (if last = 3 then [] else keys.foldl (edit maxlen) line) := by
  induction keys generalizing s line with
  | nil =>
    obtain ⟨hstop, hline⟩ := kgets_key_ends h hlast
    rw [List.nil_append, kgets_loop, if_pos hstop]
    exact ⟨_, rfl, hline⟩
  | cons ch keys ih =>
    obtain ⟨hgo, hline⟩ := kgets_key_edits h hmax (hkeys ch List.mem_cons_self)
    rw [List.cons_append, kgets_loop, hgo]
    exact ih hline fun c hc => hkeys c (List.mem_cons_of_mem ch hc)

end Keys

/-- `kgets` returns at the first newline, carriage return or `^C`, with the line of the editor and a NUL in the buffer,
and has written only there. -/
theorem kgets_edits_line (buf : Mem) {maxlen : Nat} (hmax : 1 ≤ maxlen) (keys : List Int)
    (hkeys : ∀ ch ∈ keys, ¬ Ends ch) {last : Int} (hlast : Ends last) (rest : List Int) :
    ∃ s line, kgets buf maxlen (keys ++ last :: rest) = some (s, rest) ∧
      line = (if last = 3 then [] else keys.foldl (edit maxlen) []) ∧
      str s.buf maxlen = line ∧ line.length < maxlen ∧ s.buf line.length = 0 ∧
      ∀ i, maxlen ≤ i → s.buf i = buf i := by
  have hstart : Shows maxlen buf ⟨buf, 0, []⟩ [] :=
    ⟨rfl, Nat.zero_le _, begins_nil buf, by simp, fun _ _ => rfl⟩
  obtain ⟨t, hrun, hshows⟩ := kgets_loop_edits hstart hmax keys hkeys hlast rest
  have hend := hshows.terminate hmax t.out
  have hroom := hend.room
  have hzero : Function.update t.buf t.pos 0 (if last = 3 then [] else keys.foldl (edit maxlen) []).length = 0 := by
    rw [← hshows.pos, Function.update_self]
  refine ⟨⟨Function.update t.buf t.pos 0, t.pos, t.out⟩, _, ?_, rfl, ?_, by omega, hzero, hend.outside⟩
  · rw [kgets, hrun]
    rfl
  · exact hend.begins.str_eq hzero hend.printable (by omega)

/-- `ab cd`, a backspace, `^W` and `d` typed into four bytes. -/
theorem kgets_edits_line_word : ∃ s line,
    kgets (fun _ => 7) 4 ([97, 98, 32, 99, 100, 8, 23, 100] ++ 10 :: [120]) = some (s, [120]) ∧
      line = (if (10 : Int) = 3 then [] else [97, 98, 32, 99, 100, 8, 23, 100].foldl (edit 4) []) ∧
      str s.buf 4 = line ∧ line.length < 4 ∧ s.buf line.length = 0 ∧ ∀ i, 4 ≤ i → s.buf i = 7 :=
  kgets_edits_line (fun _ => 7) (by decide) [97, 98, 32, 99, 100, 8, 23, 100] (by unfold Ends; decide) (.inl rfl) [120]

end Os161.Kgets
