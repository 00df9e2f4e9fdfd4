import Os161.Lib.Runs
import Os161.Libc.Str

/-! # `strtok_r.c` -/

namespace Os161.Libc

open Runs

/-! ## The code

A string that is cut in place is the list of its characters; behind the last one stands its NUL. A pointer into it is an
index, and NULL is `none`.
-/

def strAt (buf : List Byte) (p : Nat) : List Byte := (buf.drop p).takeWhile (· ≠ 0)

def skip (cond : Byte → Bool) (buf : List Byte) (p : Nat) : Nat :=
  p + ((buf.drop p).takeWhile fun c => c ≠ 0 && cond c).length

def strtok_scan (buf seps : List Byte) (start : Nat) : Option Nat × Option Nat × List Byte :=
  let head := skip (fun c => (strchr seps c).isSome) buf start
  if buf.getD head 0 = 0 then (none, none, buf)
  else
    let tail := skip (fun c => (strchr seps c).isNone) buf head
    if buf.getD tail 0 = 0 then (some head, none, buf)
    else (some head, some (tail + 1), buf.set tail 0)

def strtok_r (buf : List Byte) (string : Option Nat) (seps : List Byte) (context : Option Nat) :
    Option Nat × Option Nat × List Byte :=
  match if string.isSome then string else context with
  | none => (none, none, buf)
  | some start => strtok_scan buf seps start

/-! ## A call -/

def Ended (rest : List Byte) : Prop := ∀ c ∈ rest.head?, c = 0

theorem ended_nil : Ended [] := by
  intro c hc
  cases hc

section Call

variable {P s l text A : List Byte}

theorem getD_at (P l : List Byte) : (P ++ l).getD P.length 0 = l.head?.getD 0 := by
  rw [List.getD_append_right _ _ _ _ (Nat.le_refl _), Nat.sub_self]
  cases l <;> rfl

theorem Ended.head_eq (hA : Ended A) : A.head?.getD 0 = 0 := by
  cases A with
  | nil => rfl
  | cons c A => exact hA c rfl

theorem strAt_append (hs : ∀ c ∈ s, c ≠ 0) (hl : Ended l) (P : List Byte) : strAt (P ++ (s ++ l)) P.length = s := by
  rw [strAt, List.drop_left, List.takeWhile_append_of_pos (by simpa using hs)]
  cases l with
  | nil => simp
  | cons c l => simp [hl c rfl]

theorem skip_append {cond : Byte → Bool} (hs : ∀ c ∈ s, c ≠ 0 ∧ cond c = true)
    (hl : ∀ c ∈ l.head?, c = 0 ∨ cond c = false) (P : List Byte) :
    skip cond (P ++ (s ++ l)) P.length = (P ++ s).length := by
  rw [skip, List.drop_left, List.takeWhile_append_of_pos (by simpa using hs), List.length_append]
  cases l with
  | nil => simp
  | cons c l =>
    rcases hl c rfl with hc | hc
    · simp [hc]
    · simp [hc]

variable {seps : List Byte} {rest w : List Byte}

theorem strchr_isSome_eq {c : Byte} (hc : c ≠ 0) : (strchr seps c).isSome = decide (c ∈ seps) := by
  rw [Bool.eq_iff_iff, strchr_isSome hc, decide_eq_true_iff]

theorem strchr_isNone_eq {c : Byte} (hc : c ≠ 0) : (strchr seps c).isNone = !decide (c ∈ seps) := by
  rw [← strchr_isSome_eq hc, Option.not_isSome]

theorem strtok_scan_end (hnul : ∀ c ∈ text, c ≠ 0) (hA : Ended A) (h : ∀ c ∈ text, decide (c ∈ seps) = true) :
    strtok_scan (P ++ (text ++ A)) seps P.length = (none, none, P ++ (text ++ A)) := by
  have hhead : skip (fun c => (strchr seps c).isSome) (P ++ (text ++ A)) P.length = (P ++ text).length := by
    apply skip_append
    · intro c hc
      exact ⟨hnul c hc, by rw [strchr_isSome_eq (hnul c hc), h c hc]⟩
    · intro c hc
      exact .inl (hA c hc)
  rw [strtok_scan, hhead, ← List.append_assoc, getD_at, if_pos hA.head_eq]

theorem strtok_scan_word (hnul : ∀ c ∈ text, c ≠ 0) (hA : Ended A) (h : First (· ∈ seps) text s w rest) :
    strtok_scan (P ++ (text ++ A)) seps P.length =
      if rest = [] then (some (P ++ s).length, none, P ++ (text ++ A))
      else (some (P ++ s).length, some ((P ++ s ++ w).length + 1), P ++ s ++ w ++ 0 :: (rest.tail ++ A)) := by
  obtain ⟨rfl, hs, hne, hw, hstop⟩ := h
  simp only [List.mem_append, or_imp, forall_and] at hnul
  obtain ⟨⟨hs0, hw0⟩, hrest0⟩ := hnul
  obtain ⟨c, w, rfl⟩ := List.exists_cons_of_ne_nil hne
  have hc0 : c ≠ 0 := hw0 c List.mem_cons_self
  have hbuf : P ++ (s ++ (c :: w) ++ rest ++ A) = P ++ (s ++ (c :: w ++ (rest ++ A))) := by simp
  have hhead : skip (fun c => (strchr seps c).isSome) (P ++ (s ++ (c :: w ++ (rest ++ A)))) P.length =
      (P ++ s).length := by
    apply skip_append
    · intro x hx
      exact ⟨hs0 x hx, by rw [strchr_isSome_eq (hs0 x hx), hs x hx]⟩
    · rintro x ⟨⟩
      exact .inr (by rw [strchr_isSome_eq hc0, hw c List.mem_cons_self])
  have htail : skip (fun c => (strchr seps c).isNone) (P ++ s ++ (c :: w ++ (rest ++ A))) (P ++ s).length =
      (P ++ s ++ c :: w).length := by
    apply skip_append
    · intro x hx
      exact ⟨hw0 x hx, by rw [strchr_isNone_eq (hw0 x hx), hw x hx]; rfl⟩
    · intro x hx
      cases rest with
      | nil => exact .inl (hA x hx)
      | cons x rest =>
        obtain ⟨⟩ := hx
        exact .inr (by rw [strchr_isNone_eq (hrest0 x List.mem_cons_self), hstop x rfl]; rfl)
  have hfirst : (P ++ s ++ (c :: w ++ (rest ++ A))).getD (P ++ s).length 0 ≠ 0 := by
    rw [getD_at]
    exact hc0
  have hlast : (P ++ s ++ (c :: w ++ (rest ++ A))).getD (P ++ s ++ c :: w).length 0 = (rest ++ A).head?.getD 0 := by
    rw [← List.append_assoc, getD_at]
  rw [hbuf, strtok_scan, hhead, ← List.append_assoc, if_neg hfirst]
  dsimp only
  rw [htail, hlast]
  cases rest with
  | nil => rw [if_pos rfl, List.nil_append, if_pos hA.head_eq]
  | cons d rest =>
    rw [if_neg (show ¬ (d :: rest ++ A).head?.getD 0 = 0 from hrest0 d List.mem_cons_self), if_neg (by simp)]
    simp

end Call

/-! ## A scan

The calls of one scan: the first has the string, the others the context. Between two of them the caller may change the
word that was returned.
-/

def Left (seps A : List Byte) (n : Nat) (X : List Byte) (context : Option Nat) (ws : List (List Byte)) : Prop :=
  (context = none ∧ X = A ∧ ws = []) ∨
    ∃ text, context = some (n + 1) ∧ X = 0 :: (text ++ A) ∧ (∀ c ∈ text, c ≠ 0) ∧ ws = runs (· ∈ seps) text

def Scanned (seps A P buf : List Byte) (ws : List (List Byte)) (r : Option Nat × Option Nat × List Byte) : Prop :=
  (ws = [] ∧ r = (none, none, buf)) ∨
    ∃ s w X ws', ws = w :: ws' ∧ (∀ c ∈ w, c ≠ 0) ∧ r.1 = some (P ++ s).length ∧ r.2.2 = P ++ s ++ (w ++ X) ∧
      Left seps A (P ++ s ++ w).length X r.2.1 ws'

section Scan

variable {seps A X P text Q : List Byte} {n : Nat} {context : Option Nat} {ws : List (List Byte)}

theorem Left.ended (h : Left seps A n X context ws) (hA : Ended A) : Ended X := by
  rcases h with ⟨-, rfl, -⟩ | ⟨text, -, rfl, -⟩
  · exact hA
  · rintro c ⟨⟩
    rfl

theorem Left.isSuffix (h : Left seps A n X context ws) : A <:+ X := by
  rcases h with ⟨-, rfl, -⟩ | ⟨text, -, rfl, -⟩
  · exact List.suffix_refl _
  · exact ⟨0 :: text, rfl⟩

theorem strtok_scan_scanned (seps : List Byte) (hnul : ∀ c ∈ text, c ≠ 0) (hA : Ended A) (P : List Byte) :
    Scanned seps A P (P ++ (text ++ A)) (runs (· ∈ seps) text) (strtok_scan (P ++ (text ++ A)) seps P.length) := by
  rcases runs_cases (· ∈ seps) text with hall | ⟨s, w, rest, hfirst⟩
  · exact .inl ⟨runs_all hall, strtok_scan_end hnul hA hall⟩
  have hw : ∀ c ∈ w, c ≠ 0 := by
    intro c hc
    exact hnul c (by simp [hfirst.eq, hc])
  rw [strtok_scan_word hnul hA hfirst, hfirst.runs_eq]
  cases rest with
  | nil =>
    refine .inr ⟨s, w, A, [], by simp, hw, rfl, ?_, .inl ⟨rfl, rfl, rfl⟩⟩
    simp [hfirst.eq]
  | cons c rest =>
    have hrest : ∀ c ∈ rest, c ≠ 0 := by
      intro d hd
      exact hnul d (by simp [hfirst.eq, hd])
    refine .inr ⟨s, w, 0 :: (rest ++ A), _, rfl, hw, rfl, ?_, .inr ⟨rest, rfl, rfl, hrest, rfl⟩⟩
    simp

theorem strtok_r_first (seps : List Byte) (hnul : ∀ c ∈ text, c ≠ 0) (hA : Ended A) (P : List Byte) (context : Option Nat) :
    Scanned seps A P (P ++ (text ++ A)) (runs (· ∈ seps) text)
      (strtok_r (P ++ (text ++ A)) (some P.length) seps context) :=
  strtok_scan_scanned seps hnul hA P

theorem strtok_r_next (h : Left seps A Q.length X context ws) (hA : Ended A) :
    Scanned seps A (Q ++ [0]) (Q ++ X) ws (strtok_r (Q ++ X) none seps context) := by
  rcases h with ⟨rfl, rfl, rfl⟩ | ⟨text, rfl, rfl, hnul, rfl⟩
  · exact .inl ⟨rfl, rfl⟩
  · have := strtok_scan_scanned seps hnul hA (Q ++ [0])
    rw [List.append_assoc, List.singleton_append, List.length_append] at this
    exact this

theorem Scanned.around {buf B : List Byte} {r : Option Nat × Option Nat × List Byte} (h : Scanned seps A P buf ws r)
    (hP : B <+: P) (hB : B <+: buf) (hA : A <:+ buf) : B <+: r.2.2 ∧ A <:+ r.2.2 := by
  rcases h with ⟨-, rfl⟩ | ⟨s, w, X, ws', -, -, -, hline, hleft⟩
  · exact ⟨hB, hA⟩
  · rw [hline]
    constructor
    · rw [List.append_assoc]
      exact hP.trans (List.prefix_append ..)
    · exact hleft.isSuffix.trans (by rw [← List.append_assoc]; exact List.suffix_append ..)

theorem strtok_r_length (buf : List Byte) (string : Option Nat) (seps : List Byte) (context : Option Nat) :
    (strtok_r buf string seps context).2.2.length = buf.length := by
  have hscan : ∀ start, (strtok_scan buf seps start).2.2.length = buf.length := by
    intro start
    rw [strtok_scan]
    dsimp only
    split
    · rfl
    · split
      · rfl
      · exact List.length_set
  rw [strtok_r]
  split
  · rfl
  · exact hscan _

end Scan

end Os161.Libc
