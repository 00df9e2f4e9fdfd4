import Mathlib.Data.List.Nodup
import Mathlib.Logic.Function.Basic
import Mathlib.Tactic.Common

/-! # Linked lists

A list is a pointer to its first cell and, in every cell, a pointer to the next one.
-/

namespace Links

variable {κ : Type} {next next' : κ → Option κ} {start : Option κ} {k : κ} {l : List κ}

/-- The cells met from a pointer on are `l`. -/
inductive Follows (next : κ → Option κ) : Option κ → List κ → Prop where
  | nil : Follows next none []
  | cons {k : κ} {l : List κ} (h : Follows next (next k) l) : Follows next (some k) (k :: l)

@[simp] theorem follows_nil_iff : Follows next start [] ↔ start = none := by
  constructor
  · rintro ⟨⟩; rfl
  · rintro rfl; exact .nil

@[simp] theorem follows_cons_iff : Follows next start (k :: l) ↔ start = some k ∧ Follows next (next k) l := by
  constructor
  · rintro (_ | h); exact ⟨rfl, h⟩
  · rintro ⟨rfl, h⟩; exact .cons h

theorem Follows.congr (h : Follows next start l) (hl : ∀ k ∈ l, next' k = next k) : Follows next' start l := by
  induction h with
  | nil => exact .nil
  | cons h ih =>
    refine .cons ?_
    rw [hl _ List.mem_cons_self]
    exact ih fun k hk => hl k (List.mem_cons_of_mem _ hk)

theorem Follows.unique {l' : List κ} (h : Follows next start l) (h' : Follows next start l') : l' = l := by
  induction h generalizing l' with
  | nil => cases h'; rfl
  | cons _ ih =>
    cases h' with
    | cons h' => rw [ih h']

variable [DecidableEq κ]

theorem Follows.push (h : Follows next start l) (hk : k ∉ l) : Follows (Function.update next k start) (some k) (k :: l) := by
  refine .cons ?_
  rw [Function.update_self]
  exact h.congr fun j hj => Function.update_of_ne (ne_of_mem_of_not_mem hj hk) _ _

/-! ## Taking a cell out -/

inductive Guy (κ : Type) where
  | first
  | after (k : κ)
  deriving DecidableEq

namespace Guy

def read (start : Option κ) (next : κ → Option κ) : Guy κ → Option κ
  | first => start
  | after k => next k

def writeFirst (start p : Option κ) : Guy κ → Option κ
  | first => p
  | after _ => start

def writeNext (next : κ → Option κ) (p : Option κ) : Guy κ → κ → Option κ
  | first => next
  | after k => Function.update next k p

end Guy

def find (start : Option κ) (next : κ → Option κ) (k : κ) : Nat → Guy κ → Option (Option (Guy κ))
  | 0, _ => none
  | n + 1, guy =>
    match guy.read start next with
    | none => some none
    | some g => if g = k then some (some guy) else find start next k n (.after g)

theorem find_from {l₁ l₂ : List κ} {guy : Guy κ} {n : Nat} (h : Follows next (guy.read start next) (l₁ ++ k :: l₂))
    (hn : (l₁ ++ k :: l₂).Nodup) (hguy : ∀ j, guy = .after j → j ∉ l₁ ++ k :: l₂) (hlen : l₁.length < n) :
    ∃ c, find start next k n guy = some (some c) ∧ (c = guy ∨ ∃ j ∈ l₁, c = .after j) ∧
      Follows (c.writeNext next (next k)) (guy.read (c.writeFirst start (next k)) (c.writeNext next (next k))) (l₁ ++ l₂) := by
  obtain ⟨n, rfl⟩ : ∃ m, n = m + 1 := ⟨n - 1, by omega⟩
  induction l₁ generalizing guy n with
  | nil =>
    obtain ⟨hread, hpath⟩ := follows_cons_iff.mp h
    refine ⟨guy, by rw [find, hread]; simp, .inl rfl, ?_⟩
    cases guy with
    | first => exact hpath
    | after j =>
      have hj : j ∉ l₂ := fun hj => hguy j rfl (List.mem_cons_of_mem _ hj)
      simp only [Guy.read, Guy.writeNext, Function.update_self]
      exact hpath.congr fun i hi => Function.update_of_ne (ne_of_mem_of_not_mem hi hj) _ _
  | cons g l₁ ih =>
    obtain ⟨hread, hpath⟩ := follows_cons_iff.mp h
    have hg : g ∉ l₁ ++ k :: l₂ := (List.nodup_cons.mp hn).1
    have hgk : g ≠ k := fun hgk => hg (by simp [hgk])
    rw [List.length_cons] at hlen
    obtain ⟨n, rfl⟩ : ∃ m, n = m + 1 := ⟨n - 1, by omega⟩
    have hrest : Follows next (Guy.read start next (.after g)) (l₁ ++ k :: l₂) := hpath
    obtain ⟨c, hfind, hc, hp⟩ := ih hrest (List.nodup_cons.mp hn).2
      (fun j hj => by cases hj; exact hg) n (by omega)
    have hafter : ∃ j ∈ g :: l₁, c = .after j := by
      rcases hc with rfl | ⟨j, hj, rfl⟩
      · exact ⟨g, List.mem_cons_self, rfl⟩
      · exact ⟨j, List.mem_cons_of_mem _ hj, rfl⟩
    refine ⟨c, by rw [find, hread]; simp [hgk, hfind], .inr hafter, ?_⟩
    -- the pointer that is written is behind `guy`
    obtain ⟨j, hj, rfl⟩ := hafter
    have hsame : guy.read (Guy.writeFirst start (next k) (.after j)) (Guy.writeNext next (next k) (.after j)) =
        some g := by
      rw [← hread]
      cases guy with
      | first => rfl
      | after i =>
        refine Function.update_of_ne ?_ _ _
        rintro rfl
        exact hguy i rfl (List.mem_append_left _ hj)
    rw [hsame, List.cons_append]
    exact .cons hp

theorem Follows.unlink {n : Nat} (h : Follows next start l) (hn : l.Nodup) (hk : k ∈ l) (hlen : l.length ≤ n) :
    ∃ c, find start next k n .first = some (some c) ∧ (∀ j, c = .after j → j ∈ l) ∧
      Follows (c.writeNext next (next k)) (c.writeFirst start (next k)) (l.erase k) := by
  obtain ⟨l₁, l₂, hk₁, rfl, herase⟩ := List.exists_erase_eq hk
  have hlt : l₁.length < n := by rw [List.length_append, List.length_cons] at hlen; omega
  have hpath : Follows next (Guy.read start next .first) (l₁ ++ k :: l₂) := h
  obtain ⟨c, hfind, hc, hp⟩ := find_from hpath hn (fun _ hj => nomatch hj) hlt
  refine ⟨c, hfind, fun j hj => ?_, herase ▸ hp⟩
  subst hj
  rcases hc with hc | ⟨i, hi, hc⟩
  · cases hc
  · cases hc
    exact List.mem_append_left _ hi

/-! ## The set of cells on a list -/

def Spans (next : κ → Option κ) (start : Option κ) (S : κ → Prop) : Prop :=
  ∃ l, Follows next start l ∧ l.Nodup ∧ ∀ k, k ∈ l ↔ S k

variable {S S' : κ → Prop}

omit [DecidableEq κ] in
theorem Spans.congr (h : Spans next start S) (hnext : ∀ k, S k → next' k = next k) (hS : ∀ k, S' k ↔ S k) :
    Spans next' start S' := by
  obtain ⟨l, hp, hn, hl⟩ := h
  exact ⟨l, hp.congr fun k hk => hnext k ((hl k).mp hk), hn, fun k => (hl k).trans (hS k).symm⟩

theorem Spans.push (h : Spans next start S) (hk : ¬ S k) (hS : ∀ j, S' j ↔ S j ∨ j = k) :
    Spans (Function.update next k start) (some k) S' := by
  obtain ⟨l, hp, hn, hl⟩ := h
  have hkl : k ∉ l := fun hkl => hk ((hl k).mp hkl)
  refine ⟨k :: l, hp.push hkl, List.nodup_cons.mpr ⟨hkl, hn⟩, fun j => ?_⟩
  rw [List.mem_cons, hl, hS, or_comm]

theorem Spans.unlink {n : Nat} (h : Spans next start S) (hk : S k) (hS : ∀ j, S' j ↔ S j ∧ j ≠ k)
    (hlen : ∀ l : List κ, l.Nodup → (∀ j ∈ l, S j) → l.length ≤ n) :
    ∃ c, find start next k n .first = some (some c) ∧ (∀ j, c = .after j → S j) ∧
      Spans (c.writeNext next (next k)) (c.writeFirst start (next k)) S' := by
  obtain ⟨l, hp, hn, hl⟩ := h
  obtain ⟨c, hfind, hc, hpath⟩ := hp.unlink hn ((hl k).mpr hk) (hlen l hn fun j hj => (hl j).mp hj)
  refine ⟨c, hfind, fun j hj => (hl j).mp (hc j hj), l.erase k, hpath, hn.erase k, fun j => ?_⟩
  rw [hn.mem_erase_iff, hl, hS, and_comm]

end Links
