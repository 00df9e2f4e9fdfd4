import Mathlib.Data.List.TakeWhile
import Os161.Vfs.Balance

/-! # The start of a path

`getdevice` and `vfs_setbootfs` on the buffers they are given. `Path.lean` and `Balance.lean` have them as
functions of strings; here are their loops, the byte that `getdevice` overwrites and the pointer it hands back.
-/

namespace Os161.AnyFs.Prefix

open Prog Words

inductive Halt where
  | vop (p : VopPanic)
  | getdevice_mark | getdevice_colon
  deriving DecidableEq, Repr

variable {ν σ : Type} [DecidableEq ν] (ops : Ops ν σ)

abbrev BufProg (ν σ : Type) := Prog Halt Errno (Vnodes ν σ × Mem)

def onVnodes {α : Type} (m : VopProg ν σ α) : BufProg ν σ α := fun x =>
  match m x.1 with
  | .ok (r, s) => .ok (r, (s, x.2))
  | .error p => .error (.vop p)

section

variable {α β : Type} {x y : Vnodes ν σ × Mem} {m : VopProg ν σ α}

omit [DecidableEq ν] in
theorem onVnodes_error {e : Errno} (h : onVnodes m x = .ok (.error e, y)) : m x.1 = .ok (.error e, y.1) := by
  rw [onVnodes] at h
  split at h
  · rename_i r s hm
    cases h
    exact hm
  · cases h

omit [DecidableEq ν] in
theorem onVnodes_bind (f : α → VopProg ν σ β) : onVnodes (m >>= f) x = (onVnodes m >>= fun a => onVnodes (f a)) x := by
  rw [onVnodes, bind_run, bind_run, onVnodes]
  cases m x.1 with
  | error p => rfl
  | ok y =>
    obtain ⟨_ | a, t⟩ := y
    all_goals rfl

end

/-! ## `getdevice` -/

structure Found where
  slash : Int
  colon : Int
  deriving DecidableEq, Repr

def getdevice_find (path : Mem) : Nat → Nat → Found
  | 0, _ => ⟨-1, -1⟩
  | n + 1, i =>
    if path i = 0 then ⟨-1, -1⟩
    else if path i = COLON then ⟨-1, i⟩
    else if path i = SLASH then ⟨i, -1⟩
    else getdevice_find path n (i + 1)

def getdevice_skip (path : Mem) : Nat → Nat → Nat
  | 0, i => i
  | n + 1, i => if path (i + 1) = SLASH then getdevice_skip path n (i + 1) else i

/-- `n` is no less than the length of the path. The result is the index of the subpath in the buffer, and
the vnode to start from. -/
def getdevice (n : Nat) : BufProg ν σ (Nat × Option ν) := do
  let x ← get
  let path := x.2
  let found := getdevice_find path n 0
  if found.colon < 0 ∧ found.slash ≠ 0 then
    let startvn ← onVnodes getdevice_cwd
    return (0, startvn)
  else if found.colon > 0 then
    let colon := found.colon.toNat
    let path := Function.update path colon 0
    set (x.1, path)
    let startvn ← onVnodes (vfs_getroot_ref ops (.ofBytes (cstr path (n + 1))))
    return (getdevice_skip path n colon + 1, startvn)
  else
    ensure (found.colon = 0 ∨ found.slash = 0) .getdevice_mark
    if path 0 = SLASH then
      let startvn ← onVnodes getdevice_boot
      return (getdevice_skip path n 0 + 1, startvn)
    else
      ensure (path 0 = COLON) .getdevice_colon
      let startvn ← onVnodes (getdevice_root ops)
      return (getdevice_skip path n 0 + 1, startvn)

/-! ## `vfs_setbootfs` -/

def strchr (s : List Byte) (c : Byte) : Option (List Byte) :=
  if c ∈ s then some (s.dropWhile (· ≠ c)) else none

def snprintf_str (len : Nat) (s : CStr) : List Byte := s.chars.take (len - 1)

def vfs_setbootfs (fsname : CStr) : VopProg ν σ Unit := do
  let tmp := snprintf_str (NAME_MAX + 1 - 1) fsname
  let tmp ← (match strchr tmp COLON with
    | some s => if s.length > 0 then throw .EINVAL else pure tmp
    | none => pure (tmp ++ [COLON]))
  vfs_chdir ops (.ofBytes tmp)
  let newguy ← vfs_getcurdir
  change_bootfs ops (some newguy)

/-! ## Grammar -/

inductive Start where
  | device (name : CStr)
  | boot | root | cwd

def Start.exec : Start → VopProg ν σ (Option ν)
  | .device name => vfs_getroot_ref ops name
  | .boot => getdevice_boot
  | .root => getdevice_root ops
  | .cwd => getdevice_cwd

def Marked (p : CStr) (i : Nat) : Prop := p.chars[i]? = some COLON ∨ p.chars[i]? = some SLASH

def FirstColon (p : CStr) (k : Nat) : Prop := p.chars[k]? = some COLON ∧ ∀ j < k, ¬ Marked p j

def unslashed (p : CStr) (i : Nat) : List Byte := (p.chars.drop i).dropWhile (· = SLASH)

/-- The forms of a path: `device:path`, `/path`, `:path`, and any other. -/
inductive Grammar (p : CStr) : Start → List Byte → Prop
  | device {k : Nat} (hk : 0 < k) (h : FirstColon p k) :
    Grammar p (.device (.ofBytes (p.chars.take k))) (unslashed p (k + 1))
  | boot (h : p.chars[0]? = some SLASH) : Grammar p .boot (unslashed p 1)
  | root (h : p.chars[0]? = some COLON) : Grammar p .root (unslashed p 1)
  | cwd (h : ¬ Marked p 0) (hk : ∀ k, ¬ FirstColon p k) : Grammar p .cwd p.chars

section Grammar

variable {p : CStr}

theorem FirstColon.unique {k k' : Nat} (h : FirstColon p k) (h' : FirstColon p k') : k = k' := by
  rcases Nat.lt_trichotomy k k' with hlt | rfl | hlt
  · exact absurd (.inl h.1) (h'.2 k hlt)
  · rfl
  · exact absurd (.inl h'.1) (h.2 k' hlt)

theorem slash_ne_colon : SLASH ≠ COLON := by decide

theorem Grammar.unique {a b : Start} {l m : List Byte} (h : Grammar p a l) (h' : Grammar p b m) : a = b ∧ l = m := by
  cases h with
  | device hk hfirst =>
    cases h' with
    | device hk' hfirst' =>
      obtain rfl := hfirst.unique hfirst'
      exact ⟨rfl, rfl⟩
    | boot h0 => exact absurd (.inr h0) (hfirst.2 0 hk)
    | root h0 => exact absurd (.inl h0) (hfirst.2 0 hk)
    | cwd _ hnone => exact absurd hfirst (hnone _)
  | boot h0 =>
    cases h' with
    | device hk' hfirst' => exact absurd (.inr h0) (hfirst'.2 0 hk')
    | boot => exact ⟨rfl, rfl⟩
    | root h0' => exact absurd (Option.some.inj (h0.symm.trans h0')) slash_ne_colon
    | cwd hmark => exact absurd (.inr h0) hmark
  | root h0 =>
    cases h' with
    | device hk' hfirst' => exact absurd (.inl h0) (hfirst'.2 0 hk')
    | boot h0' => exact absurd (Option.some.inj (h0'.symm.trans h0)) slash_ne_colon
    | root => exact ⟨rfl, rfl⟩
    | cwd hmark => exact absurd (.inl h0) hmark
  | cwd hmark hnone =>
    cases h' with
    | device _ hfirst' => exact absurd hfirst' (hnone _)
    | boot h0 => exact absurd (.inr h0) hmark
    | root h0 => exact absurd (.inl h0) hmark
    | cwd => exact ⟨rfl, rfl⟩

theorem ofBytes_chars {l : List Byte} (h : ∀ c ∈ l, c ≠ 0) : (CStr.ofBytes l).chars = l := by
  simpa [CStr.ofBytes] using h

def suffix (p : CStr) (i : Nat) : CStr := ⟨p.chars.drop i, fun c hc => p.no_nul c (List.mem_of_mem_drop hc)⟩

theorem CStr.ext_chars {a b : CStr} (h : a.chars = b.chars) : a = b := by
  cases a
  cases b
  simpa using h

end Grammar

/-! ## The loops -/

section Loops

variable {p : CStr} {path : Mem} {n : Nat}

def Spells (path : Mem) (p : CStr) : Prop := ∀ i ≤ p.chars.length, path i = p.chars.getD i 0

theorem getD_eq_iff {l : List Byte} {i : Nat} {c : Byte} (hc : c ≠ 0) : l.getD i 0 = c ↔ l[i]? = some c := by
  rw [List.getD_eq_getElem?_getD]
  cases hget : l[i]? with
  | none => simpa using hc.symm
  | some d => simp

theorem Spells.char_iff (h : Spells path p) {i : Nat} (hi : i ≤ p.chars.length) {c : Byte} (hc : c ≠ 0) :
    path i = c ↔ p.chars[i]? = some c := by
  rw [h i hi, getD_eq_iff hc]

theorem Spells.nul_iff (h : Spells path p) {i : Nat} (hi : i ≤ p.chars.length) : path i = 0 ↔ i = p.chars.length := by
  rw [h i hi]
  constructor
  · intro h0
    by_contra hne
    have hlt : i < p.chars.length := by omega
    rw [List.getD_eq_getElem _ _ hlt] at h0
    exact p.no_nul _ (List.getElem_mem hlt) h0
  · rintro rfl
    simp

theorem colon_ne_zero : COLON ≠ 0 := by decide
theorem slash_ne_zero : SLASH ≠ 0 := by decide

inductive Finds (p : CStr) (i : Nat) : Found → Prop
  | none (h : ∀ j, i ≤ j → ¬ Marked p j) : Finds p i ⟨-1, -1⟩
  | colon {k : Nat} (hk : i ≤ k) (h : ∀ j, i ≤ j → j < k → ¬ Marked p j) (hc : p.chars[k]? = some COLON) :
    Finds p i ⟨-1, k⟩
  | slash {k : Nat} (hk : i ≤ k) (h : ∀ j, i ≤ j → j < k → ¬ Marked p j) (hc : p.chars[k]? = some SLASH) :
    Finds p i ⟨k, -1⟩

theorem not_marked_of_length_le {i : Nat} (h : p.chars.length ≤ i) : ¬ Marked p i := by
  simp [Marked, List.getElem?_eq_none h]

theorem Finds.step {i : Nat} {f : Found} (h : Finds p (i + 1) f) (hi : ¬ Marked p i) : Finds p i f := by
  have hall : ∀ j, i ≤ j → (i + 1 ≤ j → ¬ Marked p j) → ¬ Marked p j := by
    intro j hj hnext
    rcases Nat.eq_or_lt_of_le hj with rfl | hlt
    · exact hi
    · exact hnext hlt
  cases h with
  | none h => exact .none fun j hj => hall j hj (h j)
  | colon hk h hc => exact .colon (by omega) (fun j hj hlt => hall j hj fun hle => h j hle hlt) hc
  | slash hk h hc => exact .slash (by omega) (fun j hj hlt => hall j hj fun hle => h j hle hlt) hc

theorem getdevice_find_spec (h : Spells path p) {i : Nat} (hi : i ≤ p.chars.length) (hn : p.chars.length ≤ n + i) :
    Finds p i (getdevice_find path n i) := by
  induction n generalizing i with
  | zero => exact .none fun j hj => not_marked_of_length_le (by omega)
  | succ n ih =>
    unfold getdevice_find
    split
    · rename_i h0
      have hend := (h.nul_iff hi).1 h0
      exact .none fun j hj => not_marked_of_length_le (by omega)
    · rename_i h0
      have hlt : i < p.chars.length := by
        have := mt (h.nul_iff hi).2 h0
        omega
      split
      · rename_i hc
        exact .colon le_rfl (fun j _ _ => by omega) ((h.char_iff hi colon_ne_zero).1 hc)
      · rename_i hc
        split
        · rename_i hs
          exact .slash le_rfl (fun j _ _ => by omega) ((h.char_iff hi slash_ne_zero).1 hs)
        · rename_i hs
          refine (ih (by omega) (by omega)).step ?_
          rintro (hm | hm)
          · exact hc ((h.char_iff hi colon_ne_zero).2 hm)
          · exact hs ((h.char_iff hi slash_ne_zero).2 hm)

theorem unslashed_slash {i : Nat} (h : p.chars[i]? = some SLASH) : unslashed p i = unslashed p (i + 1) := by
  obtain ⟨hi, hget⟩ := List.getElem?_eq_some_iff.1 h
  rw [unslashed, List.drop_eq_getElem_cons hi, hget]
  simp [unslashed]

theorem unslashed_other {i : Nat} (h : p.chars[i]? ≠ some SLASH) : unslashed p i = p.chars.drop i := by
  rw [unslashed]
  by_cases hi : i < p.chars.length
  · rw [List.getElem?_eq_getElem hi] at h
    rw [List.drop_eq_getElem_cons hi, List.dropWhile_cons_of_neg]
    simpa using h
  · rw [List.drop_eq_nil_of_le (by omega)]
    rfl

theorem getdevice_skip_spec {i : Nat} (h : ∀ j, i < j → j ≤ p.chars.length → path j = p.chars.getD j 0)
    (hi : i < p.chars.length) (hn : p.chars.length ≤ n + i) :
    i ≤ getdevice_skip path n i ∧ getdevice_skip path n i < p.chars.length ∧
    p.chars.drop (getdevice_skip path n i + 1) = unslashed p (i + 1) ∧
    p.chars[getdevice_skip path n i + 1]? ≠ some SLASH := by
  induction n generalizing i with
  | zero => omega
  | succ n ih =>
    unfold getdevice_skip
    have hchar : path (i + 1) = SLASH ↔ p.chars[i + 1]? = some SLASH := by
      rw [h (i + 1) (by omega) (by omega), getD_eq_iff slash_ne_zero]
    split
    · rename_i hs
      have hs' := hchar.1 hs
      have hlt : i + 1 < p.chars.length := (List.getElem?_eq_some_iff.1 hs').1
      obtain ⟨hle, hlt', hdrop, hend⟩ := ih (fun j hj => h j (by omega)) hlt (by omega)
      exact ⟨by omega, hlt', hdrop.trans (unslashed_slash hs').symm, hend⟩
    · rename_i hs
      have hs' := mt hchar.2 hs
      exact ⟨le_rfl, hi, (unslashed_other hs').symm, hs'⟩

end Loops

/-! ## The calls -/

section Calls

variable {ops : Ops ν σ} {p : CStr} {path : Mem} {n : Nat} {s t : Vnodes ν σ}

theorem vnode_incref_ne_error {vn : Option ν} {e : Errno} : vnode_incref vn s ≠ .ok (.error e, t) :=
  (vnode_incref_pays vn).never_fails s t e

theorem incref_error {α : Type} {v : ν} {a : α} {e : Errno} :
    (vnode_incref (some v) >>= fun _ => pure a : VopProg ν σ α) s ≠ .ok (.error e, t) := by
  intro h
  rcases bind_eq_error.1 h with h | ⟨_, _, _, h⟩
  · exact vnode_incref_ne_error h
  · cases h

theorem vfs_getcurdir_error {e : Errno} (h : vfs_getcurdir s = .ok (.error e, t)) : t = s := by
  unfold vfs_getcurdir at h
  rw [bind_ok (get_run _)] at h
  cases hcwd : s.t_cwd with
  | none =>
    rw [hcwd] at h
    cases h
    rfl
  | some v =>
    rw [hcwd] at h
    exact absurd h incref_error

theorem Start.exec_error {start : Start} {e : Errno} (h : start.exec ops s = .ok (.error e, t)) : t = s := by
  cases start with
  | device name =>
    simp only [exec, vfs_getroot_ref] at h
    rw [bind_ok (get_run _)] at h
    rcases hroot : vfs_getroot s.knowndevs name with p | e' | fs | m
    all_goals rw [hroot] at h
    · cases h
    · cases h
      rfl
    · exact absurd h ((FSOP_GETROOT_pays ops fs).never_fails s t e)
    · exact absurd h incref_error
  | boot =>
    simp only [exec, getdevice_boot] at h
    rw [bind_ok (get_run _)] at h
    cases hboot : s.bootfs_vnode with
    | none =>
      rw [hboot] at h
      cases h
      rfl
    | some v =>
      rw [hboot] at h
      exact absurd h incref_error
  | root =>
    rcases bind_eq_error.1 h with h | ⟨vn, u, _, h⟩
    · exact vfs_getcurdir_error h
    -- with the current directory in hand nothing fails
    · cases hfs : ops.vn_fs vn with
      | none =>
        rw [hfs] at h
        cases h
      | some fs =>
        rw [hfs] at h
        rcases bind_eq_error.1 h with h | ⟨_, u', _, h⟩
        · exact absurd h ((FSOP_GETROOT_pays ops fs).never_fails u t e)
        · rcases bind_eq_error.1 h with h | ⟨_, _, _, h⟩
          · exact absurd h ((vnode_decref_pays ops _).never_fails u' t e)
          · cases h
  | cwd =>
    rcases bind_eq_error.1 h with h | ⟨_, _, _, h⟩
    · exact vfs_getcurdir_error h
    · cases h

def starts (ops : Ops ν σ) (start : Start) (i : Nat) : BufProg ν σ (Nat × Option ν) := do
  let startvn ← onVnodes (start.exec ops)
  return (i, startvn)

theorem cstr_cut (h : Spells path p) {k : Nat} (hk : k < p.chars.length) (hn : p.chars.length ≤ n) :
    cstr (Function.update path k 0) (n + 1) = p.chars.take k := by
  have hsame : ∀ i < k, Function.update path k 0 i = p.chars.getD i 0 := by
    intro i hi
    rw [Function.update_of_ne (by omega), h i (by omega)]
  rw [cstr_eq (show k < n + 1 by omega) (Function.update_self ..)]
  · apply List.ext_getElem
    · simp
      omega
    · intro i h1 h2
      simp only [List.length_map, List.length_range] at h1
      rw [List.getElem_map, List.getElem_range, hsame i h1, List.getElem_take, List.getD_eq_getElem _ _ (by omega)]
  · intro i hi
    rw [hsame i hi, List.getD_eq_getElem _ _ (by omega)]
    exact p.no_nul _ (List.getElem_mem _)

theorem getdevice_device (h : Spells path p) (hn : p.chars.length ≤ n) {k : Nat} (hk : 0 < k)
    (hfound : getdevice_find path n 0 = ⟨-1, k⟩) (hlt : k < p.chars.length) :
    getdevice ops n (s, path) =
      starts ops (.device (.ofBytes (p.chars.take k))) (getdevice_skip (Function.update path k 0) n k + 1)
        (s, Function.update path k 0) := by
  unfold getdevice
  rw [bind_ok (get_run _)]
  simp only [hfound]
  rw [if_neg (by omega), if_pos (by omega), bind_ok (set_run _ _), Int.toNat_natCast, cstr_cut h hlt hn]
  rfl

theorem getdevice_slash (hs : path 0 = SLASH) (hfound : getdevice_find path n 0 = ⟨0, -1⟩) :
    getdevice ops n (s, path) = starts ops .boot (getdevice_skip path n 0 + 1) (s, path) := by
  unfold getdevice
  rw [bind_ok (get_run _)]
  simp only [hfound]
  rw [if_neg (by omega), if_neg (by omega), bind_ok (ensure_run _ _ _ (.inr (by rw [hfound]))), if_pos hs]
  rfl

theorem getdevice_colon (hc : path 0 = COLON) (hfound : getdevice_find path n 0 = ⟨-1, 0⟩) :
    getdevice ops n (s, path) = starts ops .root (getdevice_skip path n 0 + 1) (s, path) := by
  unfold getdevice
  rw [bind_ok (get_run _)]
  simp only [hfound]
  rw [if_neg (by omega), if_neg (by omega), bind_ok (ensure_run _ _ _ (.inl (by rw [hfound]))),
    if_neg (by rw [hc]; exact slash_ne_colon.symm), bind_ok (ensure_run _ _ _ hc)]
  rfl

theorem getdevice_plain {slash : Int} (hs : slash ≠ 0) (hfound : getdevice_find path n 0 = ⟨slash, -1⟩) :
    getdevice ops n (s, path) = starts ops .cwd 0 (s, path) := by
  unfold getdevice
  rw [bind_ok (get_run _)]
  simp only [hfound]
  rw [if_pos ⟨by omega, hs⟩]
  rfl

theorem spells_suffix {path' : Mem} {i : Nat} (h : ∀ j, i ≤ j → j ≤ p.chars.length → path' j = p.chars.getD j 0)
    (hi : i ≤ p.chars.length) : Spells (fun j => path' (i + j)) (suffix p i) := by
  intro j hj
  simp only [suffix, List.length_drop] at hj
  simp only [suffix]
  rw [h (i + j) (by omega) (by omega), List.getD_eq_getElem?_getD, List.getD_eq_getElem?_getD, List.getElem?_drop]

structure Follows (ops : Ops ν σ) (n : Nat) (s : Vnodes ν σ) (path : Mem) (p : CStr) (start : Start)
    (rest : List Byte) (i : Nat) (path' : Mem) : Prop where
  inside : i ≤ p.chars.length
  rest_eq : p.chars.drop i = rest
  no_slash : start ≠ .cwd → rest.head? ≠ some SLASH
  spells : Spells (fun j => path' (i + j)) (suffix p i)
  run : getdevice ops n (s, path) = starts ops start i (s, path')

theorem head_drop {l : List Byte} {i : Nat} : (l.drop i).head? = l[i]? := by
  rw [List.head?_eq_getElem?, List.getElem?_drop, Nat.add_zero]

theorem Follows.of_skip {start : Start} {path' : Mem} {k : Nat}
    (hpath : ∀ j, k < j → j ≤ p.chars.length → path' j = p.chars.getD j 0) (hk : k < p.chars.length)
    (hn : p.chars.length ≤ n)
    (hrun : getdevice ops n (s, path) = starts ops start (getdevice_skip path' n k + 1) (s, path')) :
    Follows ops n s path p start (unslashed p (k + 1)) (getdevice_skip path' n k + 1) path' := by
  obtain ⟨hle, hlt, hdrop, hend⟩ := getdevice_skip_spec (n := n) hpath hk (by omega)
  refine ⟨hlt, hdrop, fun _ => ?_, spells_suffix (fun j hj => hpath j (by omega)) hlt, hrun⟩
  rw [← hdrop, head_drop]
  exact hend

theorem getdevice_spec (ops : Ops ν σ) (s : Vnodes ν σ) (h : Spells path p) (hn : p.chars.length ≤ n) :
    ∃ start rest, Grammar p start rest ∧ ∃ i path', Follows ops n s path p start rest i path' := by
  have hfind := getdevice_find_spec h (Nat.zero_le _) (show p.chars.length ≤ n + 0 from hn)
  have hplain {slash : Int} (hs : slash ≠ 0) (hfound : getdevice_find path n 0 = ⟨slash, -1⟩) :
      Follows ops n s path p .cwd p.chars 0 path :=
    ⟨Nat.zero_le _, rfl, fun hne => absurd rfl hne, spells_suffix (fun j _ => h j) (Nat.zero_le _),
      getdevice_plain hs hfound⟩
  have hget {k : Nat} {c : Byte} (hc : p.chars[k]? = some c) : k < p.chars.length :=
    (List.getElem?_eq_some_iff.1 hc).1
  generalize hfound : getdevice_find path n 0 = found at hfind
  cases hfind with
  | none hnone =>
    exact ⟨_, _, .cwd (hnone 0 le_rfl) fun k hk => hnone k (Nat.zero_le k) (.inl hk.1), _, _, hplain (by omega) hfound⟩
  | @colon k _ hbefore hc =>
    rcases Nat.eq_zero_or_pos k with rfl | hk
    · have hc0 : path 0 = COLON := (h.char_iff (Nat.zero_le _) colon_ne_zero).2 hc
      exact ⟨_, _, .root hc, _, _, .of_skip (fun j _ => h j) (hget hc) hn (getdevice_colon hc0 hfound)⟩
    · refine ⟨_, _, .device hk ⟨hc, fun j => hbefore j (Nat.zero_le j)⟩, _, _, .of_skip (fun j hj hle => ?_)
        (hget hc) hn (getdevice_device h hn hk hfound (hget hc))⟩
      rw [Function.update_of_ne (by omega), h j hle]
  | @slash k _ hbefore hc =>
    rcases Nat.eq_zero_or_pos k with rfl | hk
    · have hc0 : path 0 = SLASH := (h.char_iff (Nat.zero_le _) slash_ne_zero).2 hc
      exact ⟨_, _, .boot hc, _, _, .of_skip (fun j _ => h j) (hget hc) hn (getdevice_slash hc0 hfound)⟩
    · refine ⟨_, _, .cwd (hbefore 0 le_rfl hk) fun j hj => ?_, _, _, hplain (by omega) hfound⟩
      -- a first colon would be before the slash or after it
      rcases Nat.lt_trichotomy j k with hlt | rfl | hlt
      · exact hbefore j (Nat.zero_le j) hlt (.inl hj.1)
      · exact slash_ne_colon (Option.some.inj (hc.symm.trans hj.1))
      · exact hj.2 k hlt (.inr hc)

theorem findIdx_mark_iff {k : Nat} :
    p.chars.findIdx? (fun c => c = COLON ∨ c = SLASH) = some k ↔ Marked p k ∧ ∀ j < k, ¬ Marked p j := by
  have hmark {j : Nat} (hj : j < p.chars.length) : Marked p j ↔ p.chars[j] = COLON ∨ p.chars[j] = SLASH := by
    simp [Marked, List.getElem?_eq_getElem hj]
  rw [List.findIdx?_eq_some_iff_getElem]
  constructor
  · rintro ⟨hlt, hk, hbefore⟩
    refine ⟨(hmark hlt).2 (of_decide_eq_true hk), fun j hj => ?_⟩
    rw [hmark (by omega)]
    exact of_decide_eq_false (by simpa using hbefore j hj)
  · rintro ⟨hk, hbefore⟩
    have hlt : k < p.chars.length := by
      by_contra hge
      exact not_marked_of_length_le (by omega) hk
    refine ⟨hlt, decide_eq_true ((hmark hlt).1 hk), fun j hj => ?_⟩
    have := hbefore j hj
    rw [hmark (by omega)] at this
    simpa using this

theorem ofBytes_drop {rest : List Byte} {i : Nat} (hrest : p.chars.drop i = rest) :
    CStr.ofBytes rest = suffix p i := by
  apply CStr.ext_chars
  rw [ofBytes_chars]
  · exact hrest.symm
  · intro c hc
    rw [← hrest] at hc
    exact p.no_nul c (List.mem_of_mem_drop hc)

theorem Grammar.start_eq {start : Start} {rest : List Byte} (h : Grammar p start rest) :
    getdevice_start ops p = (.ofBytes rest, start.exec ops) := by
  have hchars : CStr.ofBytes p.chars = p := CStr.ext_chars (ofBytes_chars p.no_nul)
  cases h with
  | @device k hk hfirst =>
    rw [getdevice_start, findIdx_mark_iff.2 ⟨.inl hfirst.1, hfirst.2⟩]
    obtain ⟨k, rfl⟩ := Nat.exists_eq_succ_of_ne_zero (Nat.ne_of_gt hk)
    simp only [Nat.succ_eq_add_one, hfirst.1, ↓reduceIte]
    rfl
  | boot h0 =>
    rw [getdevice_start, findIdx_mark_iff.2 ⟨.inr h0, fun j hj => by omega⟩]
    simp only [List.head?_eq_getElem?, h0, ↓reduceIte]
    rfl
  | root h0 =>
    rw [getdevice_start, findIdx_mark_iff.2 ⟨.inl h0, fun j hj => by omega⟩]
    simp only [List.head?_eq_getElem?, h0, Option.some.injEq, slash_ne_colon.symm, ↓reduceIte]
    rfl
  | cwd h0 hnone =>
    rw [hchars, getdevice_start]
    cases hfind : p.chars.findIdx? (fun c => c = COLON ∨ c = SLASH) with
    | none => rfl
    | some k =>
      obtain ⟨hk, hbefore⟩ := findIdx_mark_iff.1 hfind
      cases k with
      | zero => exact absurd hk h0
      | succ k =>
        have hslash : p.chars[k + 1]? ≠ some COLON := fun hc => hnone (k + 1) ⟨hc, hbefore⟩
        simp only [hslash, ↓reduceIte]
        rfl

theorem getdevice_refines (h : Spells path p) (hn : p.chars.length ≤ n) : ∃ i path',
    (getdevice_start ops p).1 = suffix p i ∧ Spells (fun j => path' (i + j)) (suffix p i) ∧
    getdevice ops n (s, path) = (onVnodes (AnyFs.getdevice ops p) >>= fun x => pure (i, x.2)) (s, path') := by
  obtain ⟨start, rest, hform, i, path', hrun⟩ := getdevice_spec ops s h hn
  refine ⟨i, path', ?_, hrun.spells, ?_⟩
  · rw [hform.start_eq, ofBytes_drop hrun.rest_eq]
  · rw [hrun.run, starts, AnyFs.getdevice, hform.start_eq, bind_run, bind_run, onVnodes_bind, bind_run]
    cases onVnodes (start.exec ops) (s, path') with
    | error p => rfl
    | ok y =>
      obtain ⟨_ | a, t⟩ := y
      all_goals rfl

/-- The start and the subpath of every path are those of its form. An error takes no reference. -/
theorem getdevice_by_grammar (ops : Ops ν σ) (p : CStr) (path : Mem) (n : Nat) (s : Vnodes ν σ)
    (hpath : Spells path p) (hn : p.chars.length ≤ n) :
    ∃ start rest, Grammar p start rest ∧
      (∀ start' rest', Grammar p start' rest' → start' = start ∧ rest' = rest) ∧
      (∃ i path', Follows ops n s path p start rest i path') ∧
      ∀ e t, getdevice ops n (s, path) = .ok (.error e, t) → t.1 = s := by
  obtain ⟨start, rest, hform, i, path', hrun⟩ := getdevice_spec ops s hpath hn
  refine ⟨start, rest, hform, fun _ _ h' => h'.unique hform, ⟨i, path', hrun⟩, fun e t hr => ?_⟩
  rw [hrun.run] at hr
  rcases bind_eq_error.1 hr with hr | ⟨_, _, _, hr⟩
  · exact Start.exec_error (onVnodes_error hr)
  · cases hr

def slashedPath : CStr := ⟨[0x64, COLON, SLASH, SLASH, 0x66], by decide⟩

theorem getdevice_by_grammar_device : ∃ i path',
    Follows (oneFile .killed) 5 (fileOpen 0) (strcpy slashedPath) slashedPath (.device (.ofBytes [0x64])) [0x66] i
      path' := by
  obtain ⟨start, rest, _, hunique, hrun, _⟩ :=
    getdevice_by_grammar (oneFile .killed) slashedPath (strcpy slashedPath) 5 (fileOpen 0) (fun _ _ => rfl) (by decide)
  have hform : Grammar slashedPath (.device (.ofBytes [0x64])) [0x66] := by
    refine .device (k := 1) (by decide) ⟨by decide, fun j hj => ?_⟩
    obtain rfl : j = 0 := by omega
    unfold Marked
    decide
  obtain ⟨rfl, rfl⟩ := hunique _ _ hform
  exact hrun

end Calls

/-! ## Boot file systems -/

section Setbootfs

variable {ops : Ops ν σ} {s : Vnodes ν σ}

theorem strchr_length {l r : List Byte} {c : Byte} (h : strchr l c = some r) : 0 < r.length := by
  rw [strchr] at h
  split at h
  · rename_i hmem
    cases h
    rw [List.length_pos_iff, Ne, List.dropWhile_eq_nil_iff]
    intro hall
    simpa using hall c hmem
  · cases h

theorem vfs_setbootfs_eq (fsname : CStr) : vfs_setbootfs ops fsname = AnyFs.vfs_setbootfs ops fsname := by
  funext s
  rw [vfs_setbootfs, AnyFs.vfs_setbootfs]
  have htake : snprintf_str (NAME_MAX + 1 - 1) fsname = fsname.chars.take (NAME_MAX + 1 - 2) := rfl
  simp only [htake]
  cases hs : strchr (fsname.chars.take (NAME_MAX + 1 - 2)) COLON with
  | none =>
    have hnone : COLON ∉ fsname.chars.take (NAME_MAX + 1 - 2) := by
      intro hmem
      rw [strchr, if_pos hmem] at hs
      cases hs
    rw [if_neg hnone]
    rfl
  | some r =>
    have hmem : COLON ∈ fsname.chars.take (NAME_MAX + 1 - 2) := by
      by_contra hmem
      rw [strchr, if_neg hmem] at hs
      cases hs
    have hlen := strchr_length hs
    simp only [if_pos hmem, hlen, ↓reduceIte]
    rfl

theorem vfs_setbootfs_colon {fsname : CStr} (h : COLON ∈ fsname.chars.take (NAME_MAX + 1 - 2)) :
    vfs_setbootfs ops fsname s = .ok (.error .EINVAL, s) := by
  rw [vfs_setbootfs_eq, AnyFs.vfs_setbootfs, if_pos h]
  rfl

def withColon (d : CStr) : CStr := .ofBytes (d.chars ++ [COLON])

def HasRoom (d : CStr) : Prop := d.chars.length + 1 ≤ NAME_MAX + 1 - 2

instance (d : CStr) : Decidable (HasRoom d) := inferInstanceAs (Decidable (_ ≤ _))

def unknownName : CStr := ⟨[0x78], by decide⟩

def deviceName : CStr := .ofBytes [0x64]

end Setbootfs

end Os161.AnyFs.Prefix
