import Os161.Vm.Loadelf

/-! # `lib/copyinout.c`: user memory from the kernel

With the recovery from faults: `mips_trap` resumes a fault in the kernel at `pcb_badfaultfunc`, and `copyfail`
jumps back to the `setjmp`.
-/

namespace Os161.Copyinout

open Prog Words

/-- `pcb_badfaultfunc`, which is NULL or this. -/
inductive Badfaultfunc where
  | copyfail
  deriving DecidableEq, Repr

inductive Longjmp where
  | copyjmp
  deriving DecidableEq, Repr

/-- Where the machine stops: `mips_trap` at a fault in the kernel that has nowhere to go, and `uio.c`. -/
inductive Fatal where
  | kernel_fault
  | uiomove_space | uiomove_size | uiomovezeros_rw
  deriving DecidableEq, Repr

/-- The memory with the fields of the thread that `copyinout.c` uses. Access number `n` to user memory, at an
address `va`, is one that `vm_fault` cannot help if `fault n va`. -/
structure Space where
  user : Mem
  kernel : Mem
  pcb_badfaultfunc : Option Badfaultfunc
  fault : Nat → Nat → Bool
  /-- The addresses of user pointers that were read or written, the latest last. -/
  touched : List Nat
  faults : Nat

inductive Way where
  | userToKernel | kernelToUser
  deriving DecidableEq, Repr

def user_access (va w : Nat) : Prog Fatal Longjmp Space Unit := do
  let s ← get
  set { s with touched := s.touched ++ List.range' va w }
  if s.fault s.touched.length va then
    modify fun s => { s with faults := s.faults + 1 }
    match s.pcb_badfaultfunc with
    | some .copyfail => throw .copyjmp
    | none => stop .kernel_fault

def Space.copied (way : Way) (u k n : Nat) (s : Space) : Space :=
  match way with
  | .userToKernel => { s with kernel := s.kernel.copy k s.user u n }
  | .kernelToUser => { s with user := s.user.copy u s.kernel k n }

def move (way : Way) (u k w : Nat) : Prog Fatal Longjmp Space Unit := do
  user_access u w
  modify (Space.copied way u k w)

def memcpy_loop (way : Way) (w : Nat) : Nat → Nat → Nat → Prog Fatal Longjmp Space Unit
  | 0, _, _ => pure ()
  | n + 1, u, k => do
    move way u k w
    memcpy_loop way w n (u + w) (k + w)

def memcpy (way : Way) (u k len : Nat) : Prog Fatal Longjmp Space Unit :=
  if u % 4 = 0 ∧ k % 4 = 0 ∧ len % 4 = 0 then memcpy_loop way 4 (len / 4) u k
  else memcpy_loop way 1 len u k

def src_is_nul (way : Way) (u k : Nat) : Prog Fatal Longjmp Space Bool := do
  match way with
  | .userToKernel =>
    user_access u 1
    let s ← get
    pure (s.user u == 0)
  | .kernelToUser =>
    let s ← get
    pure (s.kernel k == 0)

def copystr_loop (way : Way) (u k maxlen stoplen : Nat) : Nat → Nat → Prog Fatal Longjmp Space (Except Errno Nat)
  | 0, _ => pure (.error (if stoplen < maxlen then .EFAULT else .ENAMETOOLONG))
  | fuel + 1, i => do
    if i < maxlen ∧ i < stoplen then
      move way (u + i) (k + i) 1
      if ← src_is_nul way (u + i) (k + i) then pure (.ok (i + 1))
      else copystr_loop way u k maxlen stoplen fuel (i + 1)
    else
      pure (.error (if stoplen < maxlen then .EFAULT else .ENAMETOOLONG))

def copystr (way : Way) (u k maxlen stoplen : Nat) : Prog Fatal Longjmp Space (Except Errno Nat) :=
  copystr_loop way u k maxlen stoplen maxlen 0

def setjmp {α : Type} : Except Longjmp (Except Errno α) → Except Errno α
  | .ok result => result
  | .error .copyjmp => .error .EFAULT

def withCopyfail {α : Type} (m : Prog Fatal Longjmp Space (Except Errno α)) : Prog Fatal Errno Space α := fun s =>
  match m { s with pcb_badfaultfunc := some .copyfail } with
  | .ok (r, t) => .ok (setjmp r, { t with pcb_badfaultfunc := none })
  | .error p => .error p

def copyBlock (way : Way) (u k len : Nat) : Prog Fatal Errno Space Unit := do
  let stoplen ← finish (Elf.copycheck u len)
  if stoplen ≠ len then throw .EFAULT
  else
    withCopyfail do
      memcpy way u k len
      pure (.ok ())

def copyin (usersrc dest len : Nat) : Prog Fatal Errno Space Unit := copyBlock .userToKernel usersrc dest len

def copyout (src userdest len : Nat) : Prog Fatal Errno Space Unit := copyBlock .kernelToUser userdest src len

def copyString (way : Way) (u k len : Nat) : Prog Fatal Errno Space Nat := do
  let stoplen ← finish (Elf.copycheck u len)
  withCopyfail (copystr way u k len stoplen)

def copyinstr (usersrc dest len : Nat) : Prog Fatal Errno Space Nat := copyString .userToKernel usersrc dest len

def copyoutstr (src userdest len : Nat) : Prog Fatal Errno Space Nat := copyString .kernelToUser userdest src len

/-! ## Copying -/

structure Moved (way : Way) (u k n m : Nat) (s t : Space) : Prop where
  user : t.user = (s.copied way u k n).user
  kernel : t.kernel = (s.copied way u k n).kernel
  pcb : t.pcb_badfaultfunc = s.pcb_badfaultfunc
  fault : t.fault = s.fault
  touched : ∃ l, t.touched = s.touched ++ l ∧ ∀ a ∈ l, u ≤ a ∧ a < u + m

def Space.source (way : Way) (u k : Nat) (s : Space) (i : Nat) : Byte :=
  match way with
  | .userToKernel => s.user (u + i)
  | .kernelToUser => s.kernel (k + i)

section Moves

variable {way : Way} {u k n m i w w' maxlen stoplen : Nat} {s t t' : Space}

theorem Space.copied_zero (s : Space) : s.copied way u k 0 = s := by
  cases way <;> simp only [copied, Mem.copy_zero]

theorem Moved.refl (s : Space) : Moved way u k 0 m s s :=
  ⟨by rw [s.copied_zero], by rw [s.copied_zero], rfl, rfl, [], by simp, by simp⟩

theorem Moved.trans (h : Moved way u k n m s t) (h' : Moved way (u + n) (k + n) w w' t t') (hm : m ≤ n + w') :
    Moved way u k (n + w) (n + w') s t' := by
  obtain ⟨hu, hk, hp, hf, l, hl, hin⟩ := h
  obtain ⟨hu', hk', hp', hf', l', hl', hin'⟩ := h'
  refine ⟨?_, ?_, hp'.trans hp, hf'.trans hf, l ++ l', by rw [hl', hl, List.append_assoc], ?_⟩
  · cases way with
    | userToKernel => exact hu'.trans hu
    | kernelToUser =>
      rw [hu']
      show t.user.copy (u + n) t.kernel (k + n) w = s.user.copy u s.kernel k (n + w)
      rw [hu, hk]
      exact Mem.copy_copy ..
  · cases way with
    | kernelToUser => exact hk'.trans hk
    | userToKernel =>
      rw [hk']
      show t.kernel.copy (k + n) t.user (u + n) w = s.kernel.copy k s.user u (n + w)
      rw [hu, hk]
      exact Mem.copy_copy ..
  · intro a ha
    rcases List.mem_append.mp ha with ha | ha
    · have := hin a ha
      omega
    · have := hin' a ha
      omega

theorem Moved.widen (h : Moved way u k n m s t) (hm : m ≤ w) : Moved way u k n w s t := by
  obtain ⟨hu, hk, hp, hf, l, hl, hin⟩ := h
  refine ⟨hu, hk, hp, hf, l, hl, fun a ha => ?_⟩
  have := hin a ha
  omega

theorem Moved.source (h : Moved way u k n m s t) : t.source way u k = s.source way u k := by
  funext i
  cases way with
  | userToKernel =>
    show t.user _ = s.user _
    rw [h.user]
    rfl
  | kernelToUser =>
    show t.kernel _ = s.kernel _
    rw [h.kernel]
    rfl

theorem user_access_spec (way : Way) (hb : s.pcb_badfaultfunc = some .copyfail) (k : Nat) :
    Holds (fun _ => False) (user_access u w) s fun r t =>
      Moved way u k 0 w s t ∧ (r = .ok () → t.faults = s.faults) ∧ (r ≠ .ok () → t.faults = s.faults + 1) := by
  have hmoved : ∀ f, Moved way u k 0 w s { s with touched := s.touched ++ List.range' u w, faults := f } := by
    intro f
    refine ⟨by rw [s.copied_zero], by rw [s.copied_zero], rfl, rfl, List.range' u w, rfl, fun a ha => ?_⟩
    have := List.mem_range'_1.mp ha
    omega
  unfold user_access
  refine holds_bind_run (get_run s) (holds_bind_run (set_run _ _) ?_)
  by_cases hf : s.fault s.touched.length u
  · rw [if_pos hf]
    refine holds_bind_run (modify_run _ _) ?_
    split
    · exact holds_throw ⟨hmoved _, by simp, by simp⟩
    · rename_i hnone
      rw [hb] at hnone
      cases hnone
  · rw [if_neg hf]
    exact holds_pure ⟨hmoved _, by simp, by simp⟩

theorem move_spec (hb : s.pcb_badfaultfunc = some .copyfail) :
    Holds (fun _ => False) (move way u k w) s fun r t =>
      (r = .ok () → Moved way u k w w s t ∧ t.faults = s.faults) ∧
      (r ≠ .ok () → Moved way u k 0 w s t ∧ t.faults = s.faults + 1) := by
  unfold move
  refine (user_access_spec way hb k).bind ?_ ?_
  · rintro _ t ⟨hm, hok, -⟩
    refine holds_of_run (modify_run _ _) ⟨fun _ => ⟨?_, ?_⟩, by simp⟩
    · obtain ⟨hu, hk, hp, hf, htouched⟩ := hm
      rw [s.copied_zero] at hu hk
      cases way
      · exact ⟨hu, by show t.kernel.copy _ _ _ _ = _; rw [hu, hk]; rfl, hp, hf, htouched⟩
      · exact ⟨by show t.user.copy _ _ _ _ = _; rw [hu, hk]; rfl, hk, hp, hf, htouched⟩
    · have := hok rfl
      cases way <;> exact this
  · rintro e t ⟨hm, -, herr⟩
    exact ⟨by simp, fun _ => ⟨hm, herr (by simp)⟩⟩

theorem memcpy_loop_spec (way : Way) (w n : Nat) (hb : s.pcb_badfaultfunc = some .copyfail) :
    Holds (fun _ => False) (memcpy_loop way w n u k) s fun r t =>
      (r = .ok () → Moved way u k (n * w) (n * w) s t ∧ t.faults = s.faults) ∧
      (r ≠ .ok () → (∃ j, Moved way u k j (n * w) s t) ∧ s.faults < t.faults) := by
  induction n generalizing u k s with
  | zero => exact holds_pure ⟨fun _ => ⟨by rw [Nat.zero_mul]; exact .refl s, rfl⟩, by simp⟩
  | succ n ih =>
    have hmul : (n + 1) * w = w + n * w := by rw [Nat.add_mul, Nat.one_mul, Nat.add_comm]
    rw [memcpy_loop, hmul]
    refine (move_spec hb).bind ?_ ?_
    · rintro _ t ⟨hm, -⟩
      obtain ⟨hm, hfaults⟩ := hm rfl
      refine (ih (hm.pcb.trans hb)).imp fun r t' ht' => ⟨fun hr => ?_, fun hr => ?_⟩
      · obtain ⟨hm', hf'⟩ := ht'.1 hr
        exact ⟨hm.trans hm' (by omega), hf'.trans hfaults⟩
      · obtain ⟨⟨j, hm'⟩, hf'⟩ := ht'.2 hr
        exact ⟨⟨w + j, hm.trans hm' (by omega)⟩, hfaults ▸ hf'⟩
    · rintro e t ⟨-, herr⟩
      obtain ⟨hm, hfaults⟩ := herr (by simp)
      exact ⟨by simp, fun _ => ⟨⟨0, hm.widen (by omega)⟩, by omega⟩⟩

theorem memcpy_spec (way : Way) (hb : s.pcb_badfaultfunc = some .copyfail) (len : Nat) :
    Holds (fun _ => False) (memcpy way u k len) s fun r t =>
      (r = .ok () → Moved way u k len len s t ∧ t.faults = s.faults) ∧
      (r ≠ .ok () → (∃ j, Moved way u k j len s t) ∧ s.faults < t.faults) := by
  unfold memcpy
  split
  · rename_i h4
    have hspec := memcpy_loop_spec way 4 (len / 4) hb (u := u) (k := k)
    rwa [Nat.div_mul_cancel (Nat.dvd_of_mod_eq_zero h4.2.2)] at hspec
  · have hspec := memcpy_loop_spec way 1 len hb (u := u) (k := k)
    rwa [Nat.mul_one] at hspec

theorem Moved.again {k' : Nat} (h : Moved way u k n m s t) (h' : Moved way (u + i) k' 0 w t t') (hm : i + w ≤ m) :
    Moved way u k n m s t' := by
  obtain ⟨hu, hk, hp, hf, l, hl, hin⟩ := h
  obtain ⟨hu', hk', hp', hf', l', hl', hin'⟩ := h'
  rw [t.copied_zero] at hu' hk'
  refine ⟨hu'.trans hu, hk'.trans hk, hp'.trans hp, hf'.trans hf, l ++ l', by rw [hl', hl, List.append_assoc], ?_⟩
  intro a ha
  rcases List.mem_append.mp ha with ha | ha
  · exact hin a ha
  · have := hin' a ha
    omega

theorem src_is_nul_spec (hb : s.pcb_badfaultfunc = some .copyfail) (u k i : Nat) :
    Holds (fun _ => False) (src_is_nul way (u + i) (k + i)) s fun r t =>
      Moved way (u + i) (k + i) 0 1 s t ∧
      (∀ b, r = .ok b → b = (s.source way u k i == 0) ∧ t.faults = s.faults) ∧
      ((∀ b, r ≠ .ok b) → s.faults < t.faults) := by
  unfold src_is_nul
  cases way with
  | userToKernel =>
    refine (user_access_spec .userToKernel hb (k + i)).bind ?_ ?_
    · rintro _ t ⟨hm, hok, -⟩
      have huser : t.user = s.user := hm.user
      refine holds_bind_run (get_run t) (holds_pure ⟨hm, ?_, fun hn => absurd rfl (hn _)⟩)
      rintro b ⟨⟩
      exact ⟨by rw [huser]; rfl, hok rfl⟩
    · rintro e t ⟨hm, -, herr⟩
      have := herr (by simp)
      exact ⟨hm, by simp, fun _ => by omega⟩
  | kernelToUser =>
    refine holds_bind_run (get_run s) (holds_pure ⟨.refl s, ?_, fun hn => absurd rfl (hn _)⟩)
    rintro b ⟨⟩
    exact ⟨rfl, rfl⟩

inductive Copystr (way : Way) (u k maxlen stoplen : Nat) (s : Space) : Except Longjmp (Except Errno Nat) → Space → Prop
  | jumps {j : Nat} {t : Space} (hj : j ≤ min maxlen stoplen) (hm : Moved way u k j (min maxlen stoplen) s t)
      (hf : s.faults < t.faults) : Copystr way u k maxlen stoplen s (.error .copyjmp) t
  | string {n : Nat} {t : Space} (hn : n < min maxlen stoplen) (hnul : s.source way u k n = 0)
      (hpre : ∀ j < n, s.source way u k j ≠ 0) (hm : Moved way u k (n + 1) (n + 1) s t) (hf : t.faults = s.faults) :
      Copystr way u k maxlen stoplen s (.ok (.ok (n + 1))) t
  | long {t : Space} (hpre : ∀ j < min maxlen stoplen, s.source way u k j ≠ 0)
      (hm : Moved way u k (min maxlen stoplen) (min maxlen stoplen) s t) (hf : t.faults = s.faults) :
      Copystr way u k maxlen stoplen s (.ok (.error (if stoplen < maxlen then .EFAULT else .ENAMETOOLONG))) t

theorem copystr_loop_spec {fuel : Nat} (hb : s.pcb_badfaultfunc = some .copyfail) (hfuel : maxlen ≤ i + fuel)
    (hi : i ≤ min maxlen stoplen) (hpre : ∀ j < i, s.source way u k j ≠ 0) (hm : Moved way u k i i s t)
    (hf : t.faults = s.faults) :
    Holds (fun _ => False) (copystr_loop way u k maxlen stoplen fuel i) t (Copystr way u k maxlen stoplen s) := by
  induction fuel generalizing i t with
  | zero =>
    have hend : min maxlen stoplen = i := by omega
    exact holds_pure (.long (by rwa [hend]) (by rwa [hend]) hf)
  | succ fuel ih =>
    rw [copystr_loop]
    by_cases hlt : i < maxlen ∧ i < stoplen
    · rw [if_pos hlt]
      have hbt := hm.pcb.trans hb
      refine (move_spec hbt).bind ?_ ?_
      · rintro _ t₁ ⟨h₁, -⟩
        obtain ⟨hm₁, hf₁⟩ := h₁ rfl
        have hmi := hm.trans hm₁ (by omega)
        refine (src_is_nul_spec (hm₁.pcb.trans hbt) u k i).bind ?_ ?_
        · rintro b t₂ ⟨hm₂, hok, -⟩
          obtain ⟨hnul, hf₂⟩ := hok b rfl
          have hmi₂ := hmi.again hm₂ (by omega)
          rw [hmi.source] at hnul
          cases b with
          | true =>
            exact holds_pure (.string (by omega) (by simpa using hnul.symm) hpre hmi₂ (hf₂.trans (hf₁.trans hf)))
          | false =>
            refine ih (by omega) (by omega) (fun j hj => ?_) hmi₂ (hf₂.trans (hf₁.trans hf))
            rcases Nat.lt_succ_iff_lt_or_eq.mp hj with hj | rfl
            · exact hpre j hj
            · simpa using hnul.symm
        · rintro ⟨⟩ t₂ ⟨hm₂, -, herr⟩
          refine .jumps (show i + 1 ≤ _ by omega) ((hmi.again hm₂ (by omega)).widen (by omega)) ?_
          have := herr (by simp)
          omega
      · rintro ⟨⟩ t₁ ⟨-, herr⟩
        obtain ⟨hm₁, hf₁⟩ := herr (by simp)
        exact .jumps hi ((hm.trans hm₁ (by omega)).widen (by omega)) (by omega)
    · rw [if_neg hlt]
      have hend : min maxlen stoplen = i := by omega
      exact holds_pure (.long (by rwa [hend]) (by rwa [hend]) hf)

theorem copystr_spec (hb : s.pcb_badfaultfunc = some .copyfail) :
    Holds (fun _ => False) (copystr way u k maxlen stoplen) s (Copystr way u k maxlen stoplen s) :=
  copystr_loop_spec hb (by omega) (Nat.zero_le _) (by simp) (.refl s) rfl

end Moves

/-! ## Blocks -/

def InUser (ptr len : Nat) : Prop := ptr + len ≤ 2 ^ 32 ∧ ∀ a, ptr ≤ a → a < ptr + len → a < USERTOP

structure BlockPost (way : Way) (ptr k len : Nat) (s : Space) (r : Except Errno Unit) (t : Space) : Prop where
  pcb : t.pcb_badfaultfunc = none
  touched : ∃ l, t.touched = s.touched ++ l ∧ ∀ a ∈ l, ptr ≤ a ∧ a < ptr + len ∧ a < USERTOP
  result : 0 < len → t.faults = s.faults → (r = .ok () ↔ InUser ptr len)
  copied : r = .ok () → t.user = (s.copied way ptr k len).user ∧ t.kernel = (s.copied way ptr k len).kernel
  faults : r = .ok () → t.faults = s.faults
  refused : ¬ InUser ptr len → r = .error .EFAULT ∧ t = s
  error : r ≠ .ok () → r = .error .EFAULT

section Calls

variable {way : Way} {ptr k len : Nat} {s t : Space}

theorem copycheck_eq (hp : ptr < 2 ^ 32) (hlen : 0 < len) (h32 : len < 2 ^ 32) :
    Elf.copycheck ptr len =
      if USERTOP ≤ ptr ∨ 2 ^ 32 < ptr + len then .error .EFAULT else .ok (min len (USERTOP - ptr)) := by
  have htop : (ptr + len + (2 ^ 32 - 1)) % 2 ^ 32 = if 2 ^ 32 < ptr + len then ptr + len - 1 - 2 ^ 32 else ptr + len - 1 := by
    split <;> omega
  simp only [Elf.copycheck, htop]
  simp only [USERTOP, MIPS_KSEG0] at *
  by_cases hwrap : 2 ^ 32 < ptr + len
  · rw [if_pos hwrap, if_pos (by omega), if_pos (by omega)]
  rw [if_neg hwrap, if_neg (show ¬ ptr + len - 1 < ptr by omega)]
  by_cases hkern : 0x80000000 ≤ ptr
  · rw [if_pos hkern, if_pos (.inl hkern)]
  rw [if_neg hkern, if_neg (show ¬ (0x80000000 ≤ ptr ∨ 2 ^ 32 < ptr + len) by omega)]
  split
  · rw [Nat.min_eq_right (by omega)]
  · rw [Nat.min_eq_left (by omega)]

theorem copycheck_empty (hp : ptr < 2 ^ 32) :
    Elf.copycheck ptr 0 = if ptr = 0 then .ok USERTOP else .error .EFAULT := by
  simp only [Elf.copycheck, USERTOP, MIPS_KSEG0]
  by_cases h0 : ptr = 0
  · subst h0
    rfl
  · rw [if_pos (by omega), if_neg h0]

theorem withCopyfail_spec {α : Type} {m : Prog Fatal Longjmp Space (Except Errno α)}
    {Q : Except Longjmp (Except Errno α) → Space → Prop}
    (h : Holds (fun _ => False) m { s with pcb_badfaultfunc := some .copyfail } Q) :
    Holds (fun _ => False) (withCopyfail m) s fun r t =>
      ∃ r₀ t₀, Q r₀ t₀ ∧ r = setjmp r₀ ∧ t = { t₀ with pcb_badfaultfunc := none } := by
  obtain ⟨r₀, t₀, hrun, hq⟩ := h.exists
  refine holds_of_run ?_ ⟨r₀, t₀, hq, rfl, rfl⟩
  simp only [withCopyfail, hrun]

theorem Moved.touched_user {n m : Nat} (h : Moved way ptr k n m s t) (hm : m ≤ len) (hu : ptr + m ≤ USERTOP) :
    ∃ l, t.touched = s.touched ++ l ∧ ∀ a ∈ l, ptr ≤ a ∧ a < ptr + len ∧ a < USERTOP := by
  obtain ⟨l, hl, hin⟩ := h.touched
  refine ⟨l, hl, fun a ha => ?_⟩
  have := hin a ha
  omega

theorem BlockPost.refuse (hb : s.pcb_badfaultfunc = none) (h : len = 0 ∨ ¬ InUser ptr len) :
    BlockPost way ptr k len s (.error .EFAULT) s where
  pcb := hb
  touched := ⟨[], by simp, by simp⟩
  result hlen _ := by
    rcases h with h | h
    · omega
    · simp [h]
  copied := by simp
  faults := by simp
  refused _ := ⟨rfl, rfl⟩
  error _ := rfl

theorem copyBlock_spec (hp : ptr < 2 ^ 32) (h32 : len < 2 ^ 32) (hb : s.pcb_badfaultfunc = none) :
    Holds (fun _ => False) (copyBlock way ptr k len) s (BlockPost way ptr k len s) := by
  unfold copyBlock
  rcases Nat.eq_zero_or_pos len with rfl | hlen
  · rw [copycheck_empty hp]
    by_cases h0 : ptr = 0
    · rw [if_pos h0]
      refine holds_bind_run (finish_run _ _) ?_
      rw [if_pos (by decide)]
      exact holds_throw (.refuse hb (.inl rfl))
    · rw [if_neg h0]
      exact holds_of_run (bind_error (finish_run _ _)) (.refuse hb (.inl rfl))
  · rw [copycheck_eq hp hlen h32]
    by_cases hbad : USERTOP ≤ ptr ∨ 2 ^ 32 < ptr + len
    · rw [if_pos hbad]
      refine holds_of_run (bind_error (finish_run _ _)) (.refuse hb (.inr fun hin => ?_))
      have := hin.2 ptr (Nat.le_refl _) (by omega)
      have := hin.1
      omega
    rw [if_neg hbad]
    refine holds_bind_run (finish_run _ _) ?_
    by_cases hstop : min len (USERTOP - ptr) = len
    · rw [if_neg (by simp [hstop])]
      have hin : InUser ptr len := ⟨by omega, fun a _ ha => by omega⟩
      refine (withCopyfail_spec ((memcpy_spec way rfl len).bind (P := fun r t =>
        r = .ok (.ok ()) ∧ Moved way ptr k len len { s with pcb_badfaultfunc := some .copyfail } t ∧
          t.faults = s.faults ∨
        r = .error .copyjmp ∧ (∃ j, Moved way ptr k j len { s with pcb_badfaultfunc := some .copyfail } t) ∧
          s.faults < t.faults) ?_ ?_)).imp ?_
      · rintro _ t ⟨hok, -⟩
        exact holds_pure (.inl ⟨rfl, hok rfl⟩)
      · rintro ⟨⟩ t ⟨-, herr⟩
        exact .inr ⟨rfl, herr (by simp)⟩
      · rintro _ _ ⟨r, t, ⟨rfl, hm, hf⟩ | ⟨rfl, ⟨j, hm⟩, hf⟩, rfl, rfl⟩
        · refine ⟨rfl, hm.touched_user (Nat.le_refl _) (by omega), fun _ _ => by simp [setjmp, hin], fun _ => ⟨?_, ?_⟩,
            fun _ => hf, fun h => absurd hin h, by simp [setjmp]⟩
          · cases way <;> exact hm.user
          · cases way <;> exact hm.kernel
        · exact ⟨rfl, hm.touched_user (Nat.le_refl _) (by omega), fun _ hf' => absurd hf' (Nat.ne_of_gt hf),
            by simp [setjmp], by simp [setjmp], fun h => absurd hin h, fun _ => rfl⟩
    · rw [if_pos hstop]
      refine holds_throw (.refuse hb (.inr fun hin => ?_))
      have := hin.2 (ptr + len - 1) (by omega) (by omega)
      omega

end Calls

def Space.quiet : Space := ⟨fun _ => 0, fun _ => 0, none, fun _ _ => false, [], 0⟩

def Space.StringAt (way : Way) (u k : Nat) (s : Space) (n : Nat) : Prop :=
  s.source way u k n = 0 ∧ ∀ j < n, s.source way u k j ≠ 0

structure StringPost (way : Way) (ptr k len : Nat) (s : Space) (r : Except Errno Nat) (t : Space) : Prop where
  pcb : t.pcb_badfaultfunc = none
  touched : ∃ l, t.touched = s.touched ++ l ∧ ∀ a ∈ l, ptr ≤ a ∧ a < ptr + len ∧ a < USERTOP
  room : ∃ j ≤ len, t.user = (s.copied way ptr k j).user ∧ t.kernel = (s.copied way ptr k j).kernel
  string : t.faults = s.faults → ∀ n, r = .ok n ↔
    ∃ m, n = m + 1 ∧ m < len ∧ s.StringAt way ptr k m ∧ ptr + m < USERTOP
  copied : ∀ n, r = .ok n → t.user = (s.copied way ptr k n).user ∧ t.kernel = (s.copied way ptr k n).kernel
  boundary : t.faults = s.faults →
    (r = .error .EFAULT ↔ USERTOP < ptr + len ∧ ∀ j, ptr + j < USERTOP → s.source way ptr k j ≠ 0)
  long : t.faults = s.faults →
    (r = .error .ENAMETOOLONG ↔ ptr + len ≤ USERTOP ∧ ∀ j < len, s.source way ptr k j ≠ 0)

section Strings

variable {way : Way} {ptr k len : Nat} {s t : Space}

theorem Space.StringAt.unique {n m : Nat} (h : s.StringAt way ptr k n) (h' : s.StringAt way ptr k m) : n = m := by
  rcases Nat.lt_trichotomy n m with hlt | rfl | hlt
  · exact absurd h.1 (h'.2 n hlt)
  · rfl
  · exact absurd h'.1 (h.2 m hlt)

theorem StringPost.refuse (hb : s.pcb_badfaultfunc = none) (hlen : 0 < len) (hptr : USERTOP ≤ ptr) :
    StringPost way ptr k len s (.error .EFAULT) s where
  pcb := hb
  touched := ⟨[], by simp, by simp⟩
  room := ⟨0, Nat.zero_le _, by rw [s.copied_zero], by rw [s.copied_zero]⟩
  string _ n := by
    constructor
    · simp
    · rintro ⟨m, -, -, -, hm⟩
      omega
  copied := by simp
  boundary _ := by
    simp only [true_iff]
    exact ⟨by omega, fun j hj => by omega⟩
  long _ := by
    constructor
    · simp
    · rintro ⟨h, -⟩
      omega

theorem Copystr.post {stoplen : Nat} {r : Except Longjmp (Except Errno Nat)}
    (h : Copystr way ptr k len stoplen { s with pcb_badfaultfunc := some .copyfail } r t)
    (hptr : ptr < USERTOP) (hstop : stoplen = min len (USERTOP - ptr)) :
    StringPost way ptr k len s (setjmp r) { t with pcb_badfaultfunc := none } := by
  have hsource : Space.source way ptr k { s with pcb_badfaultfunc := some .copyfail } = s.source way ptr k := by
    cases way <;> rfl
  have hmem : ∀ {j m}, Moved way ptr k j m { s with pcb_badfaultfunc := some .copyfail } t →
      t.user = (s.copied way ptr k j).user ∧ t.kernel = (s.copied way ptr k j).kernel := by
    intro j m hm
    cases way <;> exact ⟨hm.user, hm.kernel⟩
  have hmin : min len stoplen = stoplen := by omega
  cases h with
  | jumps hj hm hf =>
    rw [hmin] at hj hm
    refine ⟨rfl, hm.touched_user (by omega) (by omega), ⟨_, by omega, hmem hm⟩, fun hf' => ?_, by simp [setjmp],
      fun hf' => ?_, fun hf' => ?_⟩ <;> exact absurd hf' (Nat.ne_of_gt hf)
  | @string n _ hn hnul hpre hm hf =>
    rw [hsource] at hnul hpre
    have hstr : s.StringAt way ptr k n := ⟨hnul, hpre⟩
    refine ⟨rfl, hm.touched_user (by omega) (by omega), ⟨_, by omega, hmem hm⟩, fun _ n' => ?_, ?_, fun _ => ?_,
      fun _ => ?_⟩
    · constructor
      · rintro ⟨⟩
        exact ⟨n, rfl, by omega, hstr, by omega⟩
      · rintro ⟨m, rfl, -, hstr', -⟩
        rw [hstr.unique hstr']
        rfl
    · rintro _ ⟨⟩
      exact hmem hm
    · constructor
      · rintro ⟨⟩
      · rintro ⟨-, hno⟩
        exact absurd hnul (hno n (by omega))
    · constructor
      · rintro ⟨⟩
      · rintro ⟨-, hno⟩
        exact absurd hnul (hno n (by omega))
  | long hpre hm hf =>
    rw [hsource] at hpre
    rw [hmin] at hpre hm
    refine ⟨rfl, hm.touched_user (by omega) (by omega), ⟨_, by omega, hmem hm⟩, fun _ n' => ?_, by simp [setjmp],
      fun _ => ?_, fun _ => ?_⟩
    · constructor
      · rintro ⟨⟩
      · rintro ⟨m, rfl, hm, hstr, hlt⟩
        exact absurd hstr.1 (hpre m (by omega))
    · by_cases hend : stoplen < len
      · simp only [setjmp, if_pos hend, true_iff]
        exact ⟨by omega, fun j hj => hpre j (by omega)⟩
      · simp only [setjmp, if_neg hend]
        constructor
        · rintro ⟨⟩
        · rintro ⟨h, -⟩
          omega
    · by_cases hend : stoplen < len
      · simp only [setjmp, if_pos hend]
        constructor
        · rintro ⟨⟩
        · rintro ⟨h, -⟩
          omega
      · simp only [setjmp, if_neg hend, true_iff]
        exact ⟨by omega, fun j hj => hpre j (by omega)⟩

theorem copyString_spec (hlen : 0 < len) (hlen32 : len < 2 ^ 32) (h32 : ptr + len - 1 < 2 ^ 32)
    (hb : s.pcb_badfaultfunc = none) :
    Holds (fun _ => False) (copyString way ptr k len) s (StringPost way ptr k len s) := by
  unfold copyString
  rw [copycheck_eq (by omega) hlen hlen32]
  by_cases hptr : USERTOP ≤ ptr
  · rw [if_pos (.inl hptr)]
    exact holds_of_run (bind_error (finish_run _ _)) (.refuse hb hlen hptr)
  · rw [if_neg (by omega)]
    refine holds_bind_run (finish_run _ _) ((withCopyfail_spec (copystr_spec rfl)).imp ?_)
    rintro _ _ ⟨r, t, hr, rfl, rfl⟩
    exact hr.post (by omega) rfl

/-- Whatever faults, no address from `USERTOP` on is reached and no more than `len` bytes are written.
Without a fault, a string that ends within `len` bytes and below `USERTOP` is copied. -/
theorem copyinstr_copyoutstr_exact (ptr k len : Nat) (s : Space) (hlen : 0 < len) (hlen32 : len < 2 ^ 32)
    (h32 : ptr + len - 1 < 2 ^ 32) (hb : s.pcb_badfaultfunc = none) :
    (∃ r t, copyinstr ptr k len s = .ok (r, t) ∧ StringPost .userToKernel ptr k len s r t) ∧
    (∃ r t, copyoutstr k ptr len s = .ok (r, t) ∧ StringPost .kernelToUser ptr k len s r t) :=
  ⟨(copyString_spec hlen hlen32 h32 hb).exists, (copyString_spec hlen hlen32 h32 hb).exists⟩

end Strings

theorem copyinstr_copyoutstr_last_byte :
    (∃ r t, copyinstr (USERTOP - 1) MIPS_KSEG0 64 .quiet = .ok (r, t) ∧ (t.faults = 0 → r = .ok 1)) ∧
    ∃ r t, copyoutstr MIPS_KSEG0 (USERTOP - 1) 64 .quiet = .ok (r, t) ∧ (t.faults = 0 → r = .ok 1) := by
  obtain ⟨⟨r, t, hrun, hpost⟩, r', t', hrun', hpost'⟩ :=
    copyinstr_copyoutstr_exact (USERTOP - 1) MIPS_KSEG0 64 .quiet (by decide) (by decide) (by decide) rfl
  refine ⟨⟨r, t, hrun, fun hf => (hpost.string hf 1).mpr ⟨0, rfl, by decide, ⟨rfl, by simp⟩, by decide⟩⟩,
    r', t', hrun', fun hf => (hpost'.string hf 1).mpr ⟨0, rfl, by decide, ⟨rfl, by simp⟩, by decide⟩⟩

/-! ## Calls in a row -/

inductive Call where
  | copyin (ptr k len : Nat) | copyout (ptr k len : Nat) | copyinstr (ptr k len : Nat) | copyoutstr (ptr k len : Nat)

def Call.run : Call → Prog Fatal Errno Space Unit
  | copyin ptr k len => do let _ ← attempt (Copyinout.copyin ptr k len)
  | copyout ptr k len => do let _ ← attempt (Copyinout.copyout k ptr len)
  | copyinstr ptr k len => do let _ ← attempt (Copyinout.copyinstr ptr k len)
  | copyoutstr ptr k len => do let _ ← attempt (Copyinout.copyoutstr k ptr len)

def Call.Words : Call → Prop
  | copyin ptr _ len | copyout ptr _ len | copyinstr ptr _ len | copyoutstr ptr _ len => ptr < 2 ^ 32 ∧ len < 2 ^ 32

def runCalls : List Call → Prog Fatal Errno Space Unit
  | [] => pure ()
  | c :: cs => do
    c.run
    runCalls cs

structure Clean (s t : Space) : Prop where
  pcb : t.pcb_badfaultfunc = none
  touched : ∃ l, t.touched = s.touched ++ l ∧ ∀ a ∈ l, a < USERTOP

section Runs

variable {way : Way} {ptr k len : Nat} {s t t' : Space}

theorem Clean.trans (h : Clean s t) (h' : Clean t t') : Clean s t' := by
  obtain ⟨l, hl, hin⟩ := h.touched
  obtain ⟨l', hl', hin'⟩ := h'.touched
  refine ⟨h'.pcb, l ++ l', by rw [hl', hl, List.append_assoc], fun a ha => ?_⟩
  exact (List.mem_append.mp ha).elim (hin a) (hin' a)

theorem BlockPost.clean {r : Except Errno Unit} (h : BlockPost way ptr k len s r t) : Clean s t := by
  obtain ⟨l, hl, hin⟩ := h.touched
  exact ⟨h.pcb, l, hl, fun a ha => (hin a ha).2.2⟩

theorem copyString_clean (hp : ptr < 2 ^ 32) (h32 : len < 2 ^ 32) (hb : s.pcb_badfaultfunc = none) :
    Holds (fun _ => False) (copyString way ptr k len) s fun _ t => Clean s t := by
  rcases Nat.eq_zero_or_pos len with rfl | hlen
  · unfold copyString
    rw [copycheck_empty hp]
    by_cases h0 : ptr = 0
    · rw [if_pos h0]
      exact holds_bind_run (finish_run _ _) (holds_of_run rfl ⟨rfl, [], by simp, by simp⟩)
    · rw [if_neg h0]
      exact holds_of_run (bind_error (finish_run _ _)) ⟨hb, [], by simp, by simp⟩
  · by_cases hwrap : 2 ^ 32 < ptr + len
    · unfold copyString
      rw [copycheck_eq hp hlen h32, if_pos (.inr hwrap)]
      exact holds_of_run (bind_error (finish_run _ _)) ⟨hb, [], by simp, by simp⟩
    · refine (copyString_spec hlen h32 (by omega) hb).imp fun r t h => ?_
      obtain ⟨l, hl, hin⟩ := h.touched
      exact ⟨h.pcb, l, hl, fun a ha => (hin a ha).2.2⟩

theorem Call.run_clean (c : Call) (hc : c.Words) (hb : s.pcb_badfaultfunc = none) :
    Holds (fun _ => False) c.run s fun r t => r = .ok () ∧ Clean s t := by
  cases c with
  | copyin ptr k len => exact (copyBlock_spec hc.1 hc.2 hb).bind_attempt fun _ _ h => holds_pure ⟨rfl, h.clean⟩
  | copyout ptr k len => exact (copyBlock_spec hc.1 hc.2 hb).bind_attempt fun _ _ h => holds_pure ⟨rfl, h.clean⟩
  | copyinstr ptr k len => exact (copyString_clean hc.1 hc.2 hb).bind_attempt fun _ _ h => holds_pure ⟨rfl, h⟩
  | copyoutstr ptr k len => exact (copyString_clean hc.1 hc.2 hb).bind_attempt fun _ _ h => holds_pure ⟨rfl, h⟩

theorem runCalls_clean (cs : List Call) (hcs : ∀ c ∈ cs, c.Words) (hb : s.pcb_badfaultfunc = none) :
    Holds (fun _ => False) (runCalls cs) s fun _ t => Clean s t := by
  induction cs generalizing s with
  | nil => exact holds_pure ⟨hb, [], by simp, by simp⟩
  | cons c cs ih =>
    refine (c.run_clean (hcs c (.head _)) hb).bind ?_ ?_
    · rintro _ t ⟨-, hc⟩
      exact (ih (fun c' hc' => hcs c' (.tail _ hc')) hc.pcb).imp fun _ _ h => hc.trans h
    · rintro _ _ ⟨h, -⟩
      cases h

end Runs

end Os161.Copyinout
