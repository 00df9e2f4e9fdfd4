import Os161.Vm.Copyinout

/-! # `userprog/uio.c` over `copyin` and `copyout`

All of `struct uio`, with the buffer, the iovec and the zeros as addresses. The file system's proofs are over
the simpler uio of `Kern/Uio.lean`.
-/

namespace Os161.Copyinout

open Prog Words

structure Uio where
  iov_base : Nat
  iov_len : Nat
  uio_offset : Int
  uio_resid : Nat
  uio_segflg : UioSeg
  uio_rw : UioRw
  uio_space : Option Nat
  deriving DecidableEq, Repr

def Uio.moved (u : Uio) (size : Nat) : Uio :=
  { u with
    iov_base := (u.iov_base + size) % 2 ^ 32
    iov_len := u.iov_len - size
    uio_resid := toU32 (u.uio_resid - size)
    uio_offset := toI32 (u.uio_offset + size) }

def memmove (dst src len : Nat) : Prog Fatal Errno Space Unit :=
  modify fun s => { s with kernel := s.kernel.copy dst s.kernel src len }

def uiomove_turn (ptr size : Nat) : Prog Fatal Errno (Space × Uio) Unit := do
  let (_, u) ← get
  first (match u.uio_segflg, u.uio_rw with
    | .UIO_SYSSPACE, .UIO_READ => memmove u.iov_base ptr size
    | .UIO_SYSSPACE, .UIO_WRITE => memmove ptr u.iov_base size
    | _, .UIO_READ => copyout ptr u.iov_base size
    | _, .UIO_WRITE => copyin u.iov_base ptr size)
  modify fun x => (x.1, x.2.moved size)

def uiomove_loop : Nat → Nat → Nat → Prog Fatal Errno (Space × Uio) Unit
  | 0, _, _ => pure ()
  | fuel + 1, ptr, n => do
    let (_, u) ← get
    if n > 0 ∧ u.uio_resid > 0 then
      let size := min u.iov_len n
      ensure (size ≠ 0) .uiomove_size
      uiomove_turn ptr size
      uiomove_loop fuel (ptr + size) (n - size)
    else
      pure ()

section Code

variable (t_vmspace : Option Nat)

def uiomove (ptr n : Nat) : Prog Fatal Errno (Space × Uio) Unit := do
  let (_, u) ← get
  ensure (u.uio_space = if u.uio_segflg = .UIO_SYSSPACE then none else t_vmspace) .uiomove_space
  uiomove_loop n ptr n

def uiomovezeros_loop (zeros : Nat) : Nat → Nat → Prog Fatal Errno (Space × Uio) Unit
  | 0, _ => pure ()
  | fuel + 1, n => do
    if n > 0 then
      let amt := min 16 n
      uiomove t_vmspace zeros amt
      uiomovezeros_loop zeros fuel (n - amt)
    else
      pure ()

def uiomovezeros (zeros n : Nat) : Prog Fatal Errno (Space × Uio) Unit := do
  let (_, u) ← get
  ensure (u.uio_rw = .UIO_READ) .uiomovezeros_rw
  uiomovezeros_loop t_vmspace zeros n n

def uiomoves (ptr : Nat) : List Nat → Prog Fatal Errno (Space × Uio) Unit
  | [] => pure ()
  | n :: ns => do
    uiomove t_vmspace ptr n
    uiomoves (ptr + n) ns

end Code

/-! ## One transfer -/

def Space.transferred (s : Space) (u : Uio) (ptr k : Nat) : Space :=
  match u.uio_segflg, u.uio_rw with
  | .UIO_SYSSPACE, .UIO_READ => { s with kernel := s.kernel.copy u.iov_base s.kernel ptr k }
  | .UIO_SYSSPACE, .UIO_WRITE => { s with kernel := s.kernel.copy ptr s.kernel u.iov_base k }
  | _, .UIO_READ => s.copied .kernelToUser u.iov_base ptr k
  | _, .UIO_WRITE => s.copied .userToKernel u.iov_base ptr k

structure Uio.Fits (t_vmspace : Option Nat) (u : Uio) : Prop where
  base : u.iov_base < 2 ^ 32
  len : u.iov_len < 2 ^ 32
  resid : u.uio_resid ≤ u.iov_len
  lo : -2 ^ 31 ≤ u.uio_offset
  hi : u.uio_offset < 2 ^ 31
  space : u.uio_space = if u.uio_segflg = .UIO_SYSSPACE then none else t_vmspace
  kernel : u.uio_segflg = .UIO_SYSSPACE → u.iov_base + u.iov_len ≤ 2 ^ 32

def Uio.Bounds (u : Uio) (n : Nat) : Prop := n ≤ u.uio_resid ∨ u.uio_resid = u.iov_len

structure Transfer (ptr k : Nat) (s : Space) (u : Uio) (t : Space) (u' : Uio) : Prop where
  user : t.user = (s.transferred u ptr k).user
  kernel : t.kernel = (s.transferred u ptr k).kernel
  uio : u' = u.moved k
  pcb : t.pcb_badfaultfunc = none
  faults : t.faults = s.faults

section Moves

variable {t_vmspace : Option Nat} {ptr n k m : Nat} {s s' t : Space} {u u' u'' : Uio}

theorem Uio.Fits.moved_resid (h : u.Fits t_vmspace) (hk : k ≤ u.uio_resid) :
    (u.moved k).uio_resid = u.uio_resid - k :=
  toU32_sub hk (Nat.lt_of_le_of_lt h.resid h.len)

theorem Uio.Fits.moved (h : u.Fits t_vmspace) (hk : k ≤ u.uio_resid) : (u.moved k).Fits t_vmspace where
  base := Nat.mod_lt _ (by decide)
  len := Nat.lt_of_le_of_lt (Nat.sub_le _ _) h.len
  resid := by
    rw [h.moved_resid hk]
    exact Nat.sub_le_sub_right h.resid k
  lo := (toI32_range _).1
  hi := (toI32_range _).2
  space := h.space
  kernel hseg := by
    have := h.kernel hseg
    have := h.resid
    simp only [Uio.moved]
    omega

theorem Uio.Fits.moved_zero (h : u.Fits t_vmspace) : u.moved 0 = u := by
  have hb := h.base
  have h1 := h.moved_resid (Nat.zero_le _)
  have h2 := toI32_add_zero h.lo h.hi
  cases u
  simp only [Uio.moved, Uio.mk.injEq, and_true] at *
  exact ⟨Nat.mod_eq_of_lt hb, by omega, h2, h1⟩

theorem Uio.Fits.moved_moved (h : u.Fits t_vmspace) (hk : k + m ≤ u.uio_resid) :
    (u.moved k).moved m = u.moved (k + m) := by
  have hbase : ((u.iov_base + k) % 2 ^ 32 + m) % 2 ^ 32 = (u.iov_base + (k + m)) % 2 ^ 32 := by omega
  simp only [Uio.moved, hbase, Nat.sub_sub, toI32_add_add, toU32_sub_sub hk (Nat.lt_of_le_of_lt h.resid h.len)]

theorem Space.transferred_zero (s : Space) : s.transferred u ptr 0 = s := by
  unfold Space.transferred
  split <;> simp only [Mem.copy_zero, Space.copied_zero]

theorem Transfer.none (hu : u.Fits t_vmspace) (hb : s.pcb_badfaultfunc = none) : Transfer ptr 0 s u s u :=
  ⟨by rw [s.transferred_zero], by rw [s.transferred_zero], hu.moved_zero.symm, hb, rfl⟩

def Outcome (T : Space → Uio → Prop) (k : Nat) (s : Space) (u : Uio) (r : Except Errno Unit) (x : Space × Uio) : Prop :=
  r = .ok () ∧ T x.1 x.2 ∧ (u.uio_segflg ≠ .UIO_SYSSPACE → 0 < k → u.iov_base + k ≤ USERTOP) ∨
  r = .error .EFAULT ∧ u.uio_segflg ≠ .UIO_SYSSPACE ∧ (x.1.faults ≠ s.faults ∨ ¬ InUser u.iov_base k)

abbrev Moving (ptr k : Nat) (s : Space) (u : Uio) : Except Errno Unit → Space × Uio → Prop :=
  Outcome (Transfer ptr k s u) k s u

theorem block_turn {way : Way} (hu : u.Fits t_vmspace) (hseg : u.uio_segflg ≠ .UIO_SYSSPACE)
    (hb : s.pcb_badfaultfunc = none) (hk : 0 < k) (hlen : k ≤ u.iov_len)
    (hmem : s.transferred u ptr k = s.copied way u.iov_base ptr k) :
    Holds (fun _ => False) (do
      first (copyBlock way u.iov_base ptr k)
      modify fun x : Space × Uio => (x.1, x.2.moved k)) (s, u) (Moving ptr k s u) := by
  have hk32 : k < 2 ^ 32 := Nat.lt_of_le_of_lt hlen hu.len
  refine ((copyBlock_spec hu.base hk32 hb).first (u := u) (P := fun r x => u = x.2 ∧
    BlockPost way u.iov_base ptr k s r x.1) fun r t hq => ⟨rfl, hq⟩).bind ?_ ?_
  · rintro _ ⟨t, _⟩ ⟨rfl, hq⟩
    obtain ⟨huser, hkernel⟩ := hq.copied rfl
    have hin : InUser u.iov_base k := by
      by_contra hn
      cases (hq.refused hn).1
    refine holds_of_run (modify_run _ _) (.inl ⟨rfl, ⟨by rw [hmem, huser], by rw [hmem, hkernel], rfl, hq.pcb,
      hq.faults rfl⟩, fun _ _ => ?_⟩)
    have := hin.2 (u.iov_base + k - 1) (by omega) (by omega)
    omega
  · rintro e ⟨t, _⟩ ⟨rfl, hq⟩
    have he := hq.error (by simp)
    refine .inr ⟨by cases he; rfl, hseg, ?_⟩
    by_contra hn
    rw [not_or, not_not, not_not] at hn
    cases (hq.result hk hn.1).mpr hn.2

theorem uiomove_turn_spec (hu : u.Fits t_vmspace) (hb : s.pcb_badfaultfunc = none) (hk : 0 < k) (hlen : k ≤ u.iov_len) :
    Holds (fun _ => False) (uiomove_turn ptr k) (s, u) (Moving ptr k s u) := by
  unfold uiomove_turn
  refine holds_bind_run (get_run _) ?_
  dsimp only
  cases hseg : u.uio_segflg with
  | UIO_SYSSPACE =>
    -- in the kernel nothing can fail
    cases hrw : u.uio_rw with
    | UIO_READ =>
      refine holds_bind_run (first_ok (modify_run _ _)) (holds_of_run (modify_run _ _)
        (.inl ⟨rfl, ⟨?_, ?_, rfl, hb, rfl⟩, fun hne => absurd hseg hne⟩))
      · simp only [Space.transferred, hseg, hrw]
      · simp only [Space.transferred, hseg, hrw]
    | UIO_WRITE =>
      refine holds_bind_run (first_ok (modify_run _ _)) (holds_of_run (modify_run _ _)
        (.inl ⟨rfl, ⟨?_, ?_, rfl, hb, rfl⟩, fun hne => absurd hseg hne⟩))
      · simp only [Space.transferred, hseg, hrw]
      · simp only [Space.transferred, hseg, hrw]
  | UIO_USERSPACE =>
    have hne : u.uio_segflg ≠ .UIO_SYSSPACE := by rw [hseg]; decide
    cases hrw : u.uio_rw with
    | UIO_READ => exact block_turn hu hne hb hk hlen (by simp only [Space.transferred, hseg, hrw])
    | UIO_WRITE => exact block_turn hu hne hb hk hlen (by simp only [Space.transferred, hseg, hrw])
  | UIO_USERISPACE =>
    have hne : u.uio_segflg ≠ .UIO_SYSSPACE := by rw [hseg]; decide
    cases hrw : u.uio_rw with
    | UIO_READ => exact block_turn hu hne hb hk hlen (by simp only [Space.transferred, hseg, hrw])
    | UIO_WRITE => exact block_turn hu hne hb hk hlen (by simp only [Space.transferred, hseg, hrw])

theorem uiomove_loop_done (fuel ptr n : Nat) {x : Space × Uio} (h : n = 0 ∨ x.2.uio_resid = 0) :
    uiomove_loop fuel ptr n x = .ok (.ok (), x) := by
  cases fuel with
  | zero => rfl
  | succ fuel =>
    rw [uiomove_loop, bind_ok (get_run _)]
    dsimp only
    rw [if_neg (by omega)]
    rfl

theorem uiomove_spec (hu : u.Fits t_vmspace) (hb : s.pcb_badfaultfunc = none) (hn : u.Bounds n) (ptr : Nat) :
    Holds (fun _ => False) (uiomove t_vmspace ptr n) (s, u) (Moving ptr (min n u.uio_resid) s u) := by
  have hres := hu.resid
  unfold uiomove
  refine holds_bind_run (get_run _) (holds_ensure_bind (.inl hu.space) fun _ => ?_)
  by_cases h0 : n = 0 ∨ u.uio_resid = 0
  · have hmin : min n u.uio_resid = 0 := by omega
    rw [hmin]
    exact holds_of_run (uiomove_loop_done _ _ _ h0) (.inl ⟨rfl, .none hu hb, fun _ h => by omega⟩)
  · obtain ⟨fuel, rfl⟩ : ∃ fuel, n = fuel + 1 := ⟨n - 1, by omega⟩
    have hsize : min u.iov_len (fuel + 1) = min (fuel + 1) u.uio_resid := by
      rcases hn with hn | hn <;> omega
    rw [uiomove_loop]
    refine holds_bind_run (get_run _) ?_
    dsimp only
    rw [if_pos (by omega), hsize]
    refine holds_ensure_bind (.inl (by omega)) fun _ =>
      (uiomove_turn_spec hu hb (by omega) (by omega)).bind ?_ ?_
    · rintro _ ⟨t, u'⟩ (⟨-, hm, htop⟩ | ⟨h, -⟩)
      · refine holds_of_run (uiomove_loop_done _ _ _ ?_) (.inl ⟨rfl, hm, htop⟩)
        have hres' := hu.moved_resid (k := min (fuel + 1) u.uio_resid) (by omega)
        rw [hm.uio]
        omega
      · cases h
    · rintro e x (⟨h, -⟩ | ⟨h, hrest⟩)
      · cases h
      · cases h
        exact .inr ⟨rfl, hrest⟩

/-! ## Transfers in a row -/

def Uio.ApartFrom (u : Uio) (ptr n : Nat) : Prop :=
  u.uio_segflg = .UIO_SYSSPACE → ptr + n ≤ u.iov_base ∨ u.iov_base + u.iov_len ≤ ptr

theorem Uio.Fits.moved_base (hu : u.Fits t_vmspace) (hkm : k + m ≤ u.uio_resid) (hm : 0 < m)
    (htop : u.uio_segflg ≠ .UIO_SYSSPACE → 0 < k → u.iov_base + k ≤ USERTOP) :
    (u.moved k).iov_base = u.iov_base + k := by
  have hbase := hu.base
  have hres := hu.resid
  refine Nat.mod_eq_of_lt ?_
  by_cases hseg : u.uio_segflg = .UIO_SYSSPACE
  · have := hu.kernel hseg
    omega
  · rcases Nat.eq_zero_or_pos k with rfl | hk
    · exact hbase
    · have := htop hseg hk
      simp only [USERTOP, MIPS_KSEG0] at this
      omega

theorem Transfer.trans (h : Transfer ptr k s u t u') (h' : Transfer (ptr + n) m t u' s' u'') (hu : u.Fits t_vmspace)
    (hkm : k + m ≤ u.uio_resid) (hnk : k = n ∨ m = 0) (hap : u.ApartFrom ptr (k + m))
    (htop : u.uio_segflg ≠ .UIO_SYSSPACE → 0 < k → u.iov_base + k ≤ USERTOP) :
    Transfer ptr (k + m) s u s' u'' := by
  have hres := hu.resid
  obtain ⟨huser, hkernel, rfl, -, hf⟩ := h
  obtain ⟨huser', hkernel', rfl, hb', hf'⟩ := h'
  suffices hmem : (t.transferred (u.moved k) (ptr + n) m).user = (s.transferred u ptr (k + m)).user ∧
      (t.transferred (u.moved k) (ptr + n) m).kernel = (s.transferred u ptr (k + m)).kernel from
    ⟨huser'.trans hmem.1, hkernel'.trans hmem.2, hu.moved_moved hkm, hb', hf'.trans hf⟩
  rcases Nat.eq_zero_or_pos m with rfl | hm
  · rw [t.transferred_zero, Nat.add_zero]
    exact ⟨huser, hkernel⟩
  obtain rfl : k = n := by omega
  have hbase := hu.moved_base hkm hm htop
  unfold Space.transferred at huser hkernel ⊢
  rw [hbase]
  simp only [Uio.moved]
  cases hseg : u.uio_segflg with
  | UIO_SYSSPACE =>
    cases hrw : u.uio_rw with
    | UIO_READ =>
      simp only [hseg, hrw] at huser hkernel ⊢
      rw [hkernel]
      exact ⟨huser, Mem.copy_copy_self _ ((hap hseg).imp id fun h => by omega)⟩
    | UIO_WRITE =>
      simp only [hseg, hrw] at huser hkernel ⊢
      rw [hkernel]
      exact ⟨huser, Mem.copy_copy_self _ ((hap hseg).symm.imp (fun h => by omega) id)⟩
  | UIO_USERSPACE =>
    cases hrw : u.uio_rw with
    | UIO_READ =>
      simp only [hseg, hrw, Space.copied] at huser hkernel ⊢
      rw [huser, hkernel]
      exact ⟨Mem.copy_copy .., rfl⟩
    | UIO_WRITE =>
      simp only [hseg, hrw, Space.copied] at huser hkernel ⊢
      rw [huser, hkernel]
      exact ⟨rfl, Mem.copy_copy ..⟩
  | UIO_USERISPACE =>
    cases hrw : u.uio_rw with
    | UIO_READ =>
      simp only [hseg, hrw, Space.copied] at huser hkernel ⊢
      rw [huser, hkernel]
      exact ⟨Mem.copy_copy .., rfl⟩
    | UIO_WRITE =>
      simp only [hseg, hrw, Space.copied] at huser hkernel ⊢
      rw [huser, hkernel]
      exact ⟨rfl, Mem.copy_copy ..⟩

theorem Uio.Bounds.rest {n₁ n₂ : Nat} (hu : u.Fits t_vmspace) (hn : u.Bounds (n₁ + n₂)) :
    (u.moved (min n₁ u.uio_resid)).Bounds n₂ ∧
      min (n₁ + n₂) u.uio_resid = min n₁ u.uio_resid + min n₂ (u.moved (min n₁ u.uio_resid)).uio_resid := by
  have hres := hu.moved_resid (k := min n₁ u.uio_resid) (by omega)
  have hlen : (u.moved (min n₁ u.uio_resid)).iov_len = u.iov_len - min n₁ u.uio_resid := rfl
  rw [Uio.Bounds, hres, hlen]
  unfold Uio.Bounds at hn
  omega

theorem InUser.rest (h : InUser n (k + m)) : InUser (n + k) m :=
  ⟨by have := h.1; omega, fun a ha ha' => h.2 a (by omega) (by omega)⟩

theorem Outcome.then {T T' : Space → Uio → Prop} {n₁ n₂ k₂ : Nat} {r : Except Errno Unit} {x : Space × Uio}
    (hu : u.Fits t_vmspace) (hu' : u' = u.moved (min n₁ u.uio_resid)) (hf : t.faults = s.faults)
    (htop : u.uio_segflg ≠ .UIO_SYSSPACE → 0 < min n₁ u.uio_resid → u.iov_base + min n₁ u.uio_resid ≤ USERTOP)
    (hk₂ : k₂ = min n₂ u'.uio_resid) (h : Outcome T' k₂ t u' r x) (hT : T' x.1 x.2 → T x.1 x.2) :
    Outcome T (min n₁ u.uio_resid + k₂) s u r x := by
  have hres := hu.moved_resid (k := min n₁ u.uio_resid) (by omega)
  rw [hu', hres] at hk₂
  rcases h with ⟨hr, ht, htop'⟩ | ⟨hr, hseg, hwhy⟩
  · refine .inl ⟨hr, hT ht, fun hs hk => ?_⟩
    rcases Nat.eq_zero_or_pos k₂ with h0 | hpos
    · rw [h0, Nat.add_zero] at hk ⊢
      exact htop hs hk
    · have hb := hu.moved_base (k := min n₁ u.uio_resid) (m := k₂) (by omega) hpos htop
      have := htop' (by rw [hu']; exact hs) hpos
      rw [hu', hb] at this
      omega
  · refine .inr ⟨hr, by rw [hu'] at hseg; exact hseg, ?_⟩
    rcases hwhy with hf' | hin
    · exact .inl (by rw [← hf]; exact hf')
    · refine .inr fun hall => hin ?_
      rcases Nat.eq_zero_or_pos k₂ with h0 | hpos
      · have hbase : u'.iov_base < 2 ^ 32 := hu' ▸ (hu.moved (Nat.min_le_right _ _)).base
        exact ⟨by omega, fun a ha ha' => by omega⟩
      · rw [hu', hu.moved_base (by omega) hpos htop]
        exact hall.rest

theorem Outcome.fails {T T' : Space → Uio → Prop} {e : Errno} {x : Space × Uio}
    (h : Outcome T' k s u (.error e) x) : Outcome T (k + m) s u (.error e) x := by
  rcases h with ⟨h, -⟩ | ⟨h, hseg, hwhy⟩
  · cases h
  · refine .inr ⟨by cases h; rfl, hseg, hwhy.imp id fun hin hall => hin ?_⟩
    exact ⟨by have := hall.1; omega, fun a ha ha' => hall.2 a ha (by omega)⟩

theorem Uio.ApartFrom.rest {n₁ n₂ : Nat} (hu : u.Fits t_vmspace) (hap : u.ApartFrom ptr (n₁ + n₂)) :
    (u.moved (min n₁ u.uio_resid)).ApartFrom (ptr + n₁) n₂ := by
  intro hseg
  have hkernel := hu.kernel hseg
  have hres := hu.resid
  have := hap hseg
  simp only [Uio.moved]
  omega

theorem uiomoves_spec (ns : List Nat) (hu : u.Fits t_vmspace) (hb : s.pcb_badfaultfunc = none) (hn : u.Bounds ns.sum)
    (hap : u.ApartFrom ptr ns.sum) :
    Holds (fun _ => False) (uiomoves t_vmspace ptr ns) (s, u) (Moving ptr (min ns.sum u.uio_resid) s u) := by
  induction ns generalizing ptr s u with
  | nil =>
    rw [List.sum_nil, Nat.zero_min]
    exact holds_pure (.inl ⟨rfl, .none hu hb, fun _ h => by omega⟩)
  | cons n ns ih =>
    rw [List.sum_cons] at hn hap ⊢
    obtain ⟨hrest, hmin⟩ := hn.rest hu
    rw [uiomoves, hmin]
    refine (uiomove_spec hu hb (hn.imp (fun h => by omega) id) ptr).bind ?_ fun _ _ => Outcome.fails
    rintro _ ⟨t, u'⟩ (⟨-, htr, htop⟩ | ⟨h, -⟩)
    · obtain rfl : u' = _ := htr.uio
      refine (ih (hu.moved (Nat.min_le_right _ _)) htr.pcb hrest (hap.rest hu)).imp fun r x hx => ?_
      have hres := hu.moved_resid (k := min n u.uio_resid) (by omega)
      refine hx.then hu rfl htr.faults htop rfl fun htr' => ?_
      refine htr.trans htr' hu (by omega) (by omega) (fun hs => ?_) htop
      have := hap hs
      omega
    · cases h

/-! ## Zeros -/

def Space.zeroed (s : Space) (u : Uio) (k : Nat) : Space :=
  if u.uio_segflg = .UIO_SYSSPACE then { s with kernel := s.kernel.copy u.iov_base (fun _ => 0) 0 k }
  else { s with user := s.user.copy u.iov_base (fun _ => 0) 0 k }

structure Zeroes (k : Nat) (s : Space) (u : Uio) (t : Space) (u' : Uio) : Prop where
  user : t.user = (s.zeroed u k).user
  kernel : t.kernel = (s.zeroed u k).kernel
  uio : u' = u.moved k
  pcb : t.pcb_badfaultfunc = none
  faults : t.faults = s.faults

theorem Transfer.zeroes (h : Transfer ptr k s u t u') (hrw : u.uio_rw = .UIO_READ) (hz : ∀ i < k, s.kernel (ptr + i) = 0) :
    Zeroes k s u t u' := by
  have hmem : s.transferred u ptr k = s.zeroed u k := by
    cases hseg : u.uio_segflg <;>
      simp only [Space.transferred, Space.zeroed, Space.copied, hseg, hrw, Mem.copy_zeros hz, if_true, reduceCtorEq,
        if_false]
  exact ⟨by rw [h.user, hmem], by rw [h.kernel, hmem], h.uio, h.pcb, h.faults⟩

theorem Zeroes.keep {a : Nat} (h : Zeroes k s u t u') (ha : s.kernel a = 0) : t.kernel a = 0 := by
  rw [h.kernel, Space.zeroed]
  split
  · simp only [Mem.copy]
    split
    · rfl
    · exact ha
  · exact ha

theorem Zeroes.none (hu : u.Fits t_vmspace) (hb : s.pcb_badfaultfunc = none) : Zeroes 0 s u s u := by
  have hmem : s.zeroed u 0 = s := by
    unfold Space.zeroed
    split <;> simp only [Mem.copy_zero]
  exact ⟨by rw [hmem], by rw [hmem], hu.moved_zero.symm, hb, rfl⟩

theorem Zeroes.trans (h : Zeroes k s u t u') (h' : Zeroes m t u' s' u'') (hu : u.Fits t_vmspace)
    (hkm : k + m ≤ u.uio_resid) (htop : u.uio_segflg ≠ .UIO_SYSSPACE → 0 < k → u.iov_base + k ≤ USERTOP) :
    Zeroes (k + m) s u s' u'' := by
  have hzeros : ∀ (d : Mem) a, (d.copy a (fun _ => 0) 0 k).copy (a + k) (fun _ => 0) 0 m =
      d.copy a (fun _ => 0) 0 (k + m) := fun d a => by
    rw [← Mem.copy_copy, Mem.copy_zeros (b := 0 + k) fun _ _ => rfl]
  obtain ⟨huser, hkernel, rfl, -, hf⟩ := h
  obtain ⟨huser', hkernel', rfl, hb', hf'⟩ := h'
  suffices hmem : (t.zeroed (u.moved k) m).user = (s.zeroed u (k + m)).user ∧
      (t.zeroed (u.moved k) m).kernel = (s.zeroed u (k + m)).kernel from
    ⟨huser'.trans hmem.1, hkernel'.trans hmem.2, hu.moved_moved hkm, hb', hf'.trans hf⟩
  rcases Nat.eq_zero_or_pos m with rfl | hm
  · have h0 : t.zeroed (u.moved k) 0 = t := by
      unfold Space.zeroed
      split <;> simp only [Mem.copy_zero]
    rw [h0, Nat.add_zero]
    exact ⟨huser, hkernel⟩
  have hbase := hu.moved_base hkm hm htop
  unfold Space.zeroed at huser hkernel ⊢
  rw [hbase, show (u.moved k).uio_segflg = u.uio_segflg from rfl]
  split
  · rename_i hseg
    rw [if_pos hseg] at huser hkernel
    rw [hkernel, huser]
    exact ⟨rfl, hzeros _ _⟩
  · rename_i hseg
    rw [if_neg hseg] at huser hkernel
    rw [hkernel, huser]
    exact ⟨hzeros _ _, rfl⟩

theorem uiomovezeros_loop_spec {zeros : Nat} (fuel : Nat) (hu : u.Fits t_vmspace) (hb : s.pcb_badfaultfunc = none)
    (hrw : u.uio_rw = .UIO_READ) (hz : ∀ i < 16, s.kernel (zeros + i) = 0) (hfuel : n ≤ fuel) (hn : u.Bounds n) :
    Holds (fun _ => False) (uiomovezeros_loop t_vmspace zeros fuel n) (s, u)
      (Outcome (Zeroes (min n u.uio_resid) s u) (min n u.uio_resid) s u) := by
  have hdone : n = 0 → Outcome (Zeroes (min n u.uio_resid) s u) (min n u.uio_resid) s u (.ok ()) (s, u) := by
    rintro rfl
    rw [Nat.zero_min]
    exact .inl ⟨rfl, .none hu hb, fun _ h => by omega⟩
  induction fuel generalizing n s u with
  | zero => exact holds_pure (hdone (by omega))
  | succ fuel ih =>
    rw [uiomovezeros_loop]
    by_cases h0 : n > 0
    · rw [if_pos h0]
      obtain ⟨rest, hsum⟩ : ∃ rest, n = min 16 n + rest := ⟨n - min 16 n, by omega⟩
      have hsub : n - min 16 n = rest := by omega
      generalize hamt : min 16 n = amt at hsum hsub ⊢
      subst hsum
      dsimp only
      rw [hsub]
      obtain ⟨hrest, hmin⟩ := hn.rest hu
      rw [hmin]
      refine (uiomove_spec hu hb (hn.imp (fun h => by omega) id) zeros).bind ?_ fun _ _ => Outcome.fails
      rintro _ ⟨t, u'⟩ (⟨-, htr, htop⟩ | ⟨h, -⟩)
      · have hzero := htr.zeroes hrw fun i hi => hz i (by omega)
        obtain rfl : u' = _ := htr.uio
        have hres := hu.moved_resid (k := min amt u.uio_resid) (by omega)
        refine (ih (hu.moved (Nat.min_le_right _ _)) htr.pcb hrw (fun i hi => hzero.keep (hz i hi)) (by omega)
          hrest ?_).imp fun r x hx => ?_
        · rintro rfl
          rw [Nat.zero_min]
          exact .inl ⟨rfl, .none (hu.moved (Nat.min_le_right _ _)) htr.pcb, fun _ h => by omega⟩
        · exact hx.then hu rfl htr.faults htop rfl fun hz' => hzero.trans hz' hu (by omega) htop
      · cases h
    · rw [if_neg h0]
      exact holds_pure (hdone (by omega))

end Moves

def kernelUio (resid : Nat) : Uio := ⟨MIPS_KSEG0 + 16, 8, 0, resid, .UIO_SYSSPACE, .UIO_READ, none⟩

def Space.numbered : Space := { Space.quiet with kernel := fun a => BitVec.ofNat 8 a }

end Os161.Copyinout
