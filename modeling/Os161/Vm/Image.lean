import Os161.Vm.Loadelf

/-! # The image of a program

User memory as `vm_fault` translates it, and what loading a program writes there.
-/

namespace Os161.Elf

open Prog Words

/-! ## User memory -/

structure Loading (as : Addrspace) (last : Nat) (vm : Vm) : Prop where
  space : vm.t_vmspace = some as
  last : vm.ram.lastpaddr = last
  tlb : vm.tlb.Agrees as

def userByte (as : Addrspace) (vm : Vm) (va : Nat) : Option Byte := (as.translate va).map vm.mem

def Puts (as : Addrspace) (last lo n : Nat) (f : Nat → Option Byte) (vm vm' : Vm) : Prop :=
  as.Apart last → as.Aligned → ∀ va,
    userByte as vm' va = if lo ≤ va ∧ va < lo + n then f (va - lo) else userByte as vm va

def Unready (as : Addrspace) (last : Nat) (_ : VmPanic) : Prop := ¬ (as.IsSet ∧ as.Aligned ∧ as.Apart last)

section Memory

variable {as : Addrspace} {last va lo n m : Nat} {vm vm' vm'' : Vm} {f g : Nat → Option Byte} {b : Byte}

theorem Puts.refl (h : vm'.mem = vm.mem) : Puts as last lo 0 f vm vm' := by
  intro _ _ va
  rw [if_neg (by omega), userByte, userByte, h]

theorem Puts.trans (h : Puts as last lo n f vm vm') (h' : Puts as last (lo + n) m g vm' vm'') :
    Puts as last lo (n + m) (fun i => if i < n then f i else g (i - n)) vm vm'' := by
  intro ha hl va
  rw [h' ha hl, h ha hl]
  split
  · rw [if_pos (by omega)]
    beta_reduce
    rw [if_neg (by omega), Nat.sub_sub]
  · split
    · rw [if_pos (by omega)]
      beta_reduce
      rw [if_pos (by omega)]
    · rw [if_neg (by omega)]

theorem Puts.congr (h : Puts as last lo n f vm vm') (hfg : ∀ i < n, f i = g i) : Puts as last lo n g vm vm' := by
  intro ha hl va
  rw [h ha hl]
  split
  · exact hfg _ (by omega)
  · rfl

theorem Puts.of_mem {pa : Nat} (hpa : as.translate va = some pa) (hmem : vm'.mem = Function.update vm.mem pa b) :
    Puts as last va 1 (fun _ => some b) vm vm' := by
  intro hap hal va'
  by_cases hva : va' = va
  · subst hva
    rw [if_pos (by omega), userByte, hpa, hmem]
    simp
  · rw [if_neg (by omega), userByte, userByte, hmem]
    cases hpa' : as.translate va' with
    | none => rfl
    | some pa' =>
      have hne : pa' ≠ pa := fun he => hva (hap.translate_inj hal (he ▸ hpa') hpa)
      simp [Function.update_of_ne hne]

theorem switch_back_spec (h : Loading as last vm) :
    ∃ vm', switch_back vm = .ok (.ok (), vm') ∧ Loading as last vm' ∧ vm'.mem = vm.mem := by
  unfold switch_back
  split
  · exact ⟨_, rfl, h, rfl⟩
  · refine ⟨_, rfl, ⟨h.space, h.last, ?_⟩, rfl⟩
    dsimp only
    split
    · exact activate_agrees as
    · exact h.tlb

theorem user_access_spec {ft : FaultType} (hft : ft ≠ .VM_FAULT_READONLY) (h : Loading as last vm) :
    Holds (Unready as last) (user_access ft va) vm fun r t =>
      Loading as last t ∧ t.mem = vm.mem ∧ ∀ pa, r = .ok pa → as.translate va = some pa := by
  have htrans : ∀ {pa}, vm_fault_paddr as (pageFrame va) = some pa → as.translate va = some (pa + va % PAGE_SIZE) := by
    intro pa hpa
    rw [Addrspace.translate, hpa]
    rfl
  obtain ⟨vm₁, hrun, h₁, hmem⟩ := switch_back_spec h
  unfold user_access
  refine holds_bind_run hrun (holds_bind_run (get_run _) ?_)
  cases hl : vm₁.tlb.lookup (pageFrame va) with
  | some pa =>
    refine holds_pure ⟨h₁, hmem, ?_⟩
    rintro _ ⟨⟩
    exact htrans (h₁.tlb.lookup hl)
  | none =>
    dsimp only
    rw [h₁.space]
    have hfault : Holds (Unready as last)
        (zoom Vm.tlb (fun tlb vm => { vm with tlb := tlb }) (vm_fault ft va (some as))) vm₁ fun r t =>
          Refill as (pageFrame va) vm₁.tlb r t.tlb ∧ Loading as last t ∧ t.mem = vm.mem :=
      (vm_fault_spec as last hft va vm₁.tlb).zoom fun r t hr => ⟨hr, ⟨h₁.space, h₁.last, hr.agrees h₁.tlb⟩, hmem⟩
    refine hfault.bind_attempt ?_
    rintro (e | u) t ⟨hr, ht, htm⟩
    · exact holds_throw ⟨ht, htm, (by simp)⟩
    refine holds_bind_run (get_run _) ?_
    cases hl' : t.tlb.lookup (pageFrame va) with
    | some pa =>
      refine holds_pure ⟨ht, htm, ?_⟩
      rintro _ ⟨⟩
      exact htrans (ht.tlb.lookup hl')
    | none =>
      have := hr.lookup
      rw [hl'] at this
      cases this

theorem translate_lt (hap : as.Apart last) (hal : as.Aligned) {pa : Nat} (h : as.translate va = some pa) : pa < last := by
  obtain ⟨q, hq, rfl⟩ := Option.map_eq_some_iff.mp h
  have := (hap.paddr hal (pageFrame_mod va) hq).2
  simp only [PAGE_SIZE] at *
  omega

theorem user_store_spec (h : Loading as last vm) (b : Byte) :
    Holds (Unready as last) (user_store va b) vm fun r t =>
      Loading as last t ∧ (r = .ok () → Puts as last va 1 (fun _ => some b) vm t) := by
  unfold user_store
  refine (user_access_spec (by decide) h).bind ?_ fun _ _ hq => ⟨hq.1, nofun⟩
  rintro pa t ⟨ht, htm, hpa⟩
  have hpa := hpa pa rfl
  refine holds_bind_run (get_run _) (holds_ensure_bind ?_ fun _ => ?_)
  · refine (Classical.em (as.IsSet ∧ as.Aligned ∧ as.Apart last)).imp (fun hr => ?_) id
    rw [ht.last]
    exact translate_lt hr.2.2 hr.2.1 hpa
  · refine holds_of_run (set_run _ _) ⟨⟨ht.space, ht.last, ht.tlb⟩, fun _ => ?_⟩
    exact Puts.of_mem hpa (by rw [htm])

theorem memcpy_out_spec (h : Loading as last vm) (src : Mem) (pos dest len : Nat) :
    Holds (Unready as last) (memcpy_out src pos dest len) vm fun r t =>
      Loading as last t ∧ (r = .ok () → Puts as last dest len (fun i => some (src (pos + i))) vm t) := by
  induction len generalizing vm pos dest with
  | zero => exact holds_pure ⟨h, fun _ => .refl rfl⟩
  | succ len ih =>
    refine (user_store_spec h _).bind ?_ fun _ _ hq => ⟨hq.1, nofun⟩
    rintro _ t ⟨ht, hput⟩
    refine (ih ht (pos + 1) (dest + 1)).imp fun r t' hq => ⟨hq.1, fun hr => ?_⟩
    rw [Nat.add_comm len 1]
    refine ((hput rfl).trans (hq.2 hr)).congr fun i hi => ?_
    split
    · rw [show i = 0 by omega]; rfl
    · rw [show pos + 1 + (i - 1) = pos + i by omega]

theorem copyout_spec (h : Loading as last vm) (src : Mem) (pos : Nat) {dest len : Nat} (hlen : 0 < len)
    (hdest : dest < 2 ^ 32) (hlen' : len < 2 ^ 32) :
    Holds (Unready as last) (copyout src pos dest len) vm fun r t =>
      Loading as last t ∧
      (r = .ok () → dest + len ≤ USERTOP ∧ Puts as last dest len (fun i => some (src (pos + i))) vm t) := by
  unfold copyout
  cases hc : copycheck dest len with
  | error e => exact Holds.bind (Q := fun r t => r = .error e ∧ t = vm) (.done rfl ⟨rfl, rfl⟩) (by simp) (by
      rintro _ _ ⟨-, rfl⟩
      exact ⟨h, nofun⟩)
  | ok stoplen =>
    refine holds_bind_run (finish_run _ _) ?_
    split
    · exact holds_throw ⟨h, nofun⟩
    · rename_i heq
      have hbound : dest + len ≤ USERTOP := by
        simp only [copycheck, USERTOP, MIPS_KSEG0] at hc ⊢
        split at hc
        · cases hc
        split at hc
        · cases hc
        split at hc <;> cases hc <;> omega
      exact (memcpy_out_spec h src pos dest len).imp fun r t hq => ⟨hq.1, fun hr => ⟨hbound, hq.2 hr⟩⟩

end Memory

/-! ## Moves -/

structure Uio.Fits (u : Uio) : Prop where
  rw : u.uio_rw = .UIO_READ
  base : u.iov_base < 2 ^ 32
  len : u.iov_len < 2 ^ 32
  resid : u.uio_resid ≤ u.iov_len
  lo : -2 ^ 31 ≤ u.uio_offset
  hi : u.uio_offset < 2 ^ 31

section Moves

variable {as : Addrspace} {last n m : Nat} {vm : Vm} {u : Uio} {file : File}

theorem toI32_eq_self {x : Int} (hx : x < 2 ^ 32) (h0 : 0 ≤ x) (h : 0 ≤ toI32 x) : toI32 x = x := by
  unfold toI32 at h ⊢
  rw [Int.bmod_def] at h ⊢
  omega

theorem Uio.Fits.moved_resid (h : u.Fits) (hn : n ≤ u.uio_resid) : (u.moved n).uio_resid = u.uio_resid - n :=
  toU32_sub hn (Nat.lt_of_le_of_lt h.resid h.len)

theorem Uio.Fits.moved (h : u.Fits) (hn : n ≤ u.uio_resid) : (u.moved n).Fits where
  rw := h.rw
  base := Nat.mod_lt _ (by omega)
  len := Nat.lt_of_le_of_lt (Nat.sub_le _ _) h.len
  resid := by
    rw [h.moved_resid hn]
    exact Nat.sub_le_sub_right h.resid n
  lo := (toI32_range _).1
  hi := (toI32_range _).2

theorem Uio.Fits.moved_zero (h : u.Fits) : u.moved 0 = u := by
  have hb := h.base
  have h1 := h.moved_resid (Nat.zero_le _)
  have h2 := toI32_add_zero h.lo h.hi
  cases u
  simp only [Uio.moved, Uio.mk.injEq, true_and, and_true] at *
  exact ⟨Nat.mod_eq_of_lt hb, by omega, h2, h1⟩

theorem Uio.Fits.moved_moved (h : u.Fits) (hn : n + m ≤ u.uio_resid) : (u.moved n).moved m = u.moved (n + m) := by
  have hbase : ((u.iov_base + n) % 2 ^ 32 + m) % 2 ^ 32 = (u.iov_base + (n + m)) % 2 ^ 32 := by omega
  simp only [Uio.moved, hbase, Nat.sub_sub, toI32_add_add, toU32_sub_sub hn (Nat.lt_of_le_of_lt h.resid h.len)]

theorem uiomove_loop_done (fuel : Nat) (ptr : Mem) (pos : Nat) (t : Vm × Uio) :
    uiomove_loop fuel ptr pos 0 t = .ok (.ok ptr, t) := by
  obtain ⟨vm, u⟩ := t
  cases fuel with
  | zero => rfl
  | succ fuel =>
    rw [uiomove_loop, bind_ok (get_run _)]
    dsimp only
    rw [if_neg (by omega)]
    rfl

theorem uiomove_one_turn {X : VmPanic → Prop} {Q : Except Errno Mem → Vm × Uio → Prop} {ptr : Mem} (hu : u.Fits)
    (hspace : u.uio_space = if u.uio_segflg = .UIO_SYSSPACE then none else vm.t_vmspace) (hn : 0 < n)
    (hres : n ≤ u.uio_resid) (hturn : Holds X (uiomove_turn ptr 0 n) (vm, u) Q) : Holds X (uiomove ptr n) (vm, u) Q := by
  have hlen := hu.resid
  obtain ⟨fuel, rfl⟩ : ∃ fuel, n = fuel + 1 := ⟨n - 1, by omega⟩
  unfold uiomove
  refine holds_bind_run (get_run _) (holds_ensure_bind (.inl hspace) fun _ => ?_)
  rw [uiomove_loop]
  refine holds_bind_run (get_run _) ?_
  dsimp only
  rw [if_pos ⟨by omega, by omega⟩, Nat.min_eq_right (by omega)]
  refine holds_ensure_bind (.inl (by omega)) fun _ => hturn.bind ?_ fun _ _ => id
  intro p t hq
  rw [Nat.sub_self]
  exact holds_of_run (uiomove_loop_done _ _ _ _) hq

theorem uiomove_user (h : Loading as last vm) (hu : u.Fits) (hseg : u.uio_segflg ≠ .UIO_SYSSPACE)
    (hspace : u.uio_space = some as) (hn : 0 < n) (hres : n ≤ u.uio_resid) (ptr : Mem) :
    Holds (Unready as last) (uiomove ptr n) (vm, u) fun r t =>
      Loading as last t.1 ∧ ∀ p, r = .ok p → t.2 = u.moved n ∧ u.iov_base + n ≤ USERTOP ∧
        Puts as last u.iov_base n (fun i => some (ptr i)) vm t.1 := by
  have hlen := hu.resid
  have hlen' := hu.len
  refine uiomove_one_turn hu (by rw [if_neg hseg, hspace, h.space]) hn hres ?_
  have hcopy := copyout_spec h ptr 0 hn hu.base (by omega)
  unfold uiomove_turn
  refine holds_bind_run (get_run _) ?_
  -- user space for data and for instructions is the same
  have key : Holds (Unready as last) (do
      first (copyout ptr 0 u.iov_base n)
      modify fun t : Vm × Uio => (t.1, t.2.moved n)
      pure ptr) (vm, u) fun r t =>
        Loading as last t.1 ∧ ∀ p, r = .ok p → t.2 = u.moved n ∧ u.iov_base + n ≤ USERTOP ∧
          Puts as last u.iov_base n (fun i => some (ptr i)) vm t.1 := by
    refine (hcopy.first (u := u) (P := fun r t => t.2 = u ∧ Loading as last t.1 ∧ (r = .ok () →
      u.iov_base + n ≤ USERTOP ∧ Puts as last u.iov_base n (fun i => some (ptr (0 + i))) vm t.1))
      fun r t hq => ⟨rfl, hq⟩).bind ?_ fun _ _ hq => ⟨hq.2.1, nofun⟩
    rintro _ ⟨vm', _⟩ ⟨rfl, hl, hp⟩
    obtain ⟨htop, hput⟩ := hp rfl
    refine holds_bind_run (modify_run _ _) (holds_pure ⟨hl, ?_⟩)
    rintro _ -
    exact ⟨rfl, htop, hput.congr fun i _ => by rw [Nat.zero_add]⟩
  dsimp only
  rw [hu.rw]
  cases hs : u.uio_segflg with
  | UIO_SYSSPACE => exact absurd hs hseg
  | UIO_USERSPACE => exact key
  | UIO_USERISPACE => exact key

theorem uiomove_sys (hu : u.Fits) (hseg : u.uio_segflg = .UIO_SYSSPACE) (hspace : u.uio_space = none) (hn : 0 < n)
    (hres : n ≤ u.uio_resid) (ptr : Mem) :
    Holds (fun _ => False) (uiomove ptr n) (vm, u) fun r t =>
      t = (vm, ({ u with iov_kbuf := u.iov_kbuf.copy u.iov_base ptr 0 n } : Uio).moved n) ∧ ∃ p, r = .ok p := by
  refine uiomove_one_turn hu (by rw [if_pos hseg, hspace]) hn hres ?_
  have hrw := hu.rw
  cases u
  dsimp only at hseg hrw
  subst hseg hrw
  exact holds_bind_run (get_run _) (holds_bind_run (modify_run _ _) (holds_pure ⟨rfl, _, rfl⟩))

/-! ## Reads -/

theorem VOP_READ_loop_rule {X : VmPanic → Prop} {I : Vm → Uio → Prop} {E : Vm → Prop} (file : File)
    (hpieces : ∀ vm u ps, I vm u → I { vm with pieces := ps } u) (herr : ∀ vm u, I vm u → E vm)
    (hmove : ∀ vm u n, I vm u → 0 < n → n ≤ u.uio_resid → 0 ≤ u.uio_offset →
      u.uio_offset.toNat + n ≤ file.length →
      Holds X (uiomove (file.from u.uio_offset) n) (vm, u) fun r t => E t.1 ∧ ∀ p, r = .ok p → I t.1 t.2)
    (fuel : Nat) {vm : Vm} {u : Uio} (hi : I vm u) :
    Holds X (VOP_READ_loop file fuel) (vm, u) fun r t => E t.1 ∧ (r = .ok () → I t.1 t.2) := by
  induction fuel generalizing vm u with
  | zero => exact holds_pure ⟨herr _ _ hi, fun _ => hi⟩
  | succ fuel ih =>
    rw [VOP_READ_loop]
    refine holds_bind_run (get_run _) ?_
    dsimp only
    split
    · exact holds_pure ⟨herr _ _ hi, fun _ => hi⟩
    rename_i hlen
    have hoff : 0 ≤ u.uio_offset ∧ min u.uio_resid (file.left u.uio_offset) ≤ file.length - u.uio_offset.toNat := by
      unfold File.left at hlen ⊢
      split at hlen
      · omega
      · exact ⟨by omega, by rw [if_neg (by omega)]; omega⟩
    -- every piece is taken from what is left of the file
    have hstep : ∀ vm' n, I vm' u → 0 < n → n ≤ min u.uio_resid (file.left u.uio_offset) →
        Holds X (uiomove (file.from u.uio_offset) n) (vm', u) fun r t => E t.1 ∧ ∀ p, r = .ok p → I t.1 t.2 :=
      fun vm' n hi' hn hle => hmove vm' u n hi' hn (by omega) hoff.1 (by omega)
    unfold next_piece
    cases hp : vm.pieces with
    | nil =>
      refine holds_bind_run (a := none) (t := (vm, u)) (by simp only [hp]) ?_
      refine (hstep vm _ hi (by omega) (Nat.le_refl _)).bind ?_ fun _ _ hq => ⟨hq.1, nofun⟩
      exact fun p t hq => holds_pure ⟨hq.1, fun _ => hq.2 p rfl⟩
    | cons p rest =>
      have hi' := hpieces vm u rest hi
      refine holds_bind_run (a := some p) (t := ({ vm with pieces := rest }, u)) (by simp only [hp]) ?_
      cases p with
      | bytes n =>
        refine (hstep _ _ hi' (by omega) (Nat.min_le_right _ _)).bind ?_ fun _ _ hq => ⟨hq.1, nofun⟩
        exact fun p t hq => ih (hq.2 p rfl)
      | short => exact holds_pure ⟨herr _ _ hi', fun _ => hi'⟩
      | fails e => exact holds_throw ⟨herr _ _ hi', nofun⟩

def UserRead (as : Addrspace) (last : Nat) (file : File) (vm : Vm) (u : Uio) (vm' : Vm) (u' : Uio) : Prop :=
  Loading as last vm' ∧ ∃ d ≤ u.uio_resid, u' = u.moved d ∧
    (0 < d → u.iov_base + d ≤ USERTOP ∧ 0 ≤ u.uio_offset ∧ u.uio_offset.toNat + d ≤ file.length) ∧
    Puts as last u.iov_base d (fun i => file[u.uio_offset.toNat + i]?) vm vm'

theorem File.from_eq (file : File) {offset : Int} {n i : Nat} (hlen : offset.toNat + n ≤ file.length) (hi : i < n) :
    some (file.from offset i) = file[offset.toNat + i]? := by
  rw [File.from, List.getD_eq_getElem?_getD, List.getElem?_eq_getElem (by omega)]
  rfl

theorem VOP_READ_user (file : File) (h : Loading as last vm) (hu : u.Fits) (hseg : u.uio_segflg ≠ .UIO_SYSSPACE)
    (hspace : u.uio_space = some as) :
    Holds (Unready as last) (VOP_READ file) (vm, u) fun r t =>
      Loading as last t.1 ∧ (r = .ok () → UserRead as last file vm u t.1 t.2) := by
  unfold VOP_READ
  refine holds_bind_run (get_run _) ?_
  refine VOP_READ_loop_rule (I := UserRead as last file vm u) (E := Loading as last) file ?_ ?_ ?_ _ ?_
  · rintro vm' u' ps ⟨hl, hd⟩
    exact ⟨⟨hl.space, hl.last, hl.tlb⟩, hd⟩
  · exact fun _ _ hi => hi.1
  · rintro vm' _ n ⟨hl, d, hd, rfl, htop, hput⟩ hn hres hoff hfile
    rw [hu.moved_resid hd] at hres
    refine (uiomove_user hl (hu.moved hd) hseg hspace hn (by rw [hu.moved_resid hd]; exact hres) _).imp ?_
    rintro r t ⟨hl', hr⟩
    refine ⟨hl', fun p hp => ?_⟩
    obtain ⟨hu', htop', hput'⟩ := hr p hp
    -- where the next bytes go to and come from
    have hbase : (u.moved d).iov_base = u.iov_base + d := by
      have := hu.base
      rcases Nat.eq_zero_or_pos d with rfl | hpos
      · exact Nat.mod_eq_of_lt this
      · have := (htop hpos).1
        exact Nat.mod_eq_of_lt (by simp only [USERTOP, MIPS_KSEG0] at this; omega)
    have hoffset : (u.moved d).uio_offset = u.uio_offset + d := by
      have hlo := hu.lo
      have hhi := hu.hi
      rcases Nat.eq_zero_or_pos d with rfl | hpos
      · exact toI32_of_small (by omega) (by omega)
      · have := (htop hpos).1
        have h0 := (htop hpos).2.1
        simp only [USERTOP, MIPS_KSEG0] at this
        exact toI32_eq_self (by omega) (by omega) hoff
    rw [hbase] at htop' hput'
    rw [hoffset] at hoff hfile hput'
    refine ⟨hl', d + n, by omega, hu'.trans (hu.moved_moved (by omega)), fun _ => ?_, ?_⟩
    · rcases Nat.eq_zero_or_pos d with rfl | hpos
      · exact ⟨by omega, by omega, by omega⟩
      · have := (htop hpos).2
        exact ⟨by omega, this.1, by omega⟩
    · have h0 : 0 ≤ u.uio_offset := by
        rcases Nat.eq_zero_or_pos d with rfl | hpos
        · omega
        · exact (htop hpos).2.1
      refine (hput.trans hput').congr fun i hi => ?_
      split
      · rfl
      · rw [File.from_eq file hfile (by omega)]
        congr 1
        omega
  · exact ⟨h, 0, Nat.zero_le _, hu.moved_zero.symm, fun h => absurd h (by omega), .refl rfl⟩

theorem uiomovezeros_loop_user (fuel : Nat) (h : Loading as last vm) (hu : u.Fits) (hseg : u.uio_segflg ≠ .UIO_SYSSPACE)
    (hspace : u.uio_space = some as) (hn : 0 < n) (hfuel : n ≤ fuel) (hres : n ≤ u.uio_resid) :
    Holds (Unready as last) (uiomovezeros_loop fuel n) (vm, u) fun r t =>
      Loading as last t.1 ∧ (r = .ok () → u.iov_base + n ≤ USERTOP ∧
        Puts as last u.iov_base n (fun _ => some 0) vm t.1) := by
  induction fuel generalizing vm u n with
  | zero => omega
  | succ fuel ih =>
    rw [uiomovezeros_loop, if_pos hn]
    refine (uiomove_user h hu hseg hspace (n := min 16 n) (by omega) (by omega) _).bind ?_ fun _ _ hq => ⟨hq.1, nofun⟩
    rintro p ⟨vm', _⟩ ⟨hl, hp⟩
    obtain ⟨rfl, htop, hput⟩ := hp p rfl
    have hbase : (u.moved (min 16 n)).iov_base = u.iov_base + min 16 n :=
      Nat.mod_eq_of_lt (by simp only [USERTOP, MIPS_KSEG0] at htop; omega)
    rcases Nat.lt_or_ge 16 n with h16 | h16
    · rw [Nat.min_eq_left (by omega)] at *
      refine (ih hl (hu.moved (by omega)) hseg hspace (by omega) (by omega)
        (by rw [hu.moved_resid (by omega)]; omega)).imp ?_
      rintro r t ⟨hl', hr⟩
      refine ⟨hl', fun hok => ?_⟩
      obtain ⟨htop', hput'⟩ := hr hok
      rw [hbase] at htop' hput'
      refine ⟨by omega, ?_⟩
      rw [show n = 16 + (n - 16) by omega]
      exact (hput.trans hput').congr fun i _ => ite_self _
    · rw [Nat.min_eq_right h16] at *
      rw [Nat.sub_self]
      refine holds_of_run (r := .ok ()) (t := (vm', u.moved n)) ?_ ⟨hl, fun _ => ⟨htop, hput⟩⟩
      cases fuel <;> rfl

def HeaderRead (file : File) (len : Nat) (offset : Int) (vm vm' : Vm) (u' : Uio) : Prop :=
  (∃ ps, vm' = { vm with pieces := ps }) ∧ u'.Fits ∧ u'.uio_segflg = .UIO_SYSSPACE ∧ u'.uio_space = none ∧
  ∃ d ≤ len, u'.iov_base = d ∧ u'.uio_resid = len - d ∧
    u'.uio_offset = toI32 (offset + d) ∧ (0 < d → 0 ≤ offset ∧ offset.toNat + d ≤ file.length) ∧
    ∀ i < d, u'.iov_kbuf i = file.from offset i

theorem read_header_spec (file : File) (len : Nat) (offset : Int) (hlen : len < 2 ^ 16) (hlo : -2 ^ 31 ≤ offset)
    (hhi : offset < 2 ^ 31) (vm : Vm) :
    Holds (fun _ => False) (read_header file len offset) vm fun r t =>
      (∃ ps, t = { vm with pieces := ps }) ∧
      ∀ m, r = .ok m → (0 < len → 0 ≤ offset ∧ offset.toNat + len ≤ file.length) ∧
        ∀ i < len, m i = file.from offset i := by
  have hread : Holds (fun _ => False) (VOP_READ file) (vm, mk_kuio len offset .UIO_READ) fun r t =>
      (∃ ps, t.1 = { vm with pieces := ps }) ∧ (r = .ok () → HeaderRead file len offset vm t.1 t.2) := by
    unfold VOP_READ
    refine holds_bind_run (get_run _) ?_
    refine VOP_READ_loop_rule (I := HeaderRead file len offset vm) (E := fun vm' => ∃ ps, vm' = { vm with pieces := ps })
      file ?_ (fun _ _ hi => hi.1) ?_ _ ?_
    · rintro _ u' ps ⟨⟨ps', rfl⟩, hd⟩
      exact ⟨⟨ps, rfl⟩, hd⟩
    · rintro vm' u n ⟨hvm, hu, hseg, hspace, d, hd, hbase, hres, hoff, hin, hbuf⟩ hn hn' h0 hfile
      have hoffset : u.uio_offset = offset + d := by
        rcases Nat.eq_zero_or_pos d with rfl | hpos
        · exact hoff.trans (toI32_of_small (by omega) (by omega))
        · have := (hin hpos).1
          rw [hoff] at h0 ⊢
          exact toI32_eq_self (by omega) (by omega) h0
      have hoff0 : 0 ≤ offset := by
        rcases Nat.eq_zero_or_pos d with rfl | hpos
        · omega
        · exact (hin hpos).1
      refine (uiomove_sys hu hseg hspace hn hn' _).imp ?_
      rintro r _ ⟨rfl, -⟩
      refine ⟨hvm, fun _ _ => ⟨hvm, ?_, hseg, hspace, d + n, by omega, ?_, ?_, ?_, fun _ => ⟨hoff0, by omega⟩, ?_⟩⟩
      · exact Uio.Fits.moved (u := { u with iov_kbuf := _ }) ⟨hu.rw, hu.base, hu.len, hu.resid, hu.lo, hu.hi⟩ hn'
      · simp only [Uio.moved]
        omega
      · have := hu.resid
        have := hu.len
        simp only [Uio.moved, toU32]
        omega
      · simp only [Uio.moved, hoffset]
        congr 1
        push_cast
        omega
      · intro i hi
        simp only [Uio.moved, Mem.copy, hbase]
        split
        · simp only [File.from, hoffset]
          congr 1
          omega
        · exact hbuf i (by omega)
    · refine ⟨⟨vm.pieces, rfl⟩, ⟨rfl, by simp [mk_kuio], Nat.lt_trans hlen (by omega), Nat.le_refl _, hlo, hhi⟩, rfl, rfl, 0,
        Nat.zero_le _, rfl, rfl, ?_, fun h => absurd h (by omega), fun i hi => absurd hi (by omega)⟩
      exact ((toI32_of_small (by omega) (by omega)).trans (Int.add_zero offset)).symm
  unfold read_header
  refine (hread.withVar (P := fun r t => (∃ ps, t = { vm with pieces := ps }) ∧
    ∀ x, r = .ok x → HeaderRead file len offset vm t x.2) ?_ ?_).bind ?_ ?_
  · exact fun _ t hq => ⟨hq.1, fun _ hx => by cases hx; exact hq.2 rfl⟩
  · exact fun _ t hq => ⟨hq.1, (by simp)⟩
  · rintro ⟨_, ku⟩ t ⟨hps, hr⟩
    obtain ⟨-, -, -, -, d, hd, -, hres, -, hin, hbuf⟩ := hr _ rfl
    dsimp only at hres hbuf ⊢
    split
    · exact holds_throw ⟨hps, (by simp)⟩
    · obtain rfl : d = len := by omega
      refine holds_pure ⟨hps, ?_⟩
      rintro _ ⟨⟩
      exact ⟨hin, hbuf⟩
  · exact fun _ t hq => ⟨hq.1, (by simp)⟩

/-! ## Segments -/

def Phdr.image (file : File) (ph : Phdr) (i : Nat) : Option Byte :=
  if i < min ph.p_filesz ph.p_memsz then file[ph.p_offset + i]? else some 0

def Phdr.Placed (file : File) (ph : Phdr) : Prop :=
  (0 < ph.p_memsz → ph.p_vaddr + ph.p_memsz ≤ USERTOP) ∧
  (0 < min ph.p_filesz ph.p_memsz → ph.p_offset + min ph.p_filesz ph.p_memsz ≤ file.length)

structure Phdr.Words (ph : Phdr) : Prop where
  offset : ph.p_offset < 2 ^ 32
  vaddr : ph.p_vaddr < 2 ^ 32
  filesz : ph.p_filesz < 2 ^ 32
  memsz : ph.p_memsz < 2 ^ 32

theorem Phdr.decode_words (m : Mem) : (Phdr.decode m).Words :=
  ⟨wordAt_lt _ _, wordAt_lt _ _, wordAt_lt _ _, wordAt_lt _ _⟩

theorem load_phdr_spec (h : Loading as last vm) {ph : Phdr} (hph : ph.Words) :
    Holds (fun p => 0 < ph.p_memsz ∧ Unready as last p) (load_phdr file ph) vm fun r t =>
      Loading as last t ∧ (r = .ok () → ph.Placed file ∧ Puts as last ph.p_vaddr ph.p_memsz (ph.image file) vm t) := by
  unfold load_phdr load_segment
  refine holds_bind_run (get_run _) ?_
  generalize hseg : (if decide (ph.p_flags % 2 = 1) then UioSeg.UIO_USERISPACE else .UIO_USERSPACE) = seg
  have hseg' : seg ≠ .UIO_SYSSPACE := by
    rw [← hseg]
    split <;> decide
  rcases Nat.eq_zero_or_pos ph.p_memsz with hm | hm
  · rw [hm, Nat.min_zero]
    refine holds_bind_run (withVar_ok rfl) ?_
    have hplaced : ph.Placed file := by
      unfold Phdr.Placed
      rw [hm, Nat.min_zero]
      exact ⟨fun h0 => absurd h0 (Nat.lt_irrefl 0), fun h0 => absurd h0 (Nat.lt_irrefl 0)⟩
    dsimp only
    rw [if_neg (by simp), if_neg (by simp)]
    exact holds_pure ⟨h, fun _ => ⟨hplaced, .refl rfl⟩⟩
  refine Holds.mono (X := Unready as last) ?_ (fun _ _ => id) fun _ hx => ⟨hm, hx⟩
  have hoff := toI32_range ph.p_offset
  dsimp only
  generalize hu₀ : Uio.mk _ _ _ _ _ _ _ _ = u₀
  have hu : u₀.Fits := by
    subst hu₀
    exact ⟨rfl, hph.vaddr, hph.memsz, Nat.min_le_right _ _, by dsimp only; exact hoff.1, by dsimp only; exact hoff.2⟩
  have hspace : u₀.uio_space = some as := by
    subst hu₀
    exact h.space
  have hs₀ : u₀.uio_segflg ≠ .UIO_SYSSPACE := by
    subst hu₀
    exact hseg'
  refine ((VOP_READ_user file h hu hs₀ hspace).withVar (P := fun r t => Loading as last t ∧
    ∀ x, r = .ok x → UserRead as last file vm u₀ t x.2) ?_ ?_).bind ?_ ?_
  · exact fun _ t hq => ⟨hq.1, fun _ hx => by cases hx; exact hq.2 rfl⟩
  · exact fun _ t hq => ⟨hq.1, nofun⟩
  · rintro ⟨_, u₁⟩ t ⟨hl, hr⟩
    obtain ⟨-, d, hd, hu₁, htop, hput⟩ := hr _ rfl
    dsimp only at hu₁ ⊢
    subst hu₁
    rw [hu.moved_resid hd]
    split
    · exact holds_of_run (bind_error (throw_run _ _)) ⟨hl, nofun⟩
    rename_i hres
    have hdeq : d = min ph.p_filesz ph.p_memsz := by
      subst hu₀
      dsimp only at hd hres
      omega
    have hbase₀ : u₀.iov_base = ph.p_vaddr := by rw [← hu₀]
    have hoff₀ : u₀.uio_offset = toI32 ph.p_offset := by rw [← hu₀]
    have hlen₀ : u₀.iov_len = ph.p_memsz := by rw [← hu₀]
    have hres₀ : u₀.uio_resid - d = 0 := Classical.not_not.mp hres
    have hoffset : 0 < d → u₀.uio_offset.toNat = ph.p_offset := by
      intro hd0
      have hnn := (htop hd0).2.1
      rw [hoff₀] at hnn ⊢
      rw [toI32_eq_self (by exact_mod_cast hph.offset) (Int.natCast_nonneg _) hnn, Int.toNat_natCast]
    have hfile : ∀ i < d, file[u₀.uio_offset.toNat + i]? = ph.image file i := by
      intro i hi
      rw [Phdr.image, ← hdeq, if_pos hi, hoffset (by omega)]
    have hin : 0 < min ph.p_filesz ph.p_memsz → ph.p_offset + min ph.p_filesz ph.p_memsz ≤ file.length := by
      intro hd0
      rw [← hdeq] at hd0 ⊢
      rw [← hoffset hd0]
      exact (htop hd0).2.2
    rw [hbase₀] at htop hput
    rw [hres₀, ← hdeq]
    split
    · rename_i hfill
      have hbase : (u₀.moved d).iov_base = ph.p_vaddr + d := by
        have := hph.vaddr
        simp only [Uio.moved, hbase₀]
        rcases Nat.eq_zero_or_pos d with rfl | hpos
        · omega
        · have := (htop hpos).1
          simp only [USERTOP, MIPS_KSEG0] at this
          omega
      have hm := hu.moved hd
      have hfits : Uio.Fits { u₀.moved d with uio_resid := 0 + (ph.p_memsz - d) } :=
        ⟨hm.rw, hm.base, hm.len, by simp only [Uio.moved, hlen₀]; omega, hm.lo, hm.hi⟩
      have hz : Holds (Unready as last) (uiomovezeros (ph.p_memsz - d))
          (t, { u₀.moved d with uio_resid := 0 + (ph.p_memsz - d) }) fun r t' => Loading as last t'.1 ∧ (r = .ok () →
            ph.p_vaddr + d + (ph.p_memsz - d) ≤ USERTOP ∧
            Puts as last (ph.p_vaddr + d) (ph.p_memsz - d) (fun _ => some 0) t t'.1) := by
        rw [← hbase]
        refine holds_bind_run (get_run _) (holds_ensure_bind (.inl hm.rw) fun _ => ?_)
        exact uiomovezeros_loop_user _ hl hfits hs₀ hspace hfill (Nat.le_refl _) (by simp)
      refine (hz.withVar (P := fun r t' => Loading as last t' ∧ ((∃ x, r = .ok x) →
        ph.p_vaddr + d + (ph.p_memsz - d) ≤ USERTOP ∧
        Puts as last (ph.p_vaddr + d) (ph.p_memsz - d) (fun _ => some 0) t t')) ?_ ?_).bind ?_ ?_
      · exact fun _ t' hq => ⟨hq.1, fun _ => hq.2 rfl⟩
      · exact fun _ t' hq => ⟨hq.1, fun ⟨_, hx⟩ => nomatch hx⟩
      · rintro x t' ⟨hl', hz'⟩
        obtain ⟨htop', hput'⟩ := hz' ⟨x, rfl⟩
        refine holds_pure ⟨hl', fun _ => ⟨⟨fun _ => by omega, hin⟩, ?_⟩⟩
        rw [show ph.p_memsz = d + (ph.p_memsz - d) by omega]
        refine (hput.trans hput').congr fun i hi => ?_
        split
        · exact hfile i (by omega)
        · rw [Phdr.image, ← hdeq, if_neg (by omega)]
      · exact fun _ t' hq => ⟨hq.1, nofun⟩
    · obtain rfl : d = ph.p_memsz := by omega
      exact holds_pure ⟨hl, fun _ => ⟨⟨fun _ => (htop hm).1, hin⟩, hput.congr hfile⟩⟩
  · exact fun _ t hq => ⟨hq.1, nofun⟩

end Moves

end Os161.Elf
