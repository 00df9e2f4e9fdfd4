import Os161.Thread.State
import Os161.Vm.Addrspace

/-! # `vm_fault` on the words of the TLB

The whole of `vm_fault`, with its interrupt level, for any number as `faulttype` and any words in the slots.
`Addrspace.lean` has it on the valid entries only.
-/

namespace Os161.Fault

open Prog

abbrev VM_FAULT_READ : Int := 0
abbrev VM_FAULT_WRITE : Int := 1
abbrev VM_FAULT_READONLY : Int := 2

abbrev TLBHI_VPAGE : BitVec 32 := 0xfffff000
abbrev TLBLO_PPAGE : BitVec 32 := 0xfffff000
abbrev TLBLO_DIRTY : BitVec 32 := 0x400
abbrev TLBLO_VALID : BitVec 32 := 0x200

structure Slot where
  ehi : BitVec 32
  elo : BitVec 32
  deriving DecidableEq, Repr

def Slot.Valid (e : Slot) : Prop := e.elo &&& TLBLO_VALID ≠ 0

instance (e : Slot) : Decidable e.Valid := inferInstanceAs (Decidable (_ ≠ _))

structure Mmu where
  curspl : Nat
  tlb : Nat → Slot

def splx (newspl : Nat) : Prog VmPanic Errno Mmu Nat := fun m => .ok (.ok m.curspl, { m with curspl := newspl })

def splhigh : Prog VmPanic Errno Mmu Nat := splx SPL_HIGH

/-- The loop over the slots, from slot `i` on: true if one was free. -/
def load_loop (faultaddress paddr : Nat) : Nat → Nat → Prog VmPanic Errno Mmu Bool
  | 0, _ => pure false
  | fuel + 1, i => do
    if i < NUM_TLB then
      let m ← get
      if (m.tlb i).Valid then load_loop faultaddress paddr fuel (i + 1)
      else
        let ehi := BitVec.ofNat 32 faultaddress
        let elo := BitVec.ofNat 32 paddr ||| TLBLO_DIRTY ||| TLBLO_VALID
        set { m with tlb := Function.update m.tlb i ⟨ehi, elo⟩ }
        pure true
    else pure false

def Slot.entry (e : Slot) : Option TlbEntry :=
  if e.Valid then some ⟨(e.ehi &&& TLBHI_VPAGE).toNat, (e.elo &&& TLBLO_PPAGE).toNat⟩ else none

def Mmu.entries (m : Mmu) : Tlb := (List.range NUM_TLB).map fun i => (m.tlb i).entry

/-- A fault of a thread with `t_vmspace`. The assertions do not look at the TLB. -/
def vm_fault (faulttype : Int) (faultaddress : Nat) (t_vmspace : Option Addrspace) : Prog VmPanic Errno Mmu Unit := do
  let spl ← splhigh
  let faultaddress := pageFrame faultaddress
  ensure (faulttype ≠ VM_FAULT_READONLY) .fault_readonly
  if faulttype = VM_FAULT_READ ∨ faulttype = VM_FAULT_WRITE then
    match t_vmspace with
    | none => throw .EFAULT
    | some as =>
      zoom Mmu.entries (fun _ m => m) (vm_fault_check as)
      match vm_fault_paddr as faultaddress with
      | none =>
        let _ ← splx spl
        throw .EFAULT
      | some paddr =>
        ensure (pageFrame paddr = paddr) .fault_paddr_frame
        let loaded ← load_loop faultaddress paddr NUM_TLB 0
        let _ ← splx spl
        if loaded then pure () else throw .EFAULT
  else
    let _ ← splx spl
    throw .EINVAL

/-! ## What it does -/

structure NoWrap (as : Addrspace) : Prop where
  vtop1 : as.as_vbase1 + as.as_npages1 * PAGE_SIZE < 2 ^ 32
  vtop2 : as.as_vbase2 + as.as_npages2 * PAGE_SIZE < 2 ^ 32
  ptop1 : as.as_pbase1 + as.as_npages1 * PAGE_SIZE ≤ 2 ^ 32
  ptop2 : as.as_pbase2 + as.as_npages2 * PAGE_SIZE ≤ 2 ^ 32
  pstack : as.as_stackpbase + DUMBVM_STACKPAGES * PAGE_SIZE ≤ 2 ^ 32

def frameOf (as : Addrspace) (page : Nat) : Option Nat :=
  if as.as_vbase1 ≤ page ∧ page < as.as_vbase1 + as.as_npages1 * PAGE_SIZE then
    some (as.as_pbase1 + (page - as.as_vbase1))
  else if as.as_vbase2 ≤ page ∧ page < as.as_vbase2 + as.as_npages2 * PAGE_SIZE then
    some (as.as_pbase2 + (page - as.as_vbase2))
  else if USERSTACK - DUMBVM_STACKPAGES * PAGE_SIZE ≤ page ∧ page < USERSTACK then
    some (as.as_stackpbase + (page - (USERSTACK - DUMBVM_STACKPAGES * PAGE_SIZE)))
  else none

structure Slot.MapsTo (e : Slot) (page pa : Nat) : Prop where
  valid : e.Valid
  writable : e.elo &&& TLBLO_DIRTY ≠ 0
  page : (e.ehi &&& TLBHI_VPAGE).toNat = page
  frame : (e.elo &&& TLBLO_PPAGE).toNat = pa

section Words

variable {x page pa : Nat}

theorem ppage_bits : ∀ i : Fin 32, TLBLO_PPAGE.getLsbD i = decide (12 ≤ i.val) := by decide

theorem and_page (hx : x % PAGE_SIZE = 0) : BitVec.ofNat 32 x &&& TLBLO_PPAGE = BitVec.ofNat 32 x := by
  apply BitVec.eq_of_getLsbD_eq
  intro i hi
  obtain ⟨q, rfl⟩ := Nat.dvd_of_mod_eq_zero hx
  rw [BitVec.getLsbD_and, ppage_bits ⟨i, hi⟩, BitVec.getLsbD_ofNat, show PAGE_SIZE = 2 ^ 12 from rfl,
    Nat.testBit_two_pow_mul]
  cases decide (12 ≤ i) <;> simp

theorem or_and_self (x y : BitVec 32) : (x ||| y) &&& y = y := by
  apply BitVec.eq_of_getLsbD_eq
  intro i _
  rw [BitVec.getLsbD_and, BitVec.getLsbD_or]
  cases x.getLsbD i <;> cases y.getLsbD i <;> rfl

def slotOf (page pa : Nat) : Slot := ⟨BitVec.ofNat 32 page, BitVec.ofNat 32 pa ||| TLBLO_DIRTY ||| TLBLO_VALID⟩

theorem slotOf_mapsTo (hpage : page % PAGE_SIZE = 0) (hpage32 : page < 2 ^ 32) (hpa : pa % PAGE_SIZE = 0)
    (hpa32 : pa < 2 ^ 32) : (slotOf page pa).MapsTo page pa where
  valid := by
    unfold Slot.Valid slotOf
    rw [or_and_self]
    decide
  writable := by
    unfold slotOf
    rw [BitVec.and_or_distrib_right, or_and_self]
    decide
  page := by
    show (BitVec.ofNat 32 page &&& TLBLO_PPAGE).toNat = page
    rw [and_page hpage, BitVec.toNat_ofNat, Nat.mod_eq_of_lt hpage32]
  frame := by
    have hrest : TLBLO_DIRTY &&& TLBLO_PPAGE = 0#32 ∧ TLBLO_VALID &&& TLBLO_PPAGE = 0#32 := by decide
    unfold slotOf
    rw [BitVec.and_or_distrib_right, BitVec.and_or_distrib_right, hrest.1, hrest.2, BitVec.or_zero, BitVec.or_zero,
      and_page hpa, BitVec.toNat_ofNat, Nat.mod_eq_of_lt hpa32]

end Words

section Spec

variable {as : Addrspace} {page pa va : Nat} {m m' : Mmu} {faulttype : Int}

theorem paddr_eq_frameOf (hw : NoWrap as) (page : Nat) : vm_fault_paddr as page = frameOf as page := by
  obtain ⟨h1, h2, hp1, hp2, hps⟩ := hw
  unfold vm_fault_paddr frameOf
  rw [Nat.mod_eq_of_lt h1, Nat.mod_eq_of_lt h2]
  dsimp only
  split
  · rw [Nat.mod_eq_of_lt (by omega), Nat.add_comm]
  split
  · rw [Nat.mod_eq_of_lt (by omega), Nat.add_comm]
  split
  · simp only [USERSTACK, USERTOP, MIPS_KSEG0, DUMBVM_STACKPAGES, PAGE_SIZE] at *
    rw [Nat.mod_eq_of_lt (by omega), Nat.add_comm]
  · rfl

theorem paddr_lt (hp : vm_fault_paddr as page = some pa) : pa < 2 ^ 32 := by
  simp only [vm_fault_paddr] at hp
  split at hp
  · cases hp
    exact Nat.mod_lt _ (by decide)
  split at hp
  · cases hp
    exact Nat.mod_lt _ (by decide)
  split at hp
  · cases hp
    exact Nat.mod_lt _ (by decide)
  · cases hp

theorem load_loop_run (page pa fuel i : Nat) (hf : NUM_TLB ≤ i + fuel) :
    (∃ j, i ≤ j ∧ j < NUM_TLB ∧ ¬ (m.tlb j).Valid ∧ (∀ l, i ≤ l → l < j → (m.tlb l).Valid) ∧
      load_loop page pa fuel i m = .ok (.ok true, { m with tlb := Function.update m.tlb j (slotOf page pa) })) ∨
    (∀ l, i ≤ l → l < NUM_TLB → (m.tlb l).Valid) ∧ load_loop page pa fuel i m = .ok (.ok false, m) := by
  induction fuel generalizing i with
  | zero => exact .inr ⟨fun l hl hl' => by omega, rfl⟩
  | succ fuel ih =>
    rw [load_loop]
    by_cases hi : i < NUM_TLB
    · rw [if_pos hi, bind_ok (get_run m)]
      by_cases hv : (m.tlb i).Valid
      · rw [if_pos hv]
        have hnext : ∀ {l}, i ≤ l → l = i ∨ i + 1 ≤ l := by omega
        rcases ih (i + 1) (by omega) with ⟨j, hj, hlt, hinv, hfirst, hrun⟩ | ⟨hall, hrun⟩
        · refine .inl ⟨j, by omega, hlt, hinv, fun l hl hlj => ?_, hrun⟩
          rcases hnext hl with rfl | hl
          · exact hv
          · exact hfirst l hl hlj
        · refine .inr ⟨fun l hl hlt => ?_, hrun⟩
          rcases hnext hl with rfl | hl
          · exact hv
          · exact hall l hl hlt
      · rw [if_neg hv]
        exact .inl ⟨i, Nat.le_refl _, hi, hv, fun l hl hl' => by omega, rfl⟩
    · rw [if_neg hi]
      exact .inr ⟨fun l hl hl' => by omega, rfl⟩

structure FaultPost (as : Addrspace) (page : Nat) (m : Mmu) (r : Except Errno Unit) (m' : Mmu) : Prop where
  result : r = .ok () ↔ (frameOf as page).isSome ∧ ∃ i < NUM_TLB, ¬ (m.tlb i).Valid
  mapped : r = .ok () → ∃ i < NUM_TLB, ¬ (m.tlb i).Valid ∧ (∃ pa, frameOf as page = some pa ∧
    (m'.tlb i).MapsTo page pa) ∧ ∀ j ≠ i, m'.tlb j = m.tlb j
  unchanged : r ≠ .ok () → m'.tlb = m.tlb
  curspl : m'.curspl = m.curspl

theorem check_run (hset : as.IsSet) (hal : as.Aligned) (m : Mmu) :
    zoom Mmu.entries (fun _ m => m) (vm_fault_check as) m = .ok (.ok (), m) := by
  obtain ⟨r, t, hrun, rfl, -⟩ := ((vm_fault_check_spec as m.entries).mono (fun _ _ => id)
    fun _ hn => hn ⟨hset, hal⟩).exists
  exact zoom_ok hrun

theorem frame_aligned (hal : as.Aligned) (hpage : page % PAGE_SIZE = 0)
    (hp : vm_fault_paddr as page = some pa) : pa % PAGE_SIZE = 0 := by
  obtain ⟨h1, h2, h3, h4, h5⟩ := hal
  cases places_of_paddr hp <;> simp only [PAGE_SIZE, USERSTACK, USERTOP, MIPS_KSEG0, DUMBVM_STACKPAGES] at * <;> omega

theorem vm_fault_access (hset : as.IsSet) (hal : as.Aligned) (hw : NoWrap as) (hva : va < 2 ^ 32)
    (hft : faulttype = VM_FAULT_READ ∨ faulttype = VM_FAULT_WRITE) :
    Holds (fun _ => False) (vm_fault faulttype va (some as)) m (FaultPost as (pageFrame va) m) := by
  have hpage := pageFrame_mod va
  have hpage32 : pageFrame va < 2 ^ 32 := by
    have := pageFrame_add va
    omega
  have hne : faulttype ≠ VM_FAULT_READONLY := by
    rcases hft with rfl | rfl <;> decide
  unfold vm_fault
  refine holds_bind_run (show splhigh m = .ok (.ok m.curspl, { m with curspl := SPL_HIGH }) from rfl) ?_
  refine holds_ensure_bind (.inl hne) fun _ => ?_
  rw [if_pos hft]
  refine holds_bind_run (check_run hset hal _) ?_
  have hframe := paddr_eq_frameOf hw (pageFrame va)
  cases hp : vm_fault_paddr as (pageFrame va) with
  | none =>
    rw [hp] at hframe
    refine holds_bind_run rfl (holds_throw ⟨?_, by simp, fun _ => rfl, rfl⟩)
    simp [← hframe]
  | some pa =>
    have hpa := frame_aligned hal hpage hp
    rw [hp] at hframe
    refine holds_ensure_bind (.inl (pageFrame_eq_iff.mpr hpa)) fun _ => ?_
    rcases load_loop_run (m := { m with curspl := SPL_HIGH }) (pageFrame va) pa NUM_TLB 0 (by decide) with
      ⟨j, -, hlt, hinv, -, hrun⟩ | ⟨hall, hrun⟩
    · refine holds_bind_run hrun (holds_bind_run rfl (holds_pure ⟨?_, fun _ => ⟨j, hlt, hinv, ⟨pa, hframe.symm, ?_⟩, ?_⟩, ?_, rfl⟩))
      · simp only [true_iff]
        exact ⟨by rw [← hframe]; rfl, j, hlt, hinv⟩
      · show (Function.update m.tlb j _ j).MapsTo _ _
        rw [Function.update_self]
        exact slotOf_mapsTo hpage hpage32 hpa (paddr_lt hp)
      · intro l hl
        exact Function.update_of_ne hl _ _
      · simp
    · refine holds_bind_run hrun (holds_bind_run rfl (holds_throw ⟨?_, by simp, fun _ => rfl, rfl⟩))
      constructor
      · simp
      · rintro ⟨-, i, hlt, hinv⟩
        exact absurd (hall i (Nat.zero_le _) hlt) hinv

def number : FaultType → Int
  | .VM_FAULT_READ => VM_FAULT_READ
  | .VM_FAULT_WRITE => VM_FAULT_WRITE
  | .VM_FAULT_READONLY => VM_FAULT_READONLY

theorem Slot.MapsTo.entry {e : Slot} (h : e.MapsTo page pa) : e.entry = some ⟨page, pa⟩ := by
  rw [Slot.entry, if_pos h.valid, h.page, h.frame]

theorem entry_isNone (e : Slot) : e.entry.isNone = true ↔ ¬ e.Valid := by
  unfold Slot.entry
  split <;> rename_i hv <;> simp [hv]

theorem entries_getElem (i : Nat) (hi : i < m.entries.length) : m.entries[i] = (m.tlb i).entry := by
  simp [Mmu.entries]

theorem length_entries (m : Mmu) : m.entries.length = NUM_TLB := by simp [Mmu.entries]

theorem entries_update {j : Nat} {e : Slot} (he : e.MapsTo page pa) :
    Mmu.entries { m with tlb := Function.update m.tlb j e } = m.entries.set j (some ⟨page, pa⟩) := by
  apply List.ext_getElem
  · rw [List.length_set, length_entries, length_entries]
  · intro i hi hi'
    rw [List.getElem_set, entries_getElem, entries_getElem]
    dsimp only
    split
    · rename_i hij
      rw [← hij, Function.update_self, he.entry]
    · rename_i hij
      rw [Function.update_of_ne (Ne.symm hij)]

theorem load_loop_entries (hpage : page % PAGE_SIZE = 0) (hpage32 : page < 2 ^ 32) (hpa : pa % PAGE_SIZE = 0)
    (hpa32 : pa < 2 ^ 32) : ∃ b m', load_loop page pa NUM_TLB 0 m = .ok (.ok b, m') ∧
      vm_fault_load page pa m.entries = .ok (if b then .ok () else .error .EFAULT, m'.entries) := by
  unfold vm_fault_load
  rw [bind_ok (get_run _)]
  rcases load_loop_run (m := m) page pa NUM_TLB 0 (by decide) with ⟨j, -, hlt, hinv, hfirst, hrun⟩ | ⟨hall, hrun⟩
  · refine ⟨true, _, hrun, ?_⟩
    have hfind : m.entries.findIdx? Option.isNone = some j := by
      rw [List.findIdx?_eq_some_iff_getElem]
      refine ⟨by rw [length_entries]; exact hlt, ?_, fun l hl => ?_⟩
      · rw [entries_getElem]
        exact (entry_isNone _).mpr hinv
      · rw [entries_getElem]
        exact fun hn => (entry_isNone _).mp hn (hfirst l (Nat.zero_le _) hl)
    rw [hfind, entries_update (slotOf_mapsTo hpage hpage32 hpa hpa32)]
    rfl
  · refine ⟨false, _, hrun, ?_⟩
    have hfind : m.entries.findIdx? Option.isNone = none := by
      rw [List.findIdx?_eq_none_iff]
      intro e he
      obtain ⟨i, hi, rfl⟩ := List.mem_iff_getElem.mp he
      rw [entries_getElem]
      rw [length_entries] at hi
      exact Bool.eq_false_iff.mpr fun hn => (entry_isNone _).mp hn (hall i (Nat.zero_le _) hi)
    rw [hfind]
    rfl

theorem vm_fault_entries (ft : FaultType) (hva : va < 2 ^ 32) (t_vmspace : Option Addrspace) {r : Except Errno Unit}
    (hrun : vm_fault (number ft) va t_vmspace m = .ok (r, m')) :
    Os161.vm_fault ft va t_vmspace m.entries = .ok (r, m'.entries) := by
  have hpage := pageFrame_mod va
  have hpage32 : pageFrame va < 2 ^ 32 := by
    have := pageFrame_add va
    omega
  have hft : number ft ≠ VM_FAULT_READONLY ∧ ft ≠ .VM_FAULT_READONLY ∧
      (number ft = VM_FAULT_READ ∨ number ft = VM_FAULT_WRITE) := by
    cases ft with
    | VM_FAULT_READ => exact ⟨by decide, by decide, .inl rfl⟩
    | VM_FAULT_WRITE => exact ⟨by decide, by decide, .inr rfl⟩
    | VM_FAULT_READONLY => cases hrun
  unfold vm_fault at hrun
  rw [bind_ok (show splhigh m = .ok (.ok m.curspl, { m with curspl := SPL_HIGH }) from rfl),
    bind_ok (ensure_run _ _ _ hft.1), if_pos hft.2.2] at hrun
  unfold Os161.vm_fault
  rw [bind_ok (ensure_run _ _ _ hft.2.1)]
  cases t_vmspace with
  | none =>
    cases hrun
    rfl
  | some as =>
    dsimp only at hrun ⊢
    -- the assertions hold, since the code has come back
    cases vm_fault_check_spec as m.entries with
    | @panic p hp hx =>
      have hz : zoom Mmu.entries (fun _ m => m) (vm_fault_check as) { m with curspl := SPL_HIGH } = .error p := by
        have hsame : Mmu.entries { m with curspl := SPL_HIGH } = m.entries := rfl
        simp only [zoom, hsame, hp]
      rw [bind_panic hz] at hrun
      cases hrun
    | done hcheck hq =>
      obtain ⟨rfl, rfl, hset, hal⟩ := hq
      rw [bind_ok (check_run hset hal _)] at hrun
      rw [bind_ok hcheck]
      cases hp : vm_fault_paddr as (pageFrame va) with
      | none =>
        simp only [hp] at hrun
        cases hrun
        rfl
      | some pa =>
        have hpa := frame_aligned hal hpage hp
        simp only [hp] at hrun
        rw [bind_ok (ensure_run _ _ _ (pageFrame_eq_iff.mpr hpa))] at hrun
        dsimp only
        rw [bind_ok (ensure_run _ _ _ (pageFrame_eq_iff.mpr hpa))]
        obtain ⟨b, m₁, hload, habs⟩ := load_loop_entries (m := { m with curspl := SPL_HIGH }) hpage hpage32 hpa (paddr_lt hp)
        rw [bind_ok hload] at hrun
        rw [show m.entries = Mmu.entries { m with curspl := SPL_HIGH } from rfl, habs]
        cases b with
        | true =>
          cases hrun
          rfl
        | false =>
          cases hrun
          rfl

end Spec

def smallSpace : Addrspace := ⟨0x400000, 0x10000, 2, 0x10000000, 0x12000, 1, 0x13000⟩

def Mmu.fresh : Mmu := ⟨0, fun _ => ⟨0, 0⟩⟩

end Os161.Fault
