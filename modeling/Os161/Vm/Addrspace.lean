import Os161.Lib.Prog
import Os161.Vm.Ram

/-! # `dumbvm.c`: address spaces and the TLB -/

namespace Os161

open Prog

abbrev USERTOP : Nat := MIPS_KSEG0
abbrev USERSTACK : Nat := USERTOP
abbrev DUMBVM_STACKPAGES : Nat := 12
abbrev NUM_TLB : Nat := 64

structure Addrspace where
  as_vbase1 : Nat
  as_pbase1 : Nat
  as_npages1 : Nat
  as_vbase2 : Nat
  as_pbase2 : Nat
  as_npages2 : Nat
  as_stackpbase : Nat
  deriving DecidableEq, Repr

/-- Where loading a program stops the machine: the assertions and panics on the way. -/
inductive VmPanic where
  | fault_readonly
  | fault_vbase1 | fault_pbase1 | fault_npages1 | fault_vbase2 | fault_pbase2 | fault_npages2 | fault_stackpbase
  | fault_vbase1_frame | fault_pbase1_frame | fault_vbase2_frame | fault_pbase2_frame | fault_stackpbase_frame
  | fault_paddr_frame
  | bus_error
  | prepare_pbase1 | prepare_pbase2 | prepare_stackpbase
  | uiomove_space | uiomove_size | uiomovezeros_rw
  deriving DecidableEq, Repr

structure TlbEntry where
  ehi : Nat
  elo : Nat
  deriving DecidableEq, Repr

abbrev Tlb := List (Option TlbEntry)

inductive FaultType where
  | VM_FAULT_READ | VM_FAULT_WRITE | VM_FAULT_READONLY
  deriving DecidableEq, Repr

def vm_fault_paddr (as : Addrspace) (faultaddress : Nat) : Option Nat :=
  let vtop1 := (as.as_vbase1 + as.as_npages1 * PAGE_SIZE) % 2 ^ 32
  let vtop2 := (as.as_vbase2 + as.as_npages2 * PAGE_SIZE) % 2 ^ 32
  let stackbase := USERSTACK - DUMBVM_STACKPAGES * PAGE_SIZE
  if as.as_vbase1 ≤ faultaddress ∧ faultaddress < vtop1 then
    some ((faultaddress - as.as_vbase1 + as.as_pbase1) % 2 ^ 32)
  else if as.as_vbase2 ≤ faultaddress ∧ faultaddress < vtop2 then
    some ((faultaddress - as.as_vbase2 + as.as_pbase2) % 2 ^ 32)
  else if stackbase ≤ faultaddress ∧ faultaddress < USERSTACK then
    some ((faultaddress - stackbase + as.as_stackpbase) % 2 ^ 32)
  else
    none

/-- "Assert that the address space has been set up properly." -/
def vm_fault_check (as : Addrspace) : Prog VmPanic Errno Tlb Unit := do
  ensure (as.as_vbase1 ≠ 0) .fault_vbase1
  ensure (as.as_pbase1 ≠ 0) .fault_pbase1
  ensure (as.as_npages1 ≠ 0) .fault_npages1
  ensure (as.as_vbase2 ≠ 0) .fault_vbase2
  ensure (as.as_pbase2 ≠ 0) .fault_pbase2
  ensure (as.as_npages2 ≠ 0) .fault_npages2
  ensure (as.as_stackpbase ≠ 0) .fault_stackpbase
  ensure (pageFrame as.as_vbase1 = as.as_vbase1) .fault_vbase1_frame
  ensure (pageFrame as.as_pbase1 = as.as_pbase1) .fault_pbase1_frame
  ensure (pageFrame as.as_vbase2 = as.as_vbase2) .fault_vbase2_frame
  ensure (pageFrame as.as_pbase2 = as.as_pbase2) .fault_pbase2_frame
  ensure (pageFrame as.as_stackpbase = as.as_stackpbase) .fault_stackpbase_frame

/-- Writes an entry to the first slot that is not valid. -/
def vm_fault_load (faultaddress paddr : Nat) : Prog VmPanic Errno Tlb Unit := do
  let tlb ← get
  match tlb.findIdx? Option.isNone with
  | some i => set (tlb.set i (some ⟨faultaddress, paddr⟩))
  | none => throw .EFAULT

def vm_fault (faulttype : FaultType) (faultaddress : Nat) (as : Option Addrspace) : Prog VmPanic Errno Tlb Unit := do
  let faultaddress := pageFrame faultaddress
  ensure (faulttype ≠ .VM_FAULT_READONLY) .fault_readonly
  match as with
  | none => throw .EFAULT
  | some as =>
    vm_fault_check as
    match vm_fault_paddr as faultaddress with
    | none => throw .EFAULT
    | some paddr =>
      ensure (pageFrame paddr = paddr) .fault_paddr_frame
      vm_fault_load faultaddress paddr

def as_create : Addrspace := ⟨0, 0, 0, 0, 0, 0, 0⟩

def as_activate : Tlb := List.replicate NUM_TLB none

def as_define_region (vaddr sz : Nat) (as : Addrspace) : Except Errno Addrspace :=
  let npages := region_npages vaddr sz
  let vaddr := pageFrame vaddr
  if as.as_vbase1 = 0 then .ok { as with as_vbase1 := vaddr, as_npages1 := npages }
  else if as.as_vbase2 = 0 then .ok { as with as_vbase2 := vaddr, as_npages2 := npages }
  else .error .EUNIMP

/-- One of the three calls of `getppages` in `as_prepare_load`, on the address space and the memory
that is left. -/
def as_getppages (npages : Addrspace → Nat) (store : Nat → Addrspace → Addrspace) :
    Prog VmPanic Errno (Addrspace × Ram) Unit := do
  let (as, r) ← get
  let (pa, r) := getppages (npages as) r
  set (store pa as, r)
  if pa = 0 then throw .ENOMEM

def as_prepare_load : Prog VmPanic Errno (Addrspace × Ram) Unit := do
  let (as, _) ← get
  ensure (as.as_pbase1 = 0) .prepare_pbase1
  ensure (as.as_pbase2 = 0) .prepare_pbase2
  ensure (as.as_stackpbase = 0) .prepare_stackpbase
  as_getppages Addrspace.as_npages1 fun pa as => { as with as_pbase1 := pa }
  as_getppages Addrspace.as_npages2 fun pa as => { as with as_pbase2 := pa }
  as_getppages (fun _ => DUMBVM_STACKPAGES) fun pa as => { as with as_stackpbase := pa }

def Tlb.lookup (tlb : Tlb) (page : Nat) : Option Nat :=
  tlb.findSome? fun e => match e with
    | some e => if e.ehi = page then some e.elo else none
    | none => none

/-! ## Translation -/

def Addrspace.translate (as : Addrspace) (va : Nat) : Option Nat :=
  (vm_fault_paddr as (pageFrame va)).map (· + va % PAGE_SIZE)

structure Addrspace.Aligned (as : Addrspace) : Prop where
  vbase1 : as.as_vbase1 % PAGE_SIZE = 0
  pbase1 : as.as_pbase1 % PAGE_SIZE = 0
  vbase2 : as.as_vbase2 % PAGE_SIZE = 0
  pbase2 : as.as_pbase2 % PAGE_SIZE = 0
  stackpbase : as.as_stackpbase % PAGE_SIZE = 0

structure Addrspace.Apart (as : Addrspace) (last : Nat) : Prop where
  one_two : as.as_pbase1 + as.as_npages1 * PAGE_SIZE ≤ as.as_pbase2
  two_stack : as.as_pbase2 + as.as_npages2 * PAGE_SIZE ≤ as.as_stackpbase
  top : as.as_stackpbase + DUMBVM_STACKPAGES * PAGE_SIZE ≤ last
  last : last < 2 ^ 32

structure Addrspace.IsSet (as : Addrspace) : Prop where
  vbase1 : as.as_vbase1 ≠ 0
  pbase1 : as.as_pbase1 ≠ 0
  npages1 : as.as_npages1 ≠ 0
  vbase2 : as.as_vbase2 ≠ 0
  pbase2 : as.as_pbase2 ≠ 0
  npages2 : as.as_npages2 ≠ 0
  stackpbase : as.as_stackpbase ≠ 0

section Pages

theorem pageFrame_eq_iff {x : Nat} : pageFrame x = x ↔ x % PAGE_SIZE = 0 := by
  unfold pageFrame
  simp only [PAGE_SIZE]
  omega

theorem pageFrame_mod (x : Nat) : pageFrame x % PAGE_SIZE = 0 := Nat.mul_mod_left _ _

theorem pageFrame_add (x : Nat) : pageFrame x + x % PAGE_SIZE = x := by
  unfold pageFrame
  simp only [PAGE_SIZE]
  omega

variable {as : Addrspace} {fa fa' pa va va' last : Nat}

inductive Addrspace.Maps (as : Addrspace) : Nat → Nat → Prop where
  | one {n : Nat} (h : n < as.as_npages1 * PAGE_SIZE) : as.Maps (as.as_vbase1 + n) (as.as_pbase1 + n)
  | two {n : Nat} (h : n < as.as_npages2 * PAGE_SIZE) : as.Maps (as.as_vbase2 + n) (as.as_pbase2 + n)
  | stack {n : Nat} (h : n < DUMBVM_STACKPAGES * PAGE_SIZE) :
      as.Maps (USERSTACK - DUMBVM_STACKPAGES * PAGE_SIZE + n) (as.as_stackpbase + n)

inductive Addrspace.Places (as : Addrspace) : Nat → Nat → Prop where
  | one {n : Nat} (h : n < as.as_npages1 * PAGE_SIZE) : as.Places (as.as_vbase1 + n) ((as.as_pbase1 + n) % 2 ^ 32)
  | two {n : Nat} (h : n < as.as_npages2 * PAGE_SIZE) : as.Places (as.as_vbase2 + n) ((as.as_pbase2 + n) % 2 ^ 32)
  | stack {n : Nat} (h : n < DUMBVM_STACKPAGES * PAGE_SIZE) :
      as.Places (USERSTACK - DUMBVM_STACKPAGES * PAGE_SIZE + n) ((as.as_stackpbase + n) % 2 ^ 32)

theorem places_of_paddr (hp : vm_fault_paddr as fa = some pa) : as.Places fa pa := by
  have htop1 := Nat.mod_le (as.as_vbase1 + as.as_npages1 * PAGE_SIZE) (2 ^ 32)
  have htop2 := Nat.mod_le (as.as_vbase2 + as.as_npages2 * PAGE_SIZE) (2 ^ 32)
  simp only [vm_fault_paddr] at hp
  split at hp
  · rename_i hfa
    obtain ⟨n, rfl⟩ := Nat.exists_eq_add_of_le hfa.1
    rw [Nat.add_sub_cancel_left, Nat.add_comm] at hp
    cases hp
    exact .one (by omega)
  split at hp
  · rename_i hfa
    obtain ⟨n, rfl⟩ := Nat.exists_eq_add_of_le hfa.1
    rw [Nat.add_sub_cancel_left, Nat.add_comm] at hp
    cases hp
    exact .two (by omega)
  split at hp
  · rename_i hfa
    obtain ⟨n, rfl⟩ := Nat.exists_eq_add_of_le hfa.1
    rw [Nat.add_sub_cancel_left, Nat.add_comm] at hp
    cases hp
    refine .stack ?_
    simp only [USERSTACK, USERTOP, MIPS_KSEG0] at hfa ⊢
    omega
  · cases hp

theorem Addrspace.Apart.maps (h : as.Apart last) (hp : vm_fault_paddr as fa = some pa) : as.Maps fa pa := by
  obtain ⟨h12, h2s, ht, hl⟩ := h
  cases places_of_paddr hp with
  | one hn => rw [Nat.mod_eq_of_lt (by omega)]; exact .one hn
  | two hn => rw [Nat.mod_eq_of_lt (by omega)]; exact .two hn
  | stack hn => rw [Nat.mod_eq_of_lt (by omega)]; exact .stack hn

def physical (pbase npages : Nat) : Set Nat := {p | ∃ n, n < npages * PAGE_SIZE ∧ p = (pbase + n) % 2 ^ 32}

def Addrspace.ranges (as : Addrspace) : List (Set Nat) :=
  [physical as.as_pbase1 as.as_npages1, physical as.as_pbase2 as.as_npages2,
    physical as.as_stackpbase DUMBVM_STACKPAGES]

theorem Addrspace.Places.mem_ranges (h : as.Places va pa) : ∃ r ∈ as.ranges, pa ∈ r := by
  cases h with
  | one hn => exact ⟨_, .head _, _, hn, rfl⟩
  | two hn => exact ⟨_, .tail _ (.head _), _, hn, rfl⟩
  | stack hn => exact ⟨_, .tail _ (.tail _ (.head _)), _, hn, rfl⟩

theorem physical_disjoint {b b' n n' : Nat} (h : b + n * PAGE_SIZE ≤ b') (hlt : b' + n' * PAGE_SIZE ≤ 2 ^ 32) :
    Disjoint (physical b n) (physical b' n') := by
  rw [Set.disjoint_left]
  rintro _ ⟨m, hm, rfl⟩ ⟨m', hm', heq⟩
  rw [Nat.mod_eq_of_lt (by omega), Nat.mod_eq_of_lt (by omega)] at heq
  omega

theorem Addrspace.Apart.paddr (h : as.Apart last) (ha : as.Aligned) (hfa : fa % PAGE_SIZE = 0)
    (hp : vm_fault_paddr as fa = some pa) : pa % PAGE_SIZE = 0 ∧ pa + PAGE_SIZE ≤ last := by
  have hm := h.maps hp
  obtain ⟨h12, h2s, ht, -⟩ := h
  obtain ⟨hv1, hp1, hv2, hp2, hps⟩ := ha
  cases hm <;> simp only [PAGE_SIZE, USERSTACK, USERTOP, MIPS_KSEG0, DUMBVM_STACKPAGES] at * <;> omega

theorem Addrspace.Apart.paddr_inj (h : as.Apart last) (hp : vm_fault_paddr as fa = some pa)
    (hp' : vm_fault_paddr as fa' = some pa) : fa = fa' := by
  have hm := h.maps hp
  have hm' := h.maps hp'
  obtain ⟨h12, h2s, -, -⟩ := h
  generalize hpa : pa = pa' at hm'
  cases hm <;> cases hm' <;> omega

theorem Addrspace.Apart.translate_inj (h : as.Apart last) (ha : as.Aligned) (hp : as.translate va = some pa)
    (hp' : as.translate va' = some pa) : va = va' := by
  simp only [translate, Option.map_eq_some_iff] at hp hp'
  obtain ⟨q, hq, hpa⟩ := hp
  obtain ⟨q', hq', hpa'⟩ := hp'
  have hqa := (h.paddr ha (pageFrame_mod _) hq).1
  have hqa' := (h.paddr ha (pageFrame_mod _) hq').1
  have hva := pageFrame_add va
  have hva' := pageFrame_add va'
  have hqq : q = q' := by
    simp only [PAGE_SIZE] at *
    omega
  have hframe := h.paddr_inj hq (hqq ▸ hq')
  omega

end Pages

/-! ## Faults -/

def Tlb.Agrees (tlb : Tlb) (as : Addrspace) : Prop :=
  ∀ e, some e ∈ tlb → e.ehi % PAGE_SIZE = 0 ∧ vm_fault_paddr as e.ehi = some e.elo

def Tlb.Single (tlb : Tlb) : Prop := (tlb.filterMap (Option.map TlbEntry.ehi)).Nodup

section Faults

variable {as : Addrspace} {tlb tlb' : Tlb} {va page pa last : Nat} {ft : FaultType}

theorem activate_agrees (as : Addrspace) : Tlb.Agrees as_activate as := by
  intro e he
  cases List.eq_of_mem_replicate he

theorem activate_empty (e : TlbEntry) : some e ∉ as_activate := fun he => nomatch List.eq_of_mem_replicate he

theorem lookup_of_empty (h : ∀ e, some e ∉ tlb) : tlb.lookup page = none := by
  refine List.findSome?_eq_none_iff.mpr fun e he => ?_
  cases e with
  | none => rfl
  | some e => exact absurd he (h e)

theorem single_of_empty (h : ∀ e, some e ∉ tlb) : tlb.Single := by
  have hnil : tlb.filterMap (Option.map TlbEntry.ehi) = [] := by
    refine List.filterMap_eq_nil_iff.mpr fun e he => ?_
    cases e with
    | none => rfl
    | some e => exact absurd he (h e)
  unfold Tlb.Single
  rw [hnil]
  exact List.nodup_nil

theorem lookup_eq_none (h : tlb.lookup page = none) {e : TlbEntry} (he : some e ∈ tlb) : e.ehi ≠ page := by
  intro hpage
  have := List.findSome?_eq_none_iff.mp h (some e) he
  simp [hpage] at this

theorem Tlb.Agrees.lookup (h : tlb.Agrees as) (hl : tlb.lookup page = some pa) : vm_fault_paddr as page = some pa := by
  obtain ⟨e, he, hpage⟩ := List.exists_of_findSome?_eq_some hl
  cases e with
  | none => cases hpage
  | some e =>
    simp only [Option.ite_none_right_eq_some, Option.some.injEq] at hpage
    obtain ⟨rfl, rfl⟩ := hpage
    exact (h e he).2

theorem lookup_isSome {e : TlbEntry} (he : some e ∈ tlb) : (tlb.lookup e.ehi).isSome := by
  by_contra hn
  exact lookup_eq_none (Option.not_isSome_iff_eq_none.mp hn) he rfl

inductive Refill (as : Addrspace) (page : Nat) (tlb : Tlb) : Except Errno Unit → Tlb → Prop where
  | fails : Refill as page tlb (.error .EFAULT) tlb
  | writes {i pa : Nat} (hi : i < tlb.length) (hfree : tlb[i] = none) (hpa : vm_fault_paddr as page = some pa) :
      Refill as page tlb (.ok ()) (tlb.set i (some ⟨page, pa⟩))

theorem vm_fault_check_spec (as : Addrspace) (tlb : Tlb) :
    Holds (fun _ => ¬ (as.IsSet ∧ as.Aligned)) (vm_fault_check as) tlb
      fun r t => r = .ok () ∧ t = tlb ∧ as.IsSet ∧ as.Aligned := by
  have en : ∀ {c : Prop}, (as.IsSet ∧ as.Aligned → c) → c ∨ ¬ (as.IsSet ∧ as.Aligned) := fun f =>
    (Classical.em _).imp f id
  unfold vm_fault_check
  refine holds_ensure_bind (en fun h => h.1.vbase1) fun h1 => ?_
  refine holds_ensure_bind (en fun h => h.1.pbase1) fun h2 => ?_
  refine holds_ensure_bind (en fun h => h.1.npages1) fun h3 => ?_
  refine holds_ensure_bind (en fun h => h.1.vbase2) fun h4 => ?_
  refine holds_ensure_bind (en fun h => h.1.pbase2) fun h5 => ?_
  refine holds_ensure_bind (en fun h => h.1.npages2) fun h6 => ?_
  refine holds_ensure_bind (en fun h => h.1.stackpbase) fun h7 => ?_
  refine holds_ensure_bind (en fun h => pageFrame_eq_iff.mpr h.2.vbase1) fun h8 => ?_
  refine holds_ensure_bind (en fun h => pageFrame_eq_iff.mpr h.2.pbase1) fun h9 => ?_
  refine holds_ensure_bind (en fun h => pageFrame_eq_iff.mpr h.2.vbase2) fun h10 => ?_
  refine holds_ensure_bind (en fun h => pageFrame_eq_iff.mpr h.2.pbase2) fun h11 => ?_
  refine holds_ensure (en fun h => pageFrame_eq_iff.mpr h.2.stackpbase) fun h12 => ?_
  simp only [pageFrame_eq_iff] at h8 h9 h10 h11 h12
  exact ⟨rfl, rfl, ⟨h1, h2, h3, h4, h5, h6, h7⟩, ⟨h8, h9, h10, h11, h12⟩⟩

theorem vm_fault_load_spec (hpa : vm_fault_paddr as page = some pa) (tlb : Tlb) :
    ∃ r t, vm_fault_load page pa tlb = .ok (r, t) ∧ Refill as page tlb r t := by
  unfold vm_fault_load
  rw [bind_ok (get_run tlb)]
  cases hi : tlb.findIdx? Option.isNone with
  | none => exact ⟨_, _, rfl, .fails⟩
  | some i =>
    obtain ⟨hlt, hnone, -⟩ := List.findIdx?_eq_some_iff_getElem.mp hi
    exact ⟨_, _, rfl, .writes hlt (Option.isNone_iff_eq_none.mp hnone) hpa⟩

theorem vm_fault_spec (as : Addrspace) (last : Nat) (hft : ft ≠ .VM_FAULT_READONLY) (va : Nat) (tlb : Tlb) :
    Holds (fun _ => ¬ (as.IsSet ∧ as.Aligned ∧ as.Apart last)) (vm_fault ft va (some as)) tlb
      fun r t => Refill as (pageFrame va) tlb r t := by
  unfold vm_fault
  refine holds_ensure_bind (.inl hft) fun _ => ?_
  refine ((vm_fault_check_spec as tlb).mono (fun _ _ => id) fun _ hn h => hn ⟨h.1, h.2.1⟩).bind ?_ ?_
  · rintro _ t ⟨-, rfl, -, -⟩
    cases hp : vm_fault_paddr as (pageFrame va) with
    | none => exact holds_throw .fails
    | some pa =>
      refine holds_ensure_bind ?_ fun _ => ?_
      · refine (Classical.em (as.IsSet ∧ as.Aligned ∧ as.Apart last)).imp (fun h => ?_) id
        exact pageFrame_eq_iff.mpr (h.2.2.paddr h.2.1 (pageFrame_mod _) hp).1
      · obtain ⟨r, t', hrun, hr⟩ := vm_fault_load_spec hp t
        exact holds_of_run hrun hr
  · rintro _ _ ⟨h, -⟩
    cases h

theorem Refill.agrees {r : Except Errno Unit} (h : Refill as (pageFrame va) tlb r tlb') (ha : tlb.Agrees as) :
    tlb'.Agrees as := by
  cases h with
  | fails => exact ha
  | writes hi hfree hpa =>
    intro e he
    rcases List.mem_or_eq_of_mem_set he with he | he
    · exact ha e he
    · cases he
      exact ⟨pageFrame_mod va, hpa⟩

theorem Refill.single {r : Except Errno Unit} (h : Refill as page tlb r tlb') (hl : tlb.lookup page = none)
    (hs : tlb.Single) : tlb'.Single := by
  cases h with
  | fails => exact hs
  | @writes i pa hi hfree hpa =>
    unfold Tlb.Single at hs ⊢
    -- the free slot splits the TLB, and the page stands in neither part
    have hsplit : tlb = tlb.take i ++ none :: tlb.drop (i + 1) := by
      rw [← hfree, List.getElem_cons_drop, List.take_append_drop]
    have hnew : Option.map TlbEntry.ehi (some ⟨page, pa⟩) = some page := rfl
    rw [List.set_eq_take_append_cons_drop, if_pos hi, List.filterMap_append, List.filterMap_cons_some hnew,
      List.perm_middle.nodup_iff, ← List.filterMap_append]
    rw [hsplit, List.filterMap_append, List.filterMap_cons_none (Option.map_none ..), ← List.filterMap_append] at hs
    refine List.nodup_cons.mpr ⟨fun hmem => ?_, hs⟩
    obtain ⟨e, he, hpage⟩ := List.mem_filterMap.mp hmem
    cases e with
    | none => cases hpage
    | some e =>
      refine lookup_eq_none hl (e := e) ?_ (Option.some.inj hpage)
      rw [hsplit]
      simpa using List.mem_append.mp he

theorem Refill.lookup (h : Refill as (pageFrame va) tlb (.ok ()) tlb') : (tlb'.lookup (pageFrame va)).isSome := by
  cases h with
  | writes hi hfree hpa => exact lookup_isSome (e := ⟨pageFrame va, _⟩) (List.mem_set hi _)

end Faults

/-! ## Pages for a program -/

structure Ram.Ok (r : Ram) : Prop where
  le : r.firstpaddr ≤ r.lastpaddr
  first : r.firstpaddr % PAGE_SIZE = 0
  last : r.lastpaddr % PAGE_SIZE = 0
  max : r.lastpaddr ≤ 508 * 1024 * 1024

section Prepare

variable {as : Addrspace} {r : Ram} {n : Nat}

def Moderate (npages : Nat) : Prop := npages * PAGE_SIZE + 508 * 1024 * 1024 < 2 ^ 32

instance Moderate.decidable (npages : Nat) : Decidable (Moderate npages) := inferInstanceAs (Decidable (_ < _))

theorem as_getppages_spec {npages : Addrspace → Nat} {store : Nat → Addrspace → Addrspace} (h : r.Ok) :
    Holds (fun _ => False) (as_getppages npages store) (as, r) fun res t =>
      t.2.Ok ∧ t.2.lastpaddr = r.lastpaddr ∧ ∃ pa, t.1 = store pa as ∧
      (res = .ok () → pa ≠ 0 ∧ pa % PAGE_SIZE = 0 ∧
        (Moderate (npages as) → pa = r.firstpaddr ∧ t.2.firstpaddr = pa + npages as * PAGE_SIZE)) := by
  obtain ⟨h1, h2, h3, h4⟩ := h
  unfold as_getppages
  refine holds_bind_run (get_run _) ?_
  by_cases hlast : (r.firstpaddr + npages as * PAGE_SIZE % 2 ^ 32) % 2 ^ 32 > r.lastpaddr
  · simp only [getppages, ram_stealmem, if_pos hlast]
    refine holds_bind_run (set_run _ _) (holds_throw ⟨⟨h1, h2, h3, h4⟩, rfl, 0, rfl, (by simp)⟩)
  · simp only [getppages, ram_stealmem, if_neg hlast]
    refine holds_bind_run (set_run _ _) ?_
    have hok : Ram.Ok ⟨(r.firstpaddr + npages as * PAGE_SIZE % 2 ^ 32) % 2 ^ 32, r.lastpaddr⟩ := by
      refine ⟨Nat.le_of_not_lt hlast, ?_, h3, h4⟩
      simp only [PAGE_SIZE] at h2 ⊢
      omega
    by_cases h0 : r.firstpaddr = 0
    · rw [if_pos h0]
      exact holds_throw ⟨hok, rfl, _, rfl, (by simp)⟩
    · rw [if_neg h0]
      refine holds_pure ⟨hok, rfl, _, rfl, fun _ => ⟨h0, h2, fun hm => ⟨rfl, ?_⟩⟩⟩
      simp only [Moderate, PAGE_SIZE] at hm ⊢
      omega

theorem as_prepare_load_spec (h : r.Ok) (h1 : as.as_pbase1 = 0) (h2 : as.as_pbase2 = 0) (hs : as.as_stackpbase = 0)
    (hv1 : as.as_vbase1 % PAGE_SIZE = 0) (hv2 : as.as_vbase2 % PAGE_SIZE = 0) :
    Holds (fun _ => False) as_prepare_load (as, r) fun res t =>
      t.2.lastpaddr = r.lastpaddr ∧
      (res = .ok () → ∃ p1 p2 ps, t.1 = { as with as_pbase1 := p1, as_pbase2 := p2, as_stackpbase := ps } ∧
        p1 ≠ 0 ∧ p2 ≠ 0 ∧ ps ≠ 0 ∧ t.1.Aligned ∧
        (Moderate as.as_npages1 → Moderate as.as_npages2 → t.1.Apart r.lastpaddr)) := by
  unfold as_prepare_load
  refine holds_bind_run (get_run _) ?_
  refine holds_ensure_bind (.inl h1) fun _ => holds_ensure_bind (.inl h2) fun _ => holds_ensure_bind (.inl hs) fun _ => ?_
  refine (as_getppages_spec h).bind ?_ fun _ _ hq => ⟨hq.2.1, nofun⟩
  rintro _ ⟨as1, r1⟩ ⟨hr1, hl1, p1, rfl, hp1⟩
  obtain ⟨hne1, hal1, hmod1⟩ := hp1 rfl
  refine (as_getppages_spec hr1).bind ?_ fun _ _ hq => ⟨hq.2.1.trans hl1, nofun⟩
  rintro _ ⟨as2, r2⟩ ⟨hr2, hl2, p2, rfl, hp2⟩
  obtain ⟨hne2, hal2, hmod2⟩ := hp2 rfl
  refine (as_getppages_spec hr2).imp ?_
  rintro res ⟨as3, r3⟩ ⟨hr3, hl3, ps, rfl, hps⟩
  refine ⟨hl3.trans (hl2.trans hl1), fun hres => ?_⟩
  obtain ⟨hnes, hals, hmods⟩ := hps hres
  refine ⟨p1, p2, ps, rfl, hne1, hne2, hnes, ⟨hv1, hal1, hv2, hal2, hals⟩, fun hm1 hm2 => ?_⟩
  obtain ⟨he1, hf1⟩ := hmod1 hm1
  obtain ⟨he2, hf2⟩ := hmod2 hm2
  obtain ⟨hes, hfs⟩ := hmods (by decide)
  have hle3 := hr3.le
  have hmax := h.max
  dsimp only at *
  exact ⟨by dsimp only; omega, by dsimp only; omega, by dsimp only; omega, by omega⟩

end Prepare

end Os161
