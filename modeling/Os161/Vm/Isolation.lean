import Os161.Thread.Shape
import Os161.Vm.Addrspace

/-! # User programs on the threads

`runprogram` gives a thread an address space, and the threads share one TLB. What a thread does with
user memory, the processor does at `prog` of `mi_threadstart` or of `kmain`: an interrupt, and with it
a switch, can come between any two steps of it, also between a fault and its `vm_fault`.
-/

namespace Os161.Cpu

open Machine (Any)

/-! ## The machine -/

inductive Progress where
  | kernel | created | activated | loaded
  deriving DecidableEq, Repr

/-- The threads with their address spaces, faults that are not handled yet, the TLB and the memory
that is left. `granted` has the spaces that `as_prepare_load` found memory for. -/
structure VmKernel where
  k : Kernel
  t_vmspace : Tid → Option Addrspace
  progress : Tid → Progress
  fault : Tid → Option (FaultType × Nat)
  tlb : Tlb
  ram : Ram
  granted : List (Tid × Addrspace)

inductive VmStop where
  | thread (s : Stop)
  | disabled
  | null
  /-- `assert(curthread->t_vmspace == NULL)`. -/
  | vmspace
  | panic (p : VmPanic)
  deriving DecidableEq, Repr

inductive VmChoice where
  | thread (ch : Choice)
  /-- `curthread->t_vmspace = as_create()`, with the outcome of its `kmalloc`. -/
  | create (mem : Bool)
  | activate
  | define_region (vaddr sz : Nat)
  | prepare_load
  | access (write : Bool) (va : Nat)
  | vm_fault
  | getppages (npages : Nat)
  deriving DecidableEq, Repr

/-- Instructions with `if (curthread->t_vmspace) as_activate(curthread->t_vmspace)`: the last of
`mi_switch` and the first of `mi_threadstart`. -/
def Frame.activates (f : Frame) : Bool :=
  f.call = .mi_switch ∧ f.code.head? = some (.act .exorcise) ∨
    f.call = .mi_threadstart ∧ f.code.head? = some .irq

/-- `thread_exit` sets `t_vmspace` to NULL right after its `splhigh`. -/
def Frame.drops (f : Frame) : Bool := f.call = .thread_exit ∧ f.code.head? = some .splhigh

namespace VmKernel

def atProg (w : VmKernel) : Bool :=
  match w.k.stack w.k.on with
  | [] => false
  | f :: _ => f.code.head? = some .prog ∧ (f.call = .mi_threadstart ∨ f.call = .boot)

def go (w : VmKernel) (k : Kernel) : Except VmStop VmKernel :=
  match w.k.stack w.k.on with
  | [] => .ok { w with k := k }
  | f :: _ =>
    if f.activates then
      match k.g.curthread with
      | none => .error .null
      | some t => .ok { w with k := k, tlb := if (w.t_vmspace t).isSome then as_activate else w.tlb }
    else if f.drops then
      match k.g.curthread with
      | none => .error .null
      | some t => .ok { w with k := k, t_vmspace := Function.update w.t_vmspace t none }
    else .ok { w with k := k }

def own (w : VmKernel) (t : Tid) : VmChoice → Except VmStop VmKernel
  | .create mem =>
    if (w.t_vmspace t).isSome then .error .vmspace
    else .ok { w with
      t_vmspace := Function.update w.t_vmspace t (if mem then some as_create else none)
      progress := Function.update w.progress t .created }
  | .activate =>
    match w.t_vmspace t, w.progress t with
    | some _, .created => .ok { w with tlb := as_activate, progress := Function.update w.progress t .activated }
    | _, _ => .error .disabled
  | .define_region vaddr sz =>
    match w.t_vmspace t, w.progress t with
    | some as, .activated =>
      match as_define_region vaddr sz as with
      | .ok as => .ok { w with t_vmspace := Function.update w.t_vmspace t (some as) }
      | .error _ => .ok w
    | _, _ => .error .disabled
  | .prepare_load =>
    match w.t_vmspace t, w.progress t with
    | some as, .activated =>
      match as_prepare_load (as, w.ram) with
      | .error p => .error (.panic p)
      | .ok (.ok _, (as, ram)) => .ok { w with
          t_vmspace := Function.update w.t_vmspace t (some as)
          progress := Function.update w.progress t .loaded
          ram := ram
          granted := (t, as) :: w.granted }
      | .ok (.error _, (as, ram)) => .ok { w with
          t_vmspace := Function.update w.t_vmspace t (some as)
          ram := ram }
    | _, _ => .error .disabled
  | .access write va =>
    match w.t_vmspace t, w.progress t with
    | some _, .loaded =>
      match w.tlb.lookup (pageFrame va) with
      | some _ => .ok w
      | none => .ok { w with
          fault := Function.update w.fault t (some (if write then .VM_FAULT_WRITE else .VM_FAULT_READ, va)) }
    | _, _ => .error .disabled
  | _ => .error .disabled

def trap (w : VmKernel) (t : Tid) (ft : FaultType) (va : Nat) : Except VmStop VmKernel :=
  match vm_fault ft va (w.t_vmspace t) w.tlb with
  | .error p => .error (.panic p)
  | .ok (_, tlb) => .ok { w with tlb := tlb, fault := Function.update w.fault t none }

def atThread (w : VmKernel) (t : Tid) (ch : VmChoice) : Except VmStop VmKernel :=
  match w.fault t with
  | none => w.own t ch
  | some (ft, va) => if ch = .vm_fault then w.trap t ft va else .error .disabled

def step (w : VmKernel) : VmChoice → Except VmStop (VmKernel × List Event)
  | .thread ch =>
    match Cpu.step w.k ch with
    | .error s => .error (.thread s)
    | .ok (k, es) =>
      match ch with
      | .go _ => (w.go k).map fun w => (w, es)
      | _ => .ok ({ w with k := k }, es)
  | .getppages npages => .ok ({ w with ram := (getppages npages w.ram).2 }, [])
  | ch =>
    if w.atProg then
      match w.k.g.curthread with
      | none => .error .null
      | some t => (w.atThread t ch).map fun w => (w, [])
    else .error .disabled

end VmKernel

def programs (c : Config) : Machine VmKernel VmChoice Event VmStop where
  init w := (∀ s, 0 ≤ c.initial_count s) ∧ w.k = boot c ∧ (∀ t, w.t_vmspace t = none) ∧ (∀ t, w.fault t = none) ∧
    w.granted = []
  step := VmKernel.step

/-! ## Threads that have to activate their space first -/

def Frame.unsettled (f : Frame) : Bool :=
  f.call = .mi_switch ∧ f.code ≠ [] ∨ f.call = .mi_threadstart ∧ f.code = body .mi_threadstart

def Unsettled (fs : List Frame) : Prop := ∃ f ∈ fs, f.unsettled = true

section Unsettled

variable {k k' : Kernel} {ch : Choice} {es : List Event} {f f' : Frame} {bs fs : List Frame} {i : Instr}
  {rest : List Instr}

theorem Unsettled.cons (h : Unsettled fs) : Unsettled (f :: fs) :=
  let ⟨g, hg, hu⟩ := h
  ⟨g, List.mem_cons_of_mem _ hg, hu⟩

theorem unsettled_cons : Unsettled (f :: fs) ↔ f.unsettled = true ∨ Unsettled fs := by
  simp [Unsettled]

theorem unsettled_firstStack {t : Tid} (ht : t ≠ 0) : Unsettled (firstStack t) := by
  rw [firstStack, if_neg ht]
  exact ⟨_, List.mem_cons_self, rfl⟩

theorem unsettled_head (hwf : Wf f) (hc : f.code = i :: rest) (hu : f.unsettled = true) :
    i = .schedule ∨ f.activates = true := by
  simp only [Frame.unsettled, decide_eq_true_eq] at hu
  rcases hu with ⟨hcall, -⟩ | ⟨hcall, hcode⟩
  · have hsuf := hwf.code
    simp only [hcall, hc, body, List.suffix_cons_iff, List.cons.injEq, List.suffix_nil] at hsuf
    rcases hsuf with ⟨hi, -⟩ | ⟨hi, -⟩ | hsuf
    · exact .inl hi
    · exact .inr (by simp [Frame.activates, hcall, hc, hi])
    · cases hsuf
  · exact .inr (by simp [Frame.activates, hcall, hcode, body])

theorem unsettled_resume (hwf : Wf f) (hc : f.code = i :: rest) {c : Call} (hcalls : i.calls c = true)
    (hu : f.unsettled = true) : f.resume.unsettled = true := by
  have hstays : i.stays = true := by
    rcases unsettled_head hwf hc hu with rfl | hact
    · rfl
    · simp only [Frame.activates, hc, List.head?_cons, Option.some.injEq, decide_eq_true_eq] at hact
      rcases hact with ⟨-, rfl⟩ | ⟨-, rfl⟩ <;> cases hcalls
  unfold Frame.resume
  rw [hc]
  simpa only [hstays, if_true] using hu

theorem moves_unsettled (hsp : SplInv k) (hoff : ∀ t, t ≠ k.on → Unsettled (k.stack t)) (hm : Moves k ch k' es) :
    (∀ t, t ≠ k'.on → Unsettled (k'.stack t)) ∧
      (Unsettled (k'.stack k'.on) ∨
        k'.on = k.on ∧ (Unsettled (k.stack k.on) → ∃ f bs, k.stack k.on = f :: bs ∧ f.activates = true)) := by
  -- the same thread goes on with another stack
  have hgoto : ∀ (ie : Bool) {g : Globals} {fs : List Frame},
      (Unsettled fs ∨ (Unsettled (k.stack k.on) → ∃ f bs, k.stack k.on = f :: bs ∧ f.activates = true)) →
      (∀ t, t ≠ k.on → Unsettled (((k.goto g fs).setIe ie).stack t)) ∧
        (Unsettled (((k.goto g fs).setIe ie).stack k.on) ∨
          k.on = k.on ∧ (Unsettled (k.stack k.on) → ∃ f bs, k.stack k.on = f :: bs ∧ f.activates = true)) := by
    intro ie g fs h
    refine ⟨fun t ht => ?_, ?_⟩
    · show Unsettled (Function.update k.stack k.on fs t)
      rw [Function.update_of_ne ht]
      exact hoff t ht
    · show Unsettled (Function.update k.stack k.on fs k.on) ∨ _
      rw [Function.update_self]
      exact h.imp id fun h => ⟨rfl, h⟩
  -- the frame on top goes on after an instruction that is not the scheduler's
  have hadv : ∀ {f f' : Frame} {bs : List Frame} {i : Instr} {rest : List Instr},
      k.stack k.on = f :: bs → f.code = i :: rest → i ≠ .schedule →
      Unsettled (f' :: bs) ∨ (Unsettled (k.stack k.on) → ∃ f bs, k.stack k.on = f :: bs ∧ f.activates = true) := by
    intro f f' bs i rest hs hc hi
    by_cases hbs : Unsettled bs
    · exact .inl hbs.cons
    refine .inr fun hu => ⟨f, bs, hs, ?_⟩
    rw [hs, unsettled_cons] at hu
    rcases hu with hu | hu
    · exact (unsettled_head (hsp.wf_top hs) hc hu).resolve_left hi
    · exact absurd hu hbs
  have hswitch : ∀ {fs : List Frame}, Unsettled (k.enter .mi_switch :: fs) :=
    ⟨_, List.mem_cons_self, rfl⟩
  cases hm with
  | interrupt hie =>
    refine hgoto _ ?_
    by_cases hu : Unsettled (k.stack k.on)
    · exact .inl hu.cons
    · exact .inr fun h => absurd h hu
  | @ret f c bs hs hc =>
    obtain ⟨habove, -⟩ := List.isChain_cons_cons.mp (hsp.chain_top hs)
    obtain ⟨i, rest, hci, hcalls⟩ := habove.caller fun hint => (hsp.wf_top hs).alive hint hc
    refine hgoto k.ie ?_
    by_cases hbs : Unsettled (c.resume :: bs)
    · exact .inl hbs
    refine .inr fun hu => absurd ?_ hbs
    rw [hs, unsettled_cons, unsettled_cons] at hu
    rw [unsettled_cons]
    rcases hu with hu | hu | hu
    · simp [Frame.unsettled, hc, body] at hu
    · exact .inl (unsettled_resume (hsp.wf_below hs c List.mem_cons_self) hci hcalls hu)
    · exact .inr hu
  | @call f bs i rest c hs hc hcalls hi =>
    refine hgoto k.ie ?_
    by_cases hu : Unsettled (f :: bs)
    · exact .inl hu.cons
    · exact .inr fun h => absurd (hs ▸ h) hu
  | skip hs hc hi =>
    refine hgoto k.ie (hadv hs hc ?_)
    rintro rfl
    simp at hi
  | splhigh hs hc => exact hgoto _ (hadv hs hc (by simp))
  | irq hs hc => exact hgoto _ (hadv hs hc (by simp))
  | setspl hs hc => exact hgoto k.ie (hadv hs hc (by simp))
  | idle_on hs hc => exact hgoto _ (hadv hs hc (by simp))
  | idle_off hs hc => exact hgoto _ (hadv hs hc (by simp))
  | @leave f bs rest hs hc =>
    refine hgoto _ ?_
    by_cases hbs : Unsettled bs
    · exact .inl hbs
    refine .inr fun hu => ⟨f, bs, hs, ?_⟩
    rw [hs, unsettled_cons] at hu
    rcases hu with hu | hu
    · exact (unsettled_head (hsp.wf_top hs) hc hu).resolve_left (by simp)
    · exact absurd hu hbs
  | act hs hc ha => exact hgoto k.ie (hadv hs hc (by simp))
  | pass hs hc hw hp => exact hgoto k.ie (hadv hs hc (by simp))
  | sleep hs hc hi hg => exact hgoto k.ie (.inl hswitch)
  | zz hs hc hg => exact hgoto k.ie (.inl hswitch)
  | unzz hs hc hcur => exact hgoto k.ie (hadv hs hc (by simp))
  | switch hs hc hg => exact hgoto k.ie (.inl hswitch)
  | exit hs hc hg => exact hgoto k.ie (.inl hswitch)
  | @schedule f bs rest nu g' hs hc hg =>
    have hf : f.call = .mi_switch := ((hsp.wf_top hs).checked hc).2
    -- what is left of the `mi_switch` activates the space of the thread that leaves, when it is back
    have hrest : rest = [.act .exorcise] := by
      have hsuf := (hsp.wf_top hs).code
      simpa [hf, hc, body, List.suffix_cons_iff] using hsuf
    have hall : ∀ t, Unsettled ((k.goto g' ({ f with code := rest } :: bs)).stack t) := by
      intro t
      show Unsettled (Function.update k.stack k.on ({ f with code := rest } :: bs) t)
      by_cases ht : t = k.on
      · subst ht
        rw [Function.update_self]
        exact ⟨_, List.mem_cons_self, by simp [Frame.unsettled, hf, hrest]⟩
      · rw [Function.update_of_ne ht]
        exact hoff t ht
    rw [md_switch_stack]
    exact ⟨fun t _ => hall t, .inl (hall _)⟩

end Unsettled

/-! ## The TLB of the thread that runs -/

def VmKernel.Serves (w : VmKernel) (t : Tid) : Prop :=
  ∀ as, w.t_vmspace t = some as →
    match w.progress t with
    | .kernel | .created => True
    | .activated => ∀ e, some e ∉ w.tlb
    | .loaded => w.tlb.Agrees as ∧ w.tlb.Single ∧
        ∀ ft va, w.fault t = some (ft, va) → w.tlb.lookup (pageFrame va) = none

structure VmInv (w : VmKernel) : Prop where
  spl : SplInv w.k
  sw : SwInv w.k
  off : ∀ t, t ≠ w.k.on → Unsettled (w.k.stack t)
  on : ¬ Unsettled (w.k.stack w.k.on) → w.Serves w.k.on
  faults : ∀ t ft va, w.fault t = some (ft, va) → ft ≠ .VM_FAULT_READONLY ∧
    ((w.t_vmspace t).isSome → w.progress t = .loaded)
  granted : ∀ t as, w.t_vmspace t = some as → w.progress t = .loaded → (t, as) ∈ w.granted

section Serves

variable {w w' : VmKernel} {t : Tid} {k : Kernel} {ch : Choice} {es : List Event}

theorem serves_of_empty (h : ∀ e, some e ∉ w.tlb) : w.Serves t := by
  intro as _
  split
  · trivial
  · trivial
  · exact h
  · exact ⟨fun e he => absurd he (h e), single_of_empty h, fun _ _ _ => lookup_of_empty h⟩

theorem nil_below {f : Frame} {bs : List Frame} (hsp : SplInv w.k) (hs : w.k.stack w.k.on = f :: bs)
    (hf : f.call = .mi_threadstart ∨ f.call = .boot) : bs = [] := by
  cases bs with
  | nil => rfl
  | cons b bs =>
    obtain ⟨habove, -⟩ := List.isChain_cons_cons.mp (hsp.chain_top hs)
    obtain ⟨i, rest, hc, hcalls⟩ := habove.caller (by rcases hf with hf | hf <;> rw [hf] <;> nofun)
    have hfits := ((hsp.wf_below hs b List.mem_cons_self).checked hc).2
    cases i with
    | call c =>
      simp only [Instr.calls, decide_eq_true_eq] at hcalls
      subst hcalls
      rcases hf with hf | hf <;> rw [hf] at hfits <;>
        rcases hfits with ⟨-, hc'⟩ | ⟨-, hc'⟩ | ⟨v, l, -, hc' | hc'⟩ <;> cases hc'
    | _ => rcases hf with hf | hf <;> rw [hf] at hcalls <;> cases hcalls

theorem settled_of_atProg (hsp : SplInv w.k) (h : w.atProg = true) : ¬ Unsettled (w.k.stack w.k.on) := by
  unfold VmKernel.atProg at h
  split at h
  · cases h
  · rename_i f bs hs
    rw [decide_eq_true_eq] at h
    obtain ⟨hcode, hf⟩ := h
    rw [hs, nil_below hsp hs hf]
    rintro ⟨g, hg, hu⟩
    cases List.mem_singleton.mp hg
    simp only [Frame.unsettled, decide_eq_true_eq] at hu
    rcases hu with ⟨hcall, -⟩ | ⟨-, hbody⟩
    · rcases hf with hf | hf <;> rw [hf] at hcall <;> cases hcall
    · rw [hbody] at hcode; cases hcode

theorem VmInv.change (h : VmInv w) (hk : w'.k = w.k) (hon : w'.Serves w.k.on)
    (hsame : ∀ t, t ≠ w.k.on → w'.t_vmspace t = w.t_vmspace t ∧ w'.progress t = w.progress t ∧ w'.fault t = w.fault t)
    (hfault : ∀ ft va, w'.fault w.k.on = some (ft, va) → ft ≠ .VM_FAULT_READONLY ∧
      ((w'.t_vmspace w.k.on).isSome → w'.progress w.k.on = .loaded))
    (hmono : ∀ x ∈ w.granted, x ∈ w'.granted)
    (hgranted : ∀ as, w'.t_vmspace w.k.on = some as → w'.progress w.k.on = .loaded → (w.k.on, as) ∈ w'.granted) :
    VmInv w' := by
  refine ⟨hk ▸ h.spl, hk ▸ h.sw, hk ▸ h.off, fun _ => hk ▸ hon, fun t => ?_, fun t as ht hl => ?_⟩
  · by_cases ht : t = w.k.on
    · subst ht; exact hfault
    · rw [(hsame t ht).1, (hsame t ht).2.1, (hsame t ht).2.2]
      exact h.faults t
  · by_cases hto : t = w.k.on
    · subst hto; exact hgranted as ht hl
    · rw [(hsame t hto).1] at ht
      rw [(hsame t hto).2.1] at hl
      exact hmono _ (h.granted t as ht hl)

theorem VmInv.own (h : VmInv w) {ch : VmChoice} (hp : w.atProg = true) (hf : w.fault w.k.on = none)
    (hs : w.own w.k.on ch = .ok w') : VmInv w' := by
  have hserves := h.on (settled_of_atProg h.spl hp)
  have hnof : ∀ {p : Prop} {ft va}, w.fault w.k.on = some (ft, va) → p := fun hx => nomatch hf.symm.trans hx
  have hup : ∀ {β : Type} {g : Tid → β} {x : β} {t : Tid}, t ≠ w.k.on → Function.update g w.k.on x t = g t :=
    fun ht => Function.update_of_ne ht ..
  -- nothing has been loaded before `as_prepare_load`
  have hempty : ∀ {as}, w.t_vmspace w.k.on = some as → w.progress w.k.on = .activated → ∀ e, some e ∉ w.tlb := by
    intro as hv hpr
    have := hserves as hv
    simpa only [hpr] using this
  cases ch with
  | create mem =>
    simp only [VmKernel.own] at hs
    split at hs
    · cases hs
    cases hs
    refine h.change rfl (fun as _ => ?_) (fun t ht => ⟨hup ht, hup ht, rfl⟩) (fun _ _ => hnof) (fun _ => id) ?_
    · simp only [Function.update_self]
    · intro as _ hl
      simp only [Function.update_self] at hl
      cases hl
  | activate =>
    simp only [VmKernel.own] at hs
    split at hs
    · cases hs
      refine h.change rfl (serves_of_empty activate_empty) (fun t ht => ⟨rfl, hup ht, rfl⟩) (fun _ _ => hnof)
        (fun _ => id) ?_
      intro as _ hl
      simp only [Function.update_self] at hl
      cases hl
    · cases hs
  | define_region vaddr sz =>
    simp only [VmKernel.own] at hs
    split at hs
    · rename_i as hv hpr
      split at hs
      · cases hs
        refine h.change rfl (serves_of_empty (hempty hv hpr)) (fun t ht => ⟨hup ht, rfl, rfl⟩) (fun _ _ => hnof)
          (fun _ => id) ?_
        intro as _ hl
        cases hpr.symm.trans hl
      · cases hs
        exact h
    · cases hs
  | prepare_load =>
    simp only [VmKernel.own] at hs
    split at hs
    · rename_i as hv hpr
      split at hs
      · cases hs
      · cases hs
        refine h.change rfl (serves_of_empty (hempty hv hpr)) (fun t ht => ⟨hup ht, hup ht, rfl⟩) (fun _ _ => hnof)
          (fun _ => List.mem_cons_of_mem _) ?_
        intro as has _
        simp only [Function.update_self, Option.some.injEq] at has
        subst has
        exact List.mem_cons_self
      · cases hs
        refine h.change rfl (serves_of_empty (hempty hv hpr)) (fun t ht => ⟨hup ht, rfl, rfl⟩) (fun _ _ => hnof)
          (fun _ => id) ?_
        intro as _ hl
        cases hpr.symm.trans hl
    · cases hs
  | access write va =>
    simp only [VmKernel.own] at hs
    split at hs
    · rename_i as hv hpr
      split at hs
      · cases hs
        exact h
      · rename_i hmiss
        cases hs
        refine h.change rfl (fun as' has' => ?_) (fun t ht => ⟨rfl, rfl, hup ht⟩) ?_ (fun _ => id) (h.granted _)
        · have := hserves as' has'
          simp only [hpr] at this ⊢
          refine ⟨this.1, this.2.1, fun ft va' hft => ?_⟩
          simp only [Function.update_self, Option.some.injEq, Prod.mk.injEq] at hft
          exact hft.2 ▸ hmiss
        · intro ft va' hft
          simp only [Function.update_self, Option.some.injEq, Prod.mk.injEq] at hft
          refine ⟨?_, fun _ => hpr⟩
          rw [← hft.1]
          split <;> nofun
    · cases hs
  | _ => cases hs

theorem VmInv.trap (h : VmInv w) {ft : FaultType} {va : Nat} (hp : w.atProg = true)
    (hf : w.fault w.k.on = some (ft, va)) (hs : w.trap w.k.on ft va = .ok w') : VmInv w' := by
  have hserves := h.on (settled_of_atProg h.spl hp)
  unfold VmKernel.trap at hs
  split at hs
  · cases hs
  rename_i r tlb' hrun
  cases hs
  have hnone : ∀ ft va, Function.update w.fault w.k.on none w.k.on = some (ft, va) → False := by
    intro ft va hx
    rw [Function.update_self] at hx
    cases hx
  refine h.change rfl (fun as has => ?_) (fun t ht => ⟨rfl, rfl, Function.update_of_ne ht ..⟩)
    (fun ft va hx => (hnone ft va hx).elim) (fun _ => id) (h.granted _)
  have has : w.t_vmspace w.k.on = some as := has
  obtain ⟨hft, hl⟩ := h.faults _ _ _ hf
  have hl := hl (by rw [has]; rfl)
  rw [has] at hrun
  have hrefill := (vm_fault_spec as 0 hft va w.tlb).post hrun
  have := hserves as has
  simp only [hl] at this ⊢
  exact ⟨hrefill.agrees this.1, hrefill.single (this.2.2 ft va hf) this.2.1, fun ft va hx => (hnone ft va hx).elim⟩

theorem VmInv.thread (h : VmInv w) (hm : Moves w.k ch k es)
    (hsame : w'.k = k ∧ w'.progress = w.progress ∧ w'.fault = w.fault ∧ w'.granted = w.granted)
    (hspace : ∀ t as, w'.t_vmspace t = some as → w.t_vmspace t = some as)
    (hon : ¬ Unsettled (k.stack k.on) → (w'.tlb = as_activate ∨ w'.t_vmspace k.on = none) ∨
      w'.tlb = w.tlb ∧ k.on = w.k.on ∧ ¬ Unsettled (w.k.stack w.k.on)) : VmInv w' := by
  obtain ⟨rfl, hprog, hfault, hgranted⟩ := hsame
  refine ⟨moves_splInv h.spl hm, moves_swInv h.spl h.sw hm, (moves_unsettled h.spl h.off hm).1, fun hns => ?_,
    fun t ft va ht => ?_, fun t as ht hl => ?_⟩
  · rcases hon hns with (htlb | hnone) | ⟨htlb, hsame, hns⟩
    · exact serves_of_empty (htlb ▸ activate_empty)
    · intro as has
      cases hnone.symm.trans has
    · intro as has
      rw [htlb, hprog, hfault, hsame]
      exact h.on hns as (hspace _ as (hsame ▸ has))
  · rw [hfault] at ht
    refine ⟨(h.faults t ft va ht).1, fun hsome => ?_⟩
    obtain ⟨as, has⟩ := Option.isSome_iff_exists.mp hsome
    rw [hprog]
    exact (h.faults t ft va ht).2 (by rw [hspace t as has]; rfl)
  · rw [hgranted]
    exact h.granted t as (hspace t as ht) (hprog ▸ hl)

theorem settled_of_moves (h : VmInv w) (hm : Moves w.k ch k es)
    (hact : ∀ f bs, w.k.stack w.k.on = f :: bs → f.activates = false) (hns : ¬ Unsettled (k.stack k.on)) :
    k.on = w.k.on ∧ ¬ Unsettled (w.k.stack w.k.on) := by
  obtain ⟨hon, hset⟩ := (moves_unsettled h.spl h.off hm).2.resolve_left hns
  refine ⟨hon, fun hu => ?_⟩
  obtain ⟨f, bs, hs, hf⟩ := hset hu
  rw [hact f bs hs] at hf
  cases hf

theorem VmInv.go (h : VmInv w) (hm : Moves w.k ch k es) (hs : w.go k = .ok w') : VmInv w' := by
  have hcur := (moves_swInv h.spl h.sw hm).cur
  unfold VmKernel.go at hs
  split at hs
  · rename_i hnil
    cases hs
    refine h.thread hm ⟨rfl, rfl, rfl, rfl⟩ (fun _ _ => id) fun hns => .inr ⟨rfl, settled_of_moves h hm ?_ hns⟩
    intro f bs hfb
    cases hnil.symm.trans hfb
  rename_i f bs hfb
  split at hs
  · split at hs
    · cases hs
    rename_i t ht
    obtain rfl := hcur t ht
    cases hs
    refine h.thread hm ⟨rfl, rfl, rfl, rfl⟩ (fun _ _ => id) fun _ => .inl ?_
    dsimp only
    split
    · exact .inl rfl
    · rename_i hnone
      exact .inr (Option.not_isSome_iff_eq_none.mp hnone)
  rename_i hact
  have hact : ∀ f bs, w.k.stack w.k.on = f :: bs → f.activates = false := by
    intro g bs hg
    cases hfb.symm.trans hg
    simpa using hact
  split at hs
  · split at hs
    · cases hs
    rename_i t ht
    obtain rfl := hcur t ht
    cases hs
    refine h.thread hm ⟨rfl, rfl, rfl, rfl⟩ (fun t as has => ?_) fun _ => .inl (.inr (Function.update_self ..))
    by_cases hto : t = k.on
    · subst hto
      simp only [Function.update_self] at has
      cases has
    · simpa only [Function.update_of_ne hto] using has
  · cases hs
    exact h.thread hm ⟨rfl, rfl, rfl, rfl⟩ (fun _ _ => id) fun hns => .inr ⟨rfl, settled_of_moves h hm hact hns⟩

theorem VmInv.other (h : VmInv w) (hs : Cpu.step w.k ch = .ok (k, es)) (hgo : ∀ mem, ch ≠ .go mem) :
    VmInv { w with k := k } := by
  refine h.thread (step_moves hs) ⟨rfl, rfl, rfl, rfl⟩ (fun _ _ => id) fun hns => .inr ⟨rfl, ?_⟩
  -- a frame at `prog` or `service` does not activate
  have hact : ∀ f bs, w.k.stack w.k.on = f :: bs → f.code.head? = some .prog ∨ f.code.head? = some .service →
      ∀ f bs, w.k.stack w.k.on = f :: bs → f.activates = false := by
    intro f bs hf hcode g bs' hg
    cases hf.symm.trans hg
    rcases hcode with hcode | hcode <;> simp [Frame.activates, hcode]
  cases ch with
  | go mem => exact absurd rfl (hgo mem)
  | interrupt =>
    simp only [Cpu.step] at hs
    split at hs
    · cases hs
      refine ⟨rfl, fun hu => hns ?_⟩
      show Unsettled (Function.update w.k.stack w.k.on _ w.k.on)
      rw [Function.update_self]
      exact hu.cons
    · cases hs
  | call c =>
    have hm := step_moves hs
    simp only [Cpu.step] at hs
    split at hs
    · cases hs
    rename_i f bs hf
    split at hs
    · rename_i hcode
      exact settled_of_moves h hm (hact f bs hf (hcode.imp And.left And.left)) hns
    · cases hs
  | done =>
    have hm := step_moves hs
    simp only [Cpu.step] at hs
    split at hs
    · cases hs
    rename_i f bs hf
    split at hs
    · rename_i hcode
      exact settled_of_moves h hm (hact f bs hf hcode) hns
    · cases hs

theorem VmInv.atThread (h : VmInv w) {ch : VmChoice} (hp : w.atProg = true) (hcur : w.k.g.curthread = some t)
    (hs : w.atThread t ch = .ok w') : VmInv w' := by
  obtain rfl := h.sw.cur t hcur
  unfold VmKernel.atThread at hs
  split at hs
  · rename_i hf
    exact h.own hp hf hs
  · rename_i ft va hf
    split at hs
    · exact h.trap hp hf hs
    · cases hs

theorem VmInv.step (h : VmInv w) {ch : VmChoice} (hs : w.step ch = .ok (w', es)) : VmInv w' := by
  -- a choice that is neither the thread system's nor for `ram`
  have hown : ∀ {ch : VmChoice}, (if w.atProg then
      match w.k.g.curthread with
      | none => .error .null
      | some t => (w.atThread t ch).map fun w => (w, ([] : List Event))
    else .error .disabled : Except VmStop (VmKernel × List Event)) = .ok (w', es) → VmInv w' := by
    intro ch hs
    split at hs
    · rename_i hp
      split at hs
      · cases hs
      · rename_i t hcur
        cases hr : w.atThread t ch with
        | error p => rw [hr] at hs; cases hs
        | ok w₁ =>
          rw [hr] at hs
          cases hs
          exact h.atThread hp hcur hr
    · cases hs
  cases ch with
  | thread ch =>
    simp only [VmKernel.step] at hs
    split at hs
    · cases hs
    rename_i k es' hk
    split at hs
    · cases hr : w.go k with
      | error p => rw [hr] at hs; cases hs
      | ok w₁ =>
        rw [hr] at hs
        cases hs
        exact h.go (step_moves hk) hr
    · rename_i hgo
      cases hs
      exact h.other hk fun mem hch => hgo mem hch
  | getppages npages =>
    cases hs
    exact { h with }
  | _ => exact hown hs

theorem reach_vmInv {c : Config} {ok : VmKernel → VmChoice → Prop} {tr : List Event}
    (h : (programs c).Reach ok w tr) : VmInv w := by
  refine Machine.Reach.invariant (I := fun w _ => VmInv w) ?_ (fun _ _ _ _ _ _ hw _ hs => hw.step hs) h
  rintro w ⟨-, hk, hv, hf, -⟩
  refine ⟨hk ▸ boot_splInv c, hk ▸ boot_swInv c, ?_, ?_, ?_, ?_⟩
  · rw [hk]
    exact fun t ht => unsettled_firstStack ht
  · intro _ as has
    rw [hv] at has
    cases has
  · intro t ft va ht
    rw [hf] at ht
    cases ht
  · intro t as has
    rw [hv] at has
    cases has

end Serves

/-! ## Isolation -/

def VmKernel.Uses (w : VmKernel) (as : Addrspace) : Prop :=
  w.atProg = true ∧ w.t_vmspace w.k.on = some as ∧ w.progress w.k.on = .loaded

def VmKernel.Apart (w : VmKernel) : Prop := (w.granted.flatMap fun x => x.2.ranges).Pairwise Disjoint

theorem curthread_of_atProg {w : VmKernel} (h : VmInv w) (hp : w.atProg = true) : w.k.g.curthread = some w.k.on := by
  unfold VmKernel.atProg at hp
  split at hp
  · cases hp
  · rename_i f bs hs
    rw [decide_eq_true_eq] at hp
    refine h.sw.curthread h.spl hs ?_
    rcases hp.2 with hf | hf <;> rw [hf] <;> rfl

theorem VmKernel.Apart.disjoint {w : VmKernel} (h : w.Apart) {t t' : Tid} {as as' : Addrspace} {p : Nat}
    (ht : (t, as) ∈ w.granted) (ht' : (t', as') ∈ w.granted) (hne : t' ≠ t) (hp : ∃ r ∈ as.ranges, p ∈ r)
    (hp' : ∃ r ∈ as'.ranges, p ∈ r) : False := by
  obtain ⟨-, h⟩ := List.pairwise_flatMap.mp h
  obtain ⟨r, hr, hp⟩ := hp
  obtain ⟨r', hr', hp'⟩ := hp'
  have hsymm : Std.Symm fun x y : Tid × Addrspace => ∀ r ∈ x.2.ranges, ∀ r' ∈ y.2.ranges, Disjoint r r' :=
    ⟨fun _ _ hxy r hr r' hr' => (hxy r' hr' r hr).symm⟩
  have hd := h.forall ht ht' (fun heq => hne (Prod.mk.inj heq).1.symm) r hr r' hr'
  exact Set.disjoint_left.mp hd hp hp'

/-- A thread in its memory finds only its own pages in the TLB, each once: none of them is a page of
the memory of another thread. -/
theorem tlb_isolation {c : Config} {w : VmKernel} {tr : List Event} {as : Addrspace}
    (h : (programs c).Reach Any w tr) (hapart : w.Apart) (hu : w.Uses as) :
    w.k.g.curthread = some w.k.on ∧
    (∀ e, some e ∈ w.tlb → e.ehi % PAGE_SIZE = 0 ∧ as.Places e.ehi e.elo) ∧ w.tlb.Single ∧
    ∀ t as', t ≠ w.k.on → w.t_vmspace t = some as' → w.progress t = .loaded →
      ∀ e, some e ∈ w.tlb → ∀ va, ¬ as'.Places va e.elo := by
  have hinv := reach_vmInv h
  obtain ⟨hp, hv, hl⟩ := hu
  have hserves := hinv.on (settled_of_atProg hinv.spl hp) as hv
  simp only [hl] at hserves
  obtain ⟨hagrees, hsingle, -⟩ := hserves
  refine ⟨curthread_of_atProg hinv hp, fun e he => ?_, hsingle, fun t as' ht hv' hl' e he va hplace => ?_⟩
  · exact ⟨(hagrees e he).1, places_of_paddr (hagrees e he).2⟩
  · exact hapart.disjoint (hinv.granted _ as hv hl) (hinv.granted t as' hv' hl') ht
      (places_of_paddr (hagrees e he).2).mem_ranges hplace.mem_ranges

def firstStore : List VmChoice :=
  [.create true, .activate, .define_region 0x400000 0x1000, .define_region 0x10000000 0x1000, .prepare_load,
    .access true 0x400000, .vm_fault]

def twoPrograms : List VmChoice :=
  firstStore ++
    ([.call .thread_fork, .go [], .done, .go [], .done, .go [], .go [], .go [], .go [], .go [], .go [],
      .call .thread_yield, .go [], .go [], .go [], .go [], .go []] : List Choice).map .thread ++ firstStore

def firstSpace : Addrspace := ⟨0x400000, 0x30000, 1, 0x10000000, 0x31000, 1, 0x32000⟩
def secondSpace : Addrspace := ⟨0x400000, 0x3e000, 1, 0x10000000, 0x3f000, 1, 0x40000⟩

theorem tlb_isolation_two_programs : ∃ w tr, (programs plainConfig).Reach Any w tr ∧ w.Apart ∧ w.Uses secondSpace ∧
    w.t_vmspace 0 = some firstSpace ∧ w.progress 0 = .loaded ∧ w.tlb.lookup 0x400000 = some 0x3e000 ∧
    w.tlb.Single ∧ ∀ e, some e ∈ w.tlb → secondSpace.Places e.ehi e.elo ∧ ∀ va, ¬ firstSpace.Places va e.elo := by
  obtain ⟨w, tr, hr, hcheck⟩ := Machine.exists_runOk (M := programs plainConfig)
    (s := ⟨boot plainConfig, fun _ => none, fun _ => .kernel, fun _ => none, as_activate, ⟨0x30000, 0x100000⟩, []⟩)
    Any twoPrograms
    (fun x => x.1.atProg && decide (x.1.k.on = 1 ∧ x.1.t_vmspace 1 = some secondSpace ∧ x.1.progress 1 = .loaded ∧
      x.1.t_vmspace 0 = some firstSpace ∧ x.1.progress 0 = .loaded ∧ x.1.granted = [(1, secondSpace), (0, firstSpace)] ∧
      x.1.tlb.lookup 0x400000 = some 0x3e000))
    ⟨plainConfig_counts, rfl, fun _ => rfl, fun _ => rfl, rfl⟩ (by decide +kernel)
  rw [Bool.and_eq_true, decide_eq_true_eq] at hcheck
  obtain ⟨hp, hon, hv, hl, hv', hl', hg, htlb⟩ := hcheck
  dsimp only at hp hon hv hl hv' hl' hg htlb
  have hapart : w.Apart := by
    rw [VmKernel.Apart, hg]
    simp only [List.flatMap_cons, List.flatMap_nil, Addrspace.ranges, secondSpace, firstSpace, List.cons_append,
      List.nil_append, List.append_nil, List.pairwise_cons, List.mem_cons, List.not_mem_nil, or_false,
      forall_eq_or_imp, forall_eq, List.Pairwise.nil, and_true, false_imp_iff, implies_true]
    refine ⟨⟨?_, ?_, ?_, ?_, ?_⟩, ⟨?_, ?_, ?_, ?_⟩, ⟨?_, ?_, ?_⟩, ⟨?_, ?_⟩, ?_⟩
    all_goals first
      | exact physical_disjoint (by decide) (by decide)
      | exact (physical_disjoint (by decide) (by decide)).symm
  have huses : w.Uses secondSpace := ⟨hp, hon.symm ▸ hv, hon.symm ▸ hl⟩
  obtain ⟨-, hplaces, hsingle, hother⟩ := tlb_isolation hr hapart huses
  exact ⟨w, tr, hr, hapart, huses, hv', hl', htlb, hsingle, fun e he =>
    ⟨(hplaces e he).2, hother 0 firstSpace (by rw [hon]; nofun) hv' hl' e he⟩⟩

end Os161.Cpu
