import Os161.Thread.Spl

/-! # The shape of the stacks

Which frames can lie on top of which, and that `curthread` is NULL exactly in the scheduler.
-/

namespace Os161.Cpu

open Machine (Any)

section Shape

variable {f g : Frame} {bs : List Frame}

def Call.handlerish : Call → Bool
  | .mips_interrupt | .V _ | .hardclock | .thread_yield | .mi_switch | .cpu_idle => true
  | _ => false

theorem Above.caller (h : Above f g) (hint : f.call ≠ .mips_interrupt) :
    ∃ i rest, g.code = i :: rest ∧ i.calls f.call = true := by
  unfold Above at h
  rw [if_neg hint] at h
  exact h.1

theorem Above.handlerish (h : Above f g) (hg : Wf g) (hh : g.call.handlerish = true) : f.call.handlerish = true := by
  by_cases hint : f.call = .mips_interrupt
  · rw [hint]; rfl
  obtain ⟨i, rest, hc, hcalls⟩ := h.caller hint
  have hfits := (hg.checked hc).2
  cases i with
  | call c =>
    simp only [Instr.calls, decide_eq_true_eq] at hcalls
    subst hcalls
    rcases hfits with ⟨-, hc'⟩ | ⟨hc', -⟩ | ⟨v, l, hc', -⟩
    · rw [hc']; rfl
    · rw [hc'] at hh; cases hh
    · rw [hc'] at hh; cases hh
  | prog => cases hf : g.call <;> simp_all [Call.handlerish, Instr.fits, Call.kind]
  | service => cases hf : f.call <;> simp_all [Instr.calls, Call.handler, Call.handlerish]
  | loop x =>
    cases x with
    | P s => rw [show g.call = .P s from hfits] at hh; cases hh
    | lock_acquire l => rw [show g.call = .lock_acquire l from hfits] at hh; cases hh
    | clocksleep => obtain ⟨n, hn⟩ := hfits; rw [hn] at hh; cases hh
  | sleep a => obtain ⟨v, l, hv, -⟩ := hfits; rw [hv] at hh; cases hh
  | unzz => obtain ⟨a, ha⟩ := hfits; rw [ha] at hh; cases hh
  | switch | exit_switch | schedule =>
    simp only [Instr.calls, decide_eq_true_eq] at hcalls
    rw [hcalls]; rfl
  | _ => cases hcalls

theorem top_of_below {p : Call → Prop} (hup : ∀ f g, Above f g → Wf g → p g.call → p f.call)
    (hch : (f :: bs).IsChain Above) (hwf : ∀ b ∈ bs, Wf b) (hg : g ∈ bs) (hp : p g.call) : p f.call := by
  induction bs generalizing f with
  | nil => cases hg
  | cons b bs ih =>
    obtain ⟨habove, hch⟩ := List.isChain_cons_cons.mp hch
    refine hup f b habove (hwf b List.mem_cons_self) ?_
    rcases List.mem_cons.mp hg with rfl | hg
    · exact hp
    · exact ih hch (fun c hc => hwf c (List.mem_cons_of_mem _ hc)) hg

theorem not_handlerish_below (hch : (f :: bs).IsChain Above) (hwf : ∀ b ∈ bs, Wf b)
    (hf : f.call.handlerish = false) : ∀ b ∈ bs, b.call.handlerish = false := by
  intro b hb
  by_contra hne
  have := top_of_below (p := fun c => c.handlerish = true) (fun _ _ => Above.handlerish) hch hwf hb
    (by simpa using hne)
  rw [hf] at this
  cases this

end Shape

/-! ## In the scheduler -/

def Frame.switching (f : Frame) : Bool := f.call = .mi_switch ∧ f.code.head? = some .schedule

theorem not_switching_of_call {f : Frame} (h : f.call ≠ .mi_switch) : f.switching = false := by
  simp [Frame.switching, h]

theorem not_switching_tail {f f' : Frame} {i : Instr} {rest : List Instr} (hwf : Wf f) (hc : f.code = i :: rest)
    (hcall : f'.call = f.call) (hcode : f'.code <:+ rest) : f'.switching = false := by
  by_cases hf : f.call = .mi_switch
  · have hsuf := hwf.code
    simp only [hf, hc, body, List.suffix_cons_iff, List.cons.injEq, List.suffix_nil] at hsuf
    have hrest : f'.code.head? ≠ some .schedule := by
      rcases hsuf with ⟨-, rfl⟩ | ⟨-, rfl⟩ | hsuf
      · simp only [List.suffix_cons_iff, List.suffix_nil] at hcode
        rcases hcode with hcode | hcode <;> rw [hcode] <;> simp
      · rw [List.suffix_nil.mp hcode]; simp
      · cases hsuf
    simp [Frame.switching, hrest]
  · exact not_switching_of_call (by rw [hcall]; exact hf)

theorem not_switching_advance {f : Frame} {i : Instr} {rest : List Instr} (hwf : Wf f) (hc : f.code = i :: rest) :
    ({ f with code := rest } : Frame).switching = false :=
  not_switching_tail hwf hc rfl List.suffix_rfl

theorem not_switching_of_head {f : Frame} {i : Instr} {rest : List Instr} (hc : f.code = i :: rest)
    (hi : i ≠ .schedule) : f.switching = false := by
  simp [Frame.switching, hc, hi]

theorem switching_resume {f : Frame} {i : Instr} {rest : List Instr} (hwf : Wf f) (hc : f.code = i :: rest)
    (hcalls : ∃ c, i.calls c = true) : f.resume.switching = f.switching := by
  unfold Frame.resume
  rw [hc]
  dsimp only
  split
  · rfl
  · rename_i hstays
    have hne : i ≠ .schedule := by
      rintro rfl
      exact hstays rfl
    rw [not_switching_of_head hc hne]
    exact not_switching_advance hwf hc

structure SwInv (k : Kernel) : Prop where
  on : (k.stack k.on).countP Frame.switching = if k.g.curthread = none then 1 else 0
  off : ∀ t, t ≠ k.on → (k.stack t).countP Frame.switching = 0
  cur : ∀ t, k.g.curthread = some t → t = k.on

section Steps

variable {k : Kernel} {g : Globals} {fs : List Frame} {ie : Bool}

theorem boot_swInv (c : Config) : SwInv (boot c) := by
  have hfirst : ∀ t, (firstStack t).countP Frame.switching = 0 := by
    intro t
    unfold firstStack
    split <;> rfl
  refine ⟨hfirst 0, fun t _ => hfirst t, ?_⟩
  rintro t ⟨⟩
  rfl

theorem SwInv.goto (h : SwInv k) (hcur : g.curthread = k.g.curthread)
    (hfs : fs.countP Frame.switching = (k.stack k.on).countP Frame.switching) : SwInv ((k.goto g fs).setIe ie) where
  on := by
    show (Function.update k.stack k.on fs k.on).countP _ = if g.curthread = none then 1 else 0
    rw [Function.update_self, hfs, hcur]
    exact h.on
  off t ht := by
    have ht : t ≠ k.on := ht
    show (Function.update k.stack k.on fs t).countP _ = 0
    rw [Function.update_of_ne ht]
    exact h.off t ht
  cur t ht := h.cur t (hcur ▸ ht)

theorem SwInv.enter (h : SwInv k) {cur : Tid} (hcur : k.g.curthread = some cur) (hg : g.curthread = none)
    (hfs : fs.countP Frame.switching = (k.stack k.on).countP Frame.switching + 1) : SwInv (k.goto g fs) where
  on := by
    show (Function.update k.stack k.on fs k.on).countP _ = if g.curthread = none then 1 else 0
    rw [Function.update_self, hfs, hg, h.on, hcur]
    rfl
  off t ht := by
    have ht : t ≠ k.on := ht
    show (Function.update k.stack k.on fs t).countP _ = 0
    rw [Function.update_of_ne ht]
    exact h.off t ht
  cur t ht := by
    rw [show (k.goto g fs).g.curthread = none from hg] at ht
    cases ht

theorem md_switch_stack (k : Kernel) (nu : Tid) : (k.md_switch nu).stack = k.stack := by
  unfold Kernel.md_switch
  split <;> rfl

theorem md_switch_on (k : Kernel) (nu : Tid) : (k.md_switch nu).on = nu := by
  unfold Kernel.md_switch
  split
  · assumption
  · rfl

theorem md_switch_curthread (k : Kernel) (nu : Tid) : (k.md_switch nu).g.curthread = k.g.curthread := by
  unfold Kernel.md_switch
  split <;> rfl

theorem moves_swInv (hsp : SplInv k) (h : SwInv k) {k' : Kernel} {ch : Choice} {es : List Event}
    (hm : Moves k ch k' es) : SwInv k' := by
  -- the frame on top goes on after an instruction that is not the scheduler's
  have hadv : ∀ {f f' : Frame} {bs : List Frame} {i : Instr} {rest : List Instr} {g : Globals} {ie : Bool},
      k.stack k.on = f :: bs → f.code = i :: rest → i ≠ .schedule → g.curthread = k.g.curthread →
      f'.call = f.call → f'.code <:+ rest → SwInv ((k.goto g (f' :: bs)).setIe ie) := by
    intro f f' bs i rest g ie hs hc hi hg hcall hcode
    refine h.goto hg ?_
    rw [hs, List.countP_cons, List.countP_cons, not_switching_tail (hsp.wf_top hs) hc hcall hcode,
      not_switching_of_head hc hi]
  -- a frame on top of the stack as it is
  have hpush : ∀ {n f f' : Frame} {bs : List Frame} {g : Globals}, k.stack k.on = f :: bs →
      f'.switching = f.switching → n.switching = false → g.curthread = k.g.curthread →
      SwInv (k.goto g (n :: f' :: bs)) := by
    intro n f f' bs g hs hf hn hg
    rw [← goto_setIe]
    refine h.goto hg ?_
    rw [hs, List.countP_cons, List.countP_cons, List.countP_cons, hn, hf]
    simp
  cases hm with
  | interrupt hie => exact h.goto rfl (by rw [List.countP_cons]; rfl)
  | ret hs hc =>
    obtain ⟨habove, -⟩ := List.isChain_cons_cons.mp (hsp.chain_top hs)
    obtain ⟨i, rest, hci, hcalls⟩ := habove.caller fun hint => (hsp.wf_top hs).alive hint hc
    rw [← goto_setIe]
    refine h.goto rfl ?_
    rw [hs, List.countP_cons, List.countP_cons, List.countP_cons,
      switching_resume (hsp.wf_below hs _ List.mem_cons_self) hci ⟨_, hcalls⟩]
    simp [Frame.switching, hc]
  | call hs hc hcalls hi =>
    refine hpush hs rfl (not_switching_of_call ?_) rfl
    rw [enter_call]
    rintro rfl
    have hfits := ((hsp.wf_top hs).checked hc).2
    rcases hi with ⟨rfl, -⟩ | rfl | rfl | rfl
    · cases hcalls
    · cases hcalls
    · rcases hfits with ⟨-, hc'⟩ | ⟨-, hc'⟩ | ⟨v, l, -, hc' | hc'⟩ <;> cases hc'
    · cases hcalls
  | skip hs hc hi =>
    rw [← goto_setIe]
    refine hadv hs hc ?_ rfl rfl List.suffix_rfl
    rintro rfl
    simp at hi
  | splhigh hs hc => exact hadv hs hc nofun rfl rfl List.suffix_rfl
  | irq hs hc => exact hadv hs hc nofun rfl rfl List.suffix_rfl
  | setspl hs hc => rw [← goto_setIe]; exact hadv hs hc nofun rfl rfl List.suffix_rfl
  | idle_on hs hc => exact hadv hs hc nofun rfl rfl List.suffix_rfl
  | idle_off hs hc => exact hadv hs hc nofun rfl rfl List.suffix_rfl
  | leave hs hc =>
    refine h.goto rfl ?_
    rw [hs, List.countP_cons, not_switching_of_head hc nofun]
    rfl
  | act hs hc ha =>
    obtain ⟨hcall, -, -, -, hcode, -, hcur⟩ := ha.frame
    rw [← goto_setIe]
    refine hadv hs hc nofun hcur hcall ?_
    rcases hcode with hcode | ⟨hcode, -⟩
    · exact hcode ▸ List.suffix_rfl
    · exact hcode ▸ List.nil_suffix
  | pass hs hc hw hp =>
    rw [← goto_setIe]
    exact hadv hs hc nofun (pass_same hp).2 rfl List.suffix_rfl
  | @sleep f f' bs i rest a cur g' hs hc hi hg =>
    refine h.enter hg.curthread (by rw [hg.same]) ?_
    have hf' : f'.switching = f.switching := by
      rcases hi with ⟨x, -, -, -, rfl⟩ | ⟨-, rfl⟩
      · cases x <;> rfl
      · rfl
    rw [hs, List.countP_cons, List.countP_cons, List.countP_cons, List.countP_cons, hf']
    rfl
  | zz hs hc hg =>
    refine h.enter hg.curthread (by rw [hg.same]) ?_
    rw [hs, List.countP_cons, List.countP_cons, List.countP_cons,
      not_switching_advance (hsp.wf_top hs) hc, not_switching_of_head hc nofun]
    rfl
  | unzz hs hc hcur => rw [← goto_setIe]; exact hadv hs hc nofun rfl rfl List.suffix_rfl
  | switch hs hc hg =>
    refine h.enter hg.curthread (by rw [hg.same]) ?_
    rw [hs, List.countP_cons]
    rfl
  | exit hs hc hg =>
    refine h.enter hg.curthread (by rw [hg.same]) ?_
    rw [hs, List.countP_cons]
    rfl
  | @schedule f bs rest nu g' hs hc hg =>
    have hf : f.call = .mi_switch := ((hsp.wf_top hs).checked hc).2
    have hon := h.on
    have hswitch : f.switching = true := by simp [Frame.switching, hf, hc]
    rw [hs, List.countP_cons, hswitch] at hon
    -- the thread that leaves had one frame in the scheduler
    have hbs : bs.countP Frame.switching = 0 := by
      rw [if_pos rfl] at hon
      split at hon <;> omega
    have hnone : ∀ t, ((k.goto g' ({ f with code := rest } :: bs)).stack t).countP Frame.switching = 0 := by
      intro t
      show (Function.update k.stack k.on ({ f with code := rest } :: bs) t).countP Frame.switching = 0
      by_cases ht : t = k.on
      · subst ht
        rw [Function.update_self, List.countP_cons, not_switching_advance (hsp.wf_top hs) hc]
        exact hbs
      · rw [Function.update_of_ne ht]
        exact h.off t ht
    have hcur : ((k.goto g' ({ f with code := rest } :: bs)).md_switch nu).g.curthread = some nu := by
      rw [md_switch_curthread]
      show g'.curthread = some nu
      rw [hg.same]
    refine ⟨?_, ?_, ?_⟩
    · rw [md_switch_stack, hnone, hcur]
      rfl
    · intro t _
      rw [md_switch_stack]
      exact hnone t
    · intro t ht
      rw [hcur] at ht
      cases ht
      rw [md_switch_on]

end Steps

theorem reach_swInv {c : Config} {ok : Kernel → Choice → Prop} {k : Kernel} {tr : List Event}
    (h : Reach c ok k tr) : SwInv k := by
  refine Machine.Reach.invariant (I := fun k _ => SwInv k) ?_ ?_ h
  · rintro _ ⟨-, rfl⟩
    exact boot_swInv c
  · intro _ _ _ _ _ hr hk _ hs
    exact moves_swInv (reach_splInv hr) hk (step_moves hs)

theorem SwInv.curthread {k : Kernel} {f : Frame} {bs : List Frame} (h : SwInv k) (hsp : SplInv k)
    (hs : k.stack k.on = f :: bs) (hf : f.call.handlerish = false) : k.g.curthread = some k.on := by
  have hbelow := not_handlerish_below (hsp.chain_top hs) (hsp.wf_below hs) hf
  have hnone : (k.stack k.on).countP Frame.switching = 0 := by
    rw [List.countP_eq_zero, hs]
    intro b hb
    have hb : b.call.handlerish = false := by
      rcases List.mem_cons.mp hb with rfl | hb
      · exact hf
      · exact hbelow b hb
    rw [not_switching_of_call (by rintro hc; rw [hc] at hb; cases hb)]
    nofun
  have hon := h.on
  rw [hnone] at hon
  cases hcur : k.g.curthread with
  | none => rw [if_pos hcur] at hon; cases hon
  | some t => rw [h.cur t hcur]

/-! ## Where a frame comes from -/

section Frames

variable {k k' : Kernel} {ch : Choice} {es : List Event} {f f' : Frame}

inductive Fresh (k : Kernel) (ch : Choice) : Frame → Prop where
  | call {f : Frame} {bs : List Frame} {i : Instr} {rest : List Instr} {c : Call} (hs : k.stack k.on = f :: bs)
      (hc : f.code = i :: rest) (hcalls : i.calls c = true)
      (hi : i = .prog ∧ ch = .call c ∨ i = .service ∨ i = .call c ∨ i = .schedule) : Fresh k ch (k.enter c)
  | switch : Fresh k ch (k.enter .mi_switch)
  | asleep (a : Addr) : Fresh k ch (k.asleep a)
  | interrupt {f : Frame} (hcall : f.call = .mips_interrupt) (hcode : f.code = body .mips_interrupt) : Fresh k ch f

inductive Altered (k : Kernel) (f : Frame) : Frame → Prop where
  | next {i : Instr} {rest : List Instr} (hc : f.code = i :: rest) (hi : ∀ a, i ≠ .act a) (spl : Nat) :
      Altered k f { f with code := rest, spl := spl }
  | turn (num_secs : Int) : Altered k f { f with num_secs := num_secs }
  | act {f' : Frame} {a : Act} {rest : List Instr} {g' : Globals} {es : List Event} (hc : f.code = .act a :: rest)
      (ha : ActSpec k.g k.on { f with code := rest } g' f' es a) : Altered k f f'

theorem Loop.turn_altered (x : Loop) : Altered k f (x.turn f) := by
  cases x with
  | P s => exact .turn f.num_secs
  | lock_acquire l => exact .turn f.num_secs
  | clocksleep => exact .turn _

inductive Comes (k : Kernel) (ch : Choice) (x : Frame) : Prop where
  | old (h : x ∈ k.stack k.on)
  | fresh (h : Fresh k ch x)
  | resumed {f c : Frame} {bs : List Frame} (hs : k.stack k.on = f :: c :: bs) (hc : f.code = []) (hx : x = c.resume)
  | altered {f : Frame} {bs : List Frame} (hs : k.stack k.on = f :: bs) (h : Altered k f x)

theorem Comes.below {bs : List Frame} (hs : k.stack k.on = f :: bs) {x : Frame} (hx : x ∈ bs) : Comes k ch x :=
  .old (by rw [hs]; exact List.mem_cons_of_mem _ hx)

theorem Comes.top {bs : List Frame} (hs : k.stack k.on = f :: bs) : Comes k ch f :=
  .old (by rw [hs]; exact List.mem_cons_self)

theorem comes_cons {bs : List Frame} (hs : k.stack k.on = f :: bs) (hf : Comes k ch f') :
    ∀ x ∈ f' :: bs, Comes k ch x := by
  intro x hx
  rcases List.mem_cons.mp hx with rfl | hx
  · exact hf
  · exact .below hs hx

theorem comes_next {bs : List Frame} {i : Instr} {rest : List Instr} (hs : k.stack k.on = f :: bs)
    (hc : f.code = i :: rest) (hi : ∀ a, i ≠ .act a) (spl : Nat) :
    ∀ x ∈ ({ f with code := rest, spl := spl } : Frame) :: bs, Comes k ch x :=
  comes_cons hs (.altered hs (.next hc hi spl))

theorem comes_switch {fs : List Frame} (h : ∀ x ∈ fs, Comes k ch x) :
    ∀ x ∈ k.enter .mi_switch :: fs, Comes k ch x := by
  intro x hx
  rcases List.mem_cons.mp hx with rfl | hx
  · exact .fresh .switch
  · exact h x hx

theorem moves_frames (hm : Moves k ch k' es) {t : Tid} {x : Frame} (hx : x ∈ k'.stack t) :
    x ∈ k.stack t ∨ t = k.on ∧ Comes k ch x := by
  have hstack : ∀ {fs : List Frame}, (∀ x ∈ fs, Comes k ch x) → x ∈ Function.update k.stack k.on fs t →
      x ∈ k.stack t ∨ t = k.on ∧ Comes k ch x := by
    intro fs hfs hx
    by_cases ht : t = k.on
    · subst ht
      rw [Function.update_self] at hx
      exact .inr ⟨rfl, hfs x hx⟩
    · rw [Function.update_of_ne ht] at hx
      exact .inl hx
  cases hm with
  | interrupt hie =>
    refine hstack (fun y hy => ?_) hx
    rcases List.mem_cons.mp hy with rfl | hy
    · exact .fresh (.interrupt rfl rfl)
    · exact .old hy
  | ret hs hc =>
    refine hstack (fun y hy => ?_) hx
    rcases List.mem_cons.mp hy with rfl | hy
    · exact .resumed hs hc rfl
    · exact .below hs (List.mem_cons_of_mem _ hy)
  | call hs hc hcalls hi =>
    refine hstack (fun y hy => ?_) hx
    rcases List.mem_cons.mp hy with rfl | hy
    · exact .fresh (.call hs hc hcalls hi)
    · exact .old (by rw [hs]; exact hy)
  | skip hs hc hi =>
    refine hstack (comes_next hs hc ?_ _) hx
    rintro a rfl
    simp at hi
  | splhigh hs hc | irq hs hc | setspl hs hc | idle_on hs hc | idle_off hs hc | unzz hs hc hcur =>
    exact hstack (comes_next hs hc (by simp) _) hx
  | leave hs hc => exact hstack (fun y hy => .below hs hy) hx
  | act hs hc ha => exact hstack (comes_cons hs (.altered hs (.act hc ha))) hx
  | pass hs hc hw hp => exact hstack (comes_next hs hc (by simp) _) hx
  | @sleep f f' bs i rest a cur g' hs hc hi hg =>
    refine hstack (comes_switch fun y hy => ?_) hx
    rcases List.mem_cons.mp hy with rfl | hy
    · exact .fresh (.asleep a)
    · refine comes_cons hs ?_ y hy
      rcases hi with ⟨x, -, -, -, rfl⟩ | ⟨-, rfl⟩
      · exact .altered hs x.turn_altered
      · exact .top hs
  | zz hs hc hg => exact hstack (comes_switch (comes_next hs hc (by simp) _)) hx
  | switch hs hc hg => exact hstack (comes_switch (comes_cons hs (.top hs))) hx
  | exit hs hc hg => exact hstack (comes_switch (comes_cons hs (.top hs))) hx
  | schedule hs hc hg =>
    rw [md_switch_stack] at hx
    exact hstack (comes_next hs hc (by simp) _) hx

end Frames

end Os161.Cpu
