import Mathlib.Data.List.Chain
import Os161.Thread.Moves

/-! # Interrupt levels

Which values `curspl` and the status register can have at each instruction of each function, for the
frame that runs and for all the frames that wait below it.
-/

namespace Os161.Cpu

open Machine (Any)

/-! ## Modes of the code -/

inductive Kind where
  | bracket | plain | loose
  deriving DecidableEq, Repr

def Call.kind : Call → Kind
  | .thread_sleep _ | .thread_wakeup _ | .thread_wakeup_one _ | .mi_switch | .cpu_idle | .hardclock => .plain
  | .thread_fork | .thread_exit | .spl0 | .splhigh | .mi_threadstart | .boot => .loose
  | _ => .bracket

/-- `low`: as at the call. `hot`: raised. `win`: the status register is put back and `curspl` is not.
`idle`: in `interrupts_onoff`. `free`: the two agree. `half`: the status register is set. -/
inductive Mode where
  | low | hot | win | idle | free | half
  deriving DecidableEq, Repr

def modeOf (c : Call) (code : List Instr) : Mode :=
  match c.kind, code with
  | .loose, .setspl :: _ => .half
  | .loose, _ => .free
  | .plain, .idle_off :: _ => .idle
  | .plain, _ => .low
  | .bracket, [] => .low
  | .bracket, .nonint :: _ => .low
  | .bracket, .splhigh :: _ => .low
  | .bracket, .setspl :: _ => .win
  | .bracket, _ => .hot

def Mode.Ok (callspl spl curspl : Nat) (ie : Bool) : Mode → Prop
  | .low => curspl = callspl ∧ ie = decide (callspl = 0)
  | .hot => curspl = SPL_HIGH ∧ ie = false ∧ spl = callspl
  | .win => curspl = SPL_HIGH ∧ ie = decide (spl = 0) ∧ spl = callspl
  | .idle => curspl = callspl ∧ ie = true
  | .free => ie = decide (curspl = 0)
  | .half => ie = decide (spl = 0)

def Instr.shift : Instr → Mode → Mode
  | .splhigh, .low => .hot
  | .irq, .hot => .win
  | .irq, .free => .half
  | .setspl, .win => .low
  | .setspl, .half => .free
  | .idle_on, .low => .idle
  | .idle_off, .idle => .low
  | _, m => m

def Act.home : Act → Call
  | .V_post s => .V s
  | .lock_drop l => .lock_release l
  | .lock_read l => .lock_do_i_hold l
  | .cv_check c l => .cv_wait c l
  | .cv_wake_one c l => .cv_signal c l
  | .cv_wake c l => .cv_broadcast c l
  | .wakeup a => .thread_wakeup a
  | .wakeup_one a => .thread_wakeup_one a
  | .exorcise => .mi_switch
  | .read_numthreads => .one_thread_only
  | .tick => .hardclock
  | .fork_create | .fork_incref | .fork_link | .fork_return | .fork_fail => .thread_fork
  | .exit_cwd => .thread_exit

def Instr.fits (c : Call) : Instr → Prop
  | .nonint => c.kind = .bracket
  | .loop (.P s) => c = .P s
  | .loop (.lock_acquire l) => c = .lock_acquire l
  | .loop .clocksleep => ∃ n, c = .clocksleep n
  | .sleep a => ∃ v l, c = .cv_wait v l ∧ a = .cv v
  | .act a => c = a.home
  | .switch => c = .thread_yield
  | .service | .leave => c = .mips_interrupt
  | .zz a => c = .thread_sleep a
  | .unzz => ∃ a, c = .thread_sleep a
  | .schedule => c = .mi_switch
  | .idle_on | .idle_off => c = .cpu_idle
  | .prog => c.kind = .loose
  | .exit_switch | .dead => c = .thread_exit
  | .call c' => c = .hardclock ∧ c' = .thread_yield ∨ c = .mi_threadstart ∧ c' = .thread_exit ∨
      ∃ v l, c = .cv_wait v l ∧ (c' = .lock_release l ∨ c' = .lock_acquire l)
  | .splhigh | .irq | .setspl => c.kind ≠ .plain

def Checked (c : Call) : List Instr → Prop
  | [] => True
  | i :: rest => (i ≠ .leave → modeOf c rest = i.shift (modeOf c (i :: rest))) ∧ i.fits c ∧ Checked c rest

theorem body_checked (c : Call) : Checked c (body c) := by
  cases c <;> simp [Checked, body, Instr.fits, modeOf, Call.kind, Instr.shift, Act.home]

theorem checked_of_suffix {c : Call} {l l' : List Instr} (hs : l <:+ l') (h : Checked c l') : Checked c l := by
  induction l' with
  | nil => rw [List.suffix_nil.mp hs]; trivial
  | cons i l' ih =>
    rcases List.suffix_cons_iff.mp hs with rfl | hs
    · exact h
    · exact ih hs h.2.2

theorem calls_loose {c c' : Call} {i : Instr} (hfits : i.fits c) (hcalls : i.calls c' = true)
    (hl : c'.kind = .loose) : c.kind = .loose := by
  cases i with
  | call c'' =>
    simp only [Instr.calls, decide_eq_true_eq] at hcalls
    subst hcalls
    rcases hfits with ⟨-, rfl⟩ | ⟨rfl, -⟩ | ⟨v, l, -, rfl | rfl⟩
    · cases hl
    · rfl
    · cases hl
    · cases hl
  | prog => exact hfits
  | service => cases c' <;> simp_all [Instr.calls, Call.handler, Call.kind]
  | loop x | sleep a | unzz | switch | exit_switch | schedule =>
    simp only [Instr.calls, decide_eq_true_eq] at hcalls
    subst hcalls
    cases hl
  | _ => cases hcalls

/-! ## Frames -/

def Level (n : Nat) : Prop := n = 0 ∨ n = SPL_HIGH

def Call.deep : Call → Bool
  | .mi_switch | .cpu_idle | .hardclock => true
  | _ => false

structure Wf (f : Frame) : Prop where
  code : f.code <:+ body f.call
  callspl : Level f.callspl
  spl : Level f.spl
  deep : f.call.deep = true → f.callspl = SPL_HIGH
  alive : f.call = .mips_interrupt → f.code ≠ []

def Ready (f : Frame) (curspl : Nat) (ie : Bool) : Prop :=
  (modeOf f.call f.code).Ok f.callspl f.spl curspl ie

def Above (f g : Frame) : Prop :=
  if f.call = .mips_interrupt then Ready g f.callspl true
  else (∃ i rest, g.code = i :: rest ∧ i.calls f.call = true) ∧
    (f.call.kind = .loose → g.call.kind = .loose) ∧
    (f.call.kind ≠ .loose → Ready g f.callspl (decide (f.callspl = 0)))

section Frames

variable {f f' g : Frame} {i : Instr} {rest : List Instr} {c : Call} {s : Nat} {ie : Bool} {bs : List Frame}

theorem Wf.checked (h : Wf f) (hc : f.code = i :: rest) :
    (i ≠ .leave → modeOf f.call rest = i.shift (modeOf f.call (i :: rest))) ∧ i.fits f.call := by
  have hcode := checked_of_suffix h.code (body_checked f.call)
  rw [hc] at hcode
  exact ⟨hcode.1, hcode.2.1⟩

theorem Wf.advance (h : Wf f) (hcall : f'.call = f.call) (hspl : f'.callspl = f.callspl) (hl : Level f'.spl)
    (hcode : f'.code <:+ f.code) (ha : f.call = .mips_interrupt → f'.code ≠ []) : Wf f' where
  code := by rw [hcall]; exact hcode.trans h.code
  callspl := by rw [hspl]; exact h.callspl
  spl := hl
  deep := by rw [hcall, hspl]; exact h.deep
  alive := by rw [hcall]; exact ha

theorem Above.congr (h : Above f g) (hcall : f'.call = f.call) (hspl : f'.callspl = f.callspl) :
    Above f' g := by
  unfold Above at h ⊢
  rwa [hcall, hspl]

theorem chain_congr (h : (f :: bs).IsChain Above) (hcall : f'.call = f.call) (hspl : f'.callspl = f.callspl) :
    (f' :: bs).IsChain Above := by
  cases bs with
  | nil => exact .singleton _
  | cons g bs =>
    rw [List.isChain_cons_cons] at h ⊢
    exact ⟨h.1.congr hcall hspl, h.2⟩

theorem Ready.sync (hc : f.code = i :: rest) (hcalls : i.calls c = true) (h : Ready f s ie) :
    ie = decide (s = 0) := by
  unfold Ready at h
  rw [hc] at h
  have hm : modeOf f.call (i :: rest) = .low ∨ modeOf f.call (i :: rest) = .hot ∨
      modeOf f.call (i :: rest) = .free := by
    unfold modeOf
    cases hk : f.call.kind <;> cases i <;> simp_all [Instr.calls]
  rcases hm with hm | hm | hm <;> rw [hm] at h <;> simp_all [Mode.Ok]

theorem Ready.resume (hwf : Wf f) (hc : f.code = i :: rest) (hcalls : i.calls c = true) (h : Ready f s ie) :
    Ready f.resume s ie := by
  obtain ⟨hshift, -⟩ := hwf.checked hc
  unfold Frame.resume
  rw [hc]
  dsimp only
  split
  · exact h
  · rename_i hstays
    unfold Ready at h ⊢
    rw [hc] at h
    dsimp only
    have : modeOf f.call rest = modeOf f.call (i :: rest) := by
      rw [hshift (by rintro rfl; simp [Instr.calls] at hcalls)]
      cases i <;> simp_all [Instr.calls, Instr.shift]
    rwa [this]

theorem Wf.resume (hwf : Wf f) (hc : f.code = i :: rest) (hcalls : i.calls c = true) : Wf f.resume := by
  unfold Frame.resume
  rw [hc]
  dsimp only
  split
  · exact hwf
  · rename_i hstays
    refine hwf.advance rfl rfl hwf.spl (by rw [hc]; exact List.suffix_cons i rest) ?_
    intro hint
    have hcode := hwf.code
    simp only [hint, hc, body, List.suffix_cons_iff, List.cons.injEq, List.suffix_nil] at hcode
    rcases hcode with ⟨rfl, -⟩ | ⟨rfl, -⟩ | hcode
    · exact absurd rfl hstays
    · cases hcalls
    · cases hcode

theorem Above.of_call (hwf : Wf g) (hc : g.code = i :: rest) (hcalls : i.calls f.call = true)
    (hr : Ready g f.callspl ie) : Above f g := by
  have hfits := (hwf.checked hc).2
  have hint : f.call ≠ .mips_interrupt := by
    intro hf
    rw [hf] at hcalls
    cases i with
    | call c =>
      simp only [Instr.calls, decide_eq_true_eq] at hcalls
      subst hcalls
      rcases hfits with ⟨-, hc'⟩ | ⟨-, hc'⟩ | ⟨v, l, -, hc' | hc'⟩ <;> cases hc'
    | _ => cases hcalls
  unfold Above
  rw [if_neg hint]
  refine ⟨⟨i, rest, hc, hcalls⟩, ?_, ?_⟩
  · exact calls_loose hfits hcalls
  · intro _
    rwa [← hr.sync hc hcalls]

end Frames

theorem ActSpec.frame {g g' : Globals} {t : Tid} {f f' : Frame} {es : List Event} {a : Act}
    (h : ActSpec g t f g' f' es a) :
    f'.call = f.call ∧ f'.callspl = f.callspl ∧ f'.spl = f.spl ∧ f'.start = f.start ∧
      (f'.code = f.code ∨ f'.code = [] ∧ a.home = .thread_fork) ∧
      g'.curspl = g.curspl ∧ g'.curthread = g.curthread := by
  have hwoke : ∀ {x : Addr} {g₀ : Globals}, Woke x g₀ g' → g₀.curspl = g.curspl → g₀.curthread = g.curthread →
      g'.curspl = g.curspl ∧ g'.curthread = g.curthread := by
    intro x g₀ hw h₁ h₂
    rw [hw.same]
    exact ⟨h₁, h₂⟩
  cases a with
  | V_post s => obtain ⟨-, -, hw, rfl, -⟩ := h; exact ⟨rfl, rfl, rfl, rfl, .inl rfl, hwoke hw rfl rfl⟩
  | lock_drop l => obtain ⟨-, -, -, hw, rfl, -⟩ := h; exact ⟨rfl, rfl, rfl, rfl, .inl rfl, hwoke hw rfl rfl⟩
  | lock_read l => obtain ⟨rfl, rfl, -⟩ := h; exact ⟨rfl, rfl, rfl, rfl, .inl rfl, rfl, rfl⟩
  | cv_check c l => obtain ⟨-, -, rfl, rfl, -⟩ := h; exact ⟨rfl, rfl, rfl, rfl, .inl rfl, rfl, rfl⟩
  | cv_wake_one c l =>
    obtain ⟨-, -, -, hw, rfl, -⟩ := h
    exact ⟨rfl, rfl, rfl, rfl, .inl rfl, by rw [hw.same], by rw [hw.same]⟩
  | cv_wake c l => obtain ⟨-, -, -, hw, rfl, -⟩ := h; exact ⟨rfl, rfl, rfl, rfl, .inl rfl, hwoke hw rfl rfl⟩
  | wakeup x => obtain ⟨-, hw, rfl, -⟩ := h; exact ⟨rfl, rfl, rfl, rfl, .inl rfl, hwoke hw rfl rfl⟩
  | wakeup_one x =>
    obtain ⟨-, hw, rfl, -⟩ := h
    exact ⟨rfl, rfl, rfl, rfl, .inl rfl, by rw [hw.same], by rw [hw.same]⟩
  | exorcise =>
    obtain ⟨-, hg, -, -, rfl, -⟩ := h
    exact ⟨rfl, rfl, rfl, rfl, .inl rfl, by rw [hg], by rw [hg]⟩
  | read_numthreads => obtain ⟨rfl, rfl, -⟩ := h; exact ⟨rfl, rfl, rfl, rfl, .inl rfl, rfl, rfl⟩
  | tick =>
    obtain ⟨hg, rfl, -⟩ := h
    refine ⟨rfl, rfl, rfl, rfl, .inl rfl, ?_⟩
    obtain ⟨n, rfl⟩ | ⟨-, hw⟩ := hg
    · exact ⟨rfl, rfl⟩
    · exact hwoke hw rfl rfl
  | fork_create =>
    obtain ⟨rfl, rfl | ⟨e, rfl⟩, -⟩ := h
    · exact ⟨rfl, rfl, rfl, rfl, .inl rfl, rfl, rfl⟩
    · exact ⟨rfl, rfl, rfl, rfl, .inr ⟨rfl, rfl⟩, rfl, rfl⟩
  | fork_incref =>
    obtain ⟨⟨cur, -, ⟨-, rfl, rfl⟩ | ⟨v, -, rfl, rfl⟩⟩, -⟩ := h <;>
      exact ⟨rfl, rfl, rfl, rfl, .inl rfl, rfl, rfl⟩
  | fork_link =>
    obtain ⟨hl, rfl, -⟩ | ⟨hg, ⟨e, rfl⟩, -⟩ := h
    · exact ⟨rfl, rfl, rfl, rfl, .inl rfl, by rw [hl.same], by rw [hl.same]⟩
    · exact ⟨rfl, rfl, rfl, rfl, .inl rfl, by rw [hg.same], by rw [hg.same]⟩
  | fork_return =>
    obtain ⟨rfl, rfl, -⟩ := h
    split
    · exact ⟨rfl, rfl, rfl, rfl, .inr ⟨rfl, rfl⟩, rfl, rfl⟩
    · exact ⟨rfl, rfl, rfl, rfl, .inl rfl, rfl, rfl⟩
  | fork_fail =>
    obtain ⟨⟨-, rfl, rfl⟩ | ⟨v, -, -, rfl, rfl⟩, -⟩ := h <;> exact ⟨rfl, rfl, rfl, rfl, .inl rfl, rfl, rfl⟩
  | exit_cwd =>
    obtain ⟨⟨cur, -, rfl | ⟨v, -, rfl⟩⟩, rfl, -⟩ := h <;> exact ⟨rfl, rfl, rfl, rfl, .inl rfl, rfl, rfl⟩

theorem pass_spec {g g' : Globals} {mem mem' : Heap} {x : Loop} {u : PUnit}
    (h : x.pass (g, mem) = .ok (.ok u, (g', mem'))) :
    match x with
    | .P s => 0 < g.count s ∧ g' = set_count s (g.count s - 1) g
    | .lock_acquire l => g.lock l = ⟨0, none⟩ ∧ g' = set_lock l ⟨1, g.curthread⟩ g
    | .clocksleep => g' = g := by
  cases x with
  | P s =>
    simp only [Loop.pass, P_take, Prog.bind_eq_ok, assert_eq_ok, change_eq_ok] at h
    obtain ⟨_, _, ⟨hpos, rfl⟩, heq⟩ := h
    cases heq
    exact ⟨hpos, rfl⟩
  | lock_acquire l =>
    simp only [Loop.pass, lock_take, Prog.bind_eq_ok, assert_eq_ok, change_eq_ok] at h
    obtain ⟨_, _, ⟨hl, rfl⟩, _, _, ⟨ho, rfl⟩, heq⟩ := h
    cases heq
    refine ⟨?_, rfl⟩
    rw [← hl, ← ho]
  | clocksleep =>
    simp only [Loop.pass, Prog.pure_eq_ok] at h
    cases h.2
    exact rfl

theorem pass_same {g g' : Globals} {mem mem' : Heap} {x : Loop} {u : PUnit}
    (h : x.pass (g, mem) = .ok (.ok u, (g', mem'))) : g'.curspl = g.curspl ∧ g'.curthread = g.curthread := by
  have hp := pass_spec h
  cases x with
  | P s => rw [hp.2]; exact ⟨rfl, rfl⟩
  | lock_acquire l => rw [hp.2]; exact ⟨rfl, rfl⟩
  | clocksleep => rw [show g' = g from hp]; exact ⟨rfl, rfl⟩

/-! ## All stacks -/

structure SplInv (k : Kernel) : Prop where
  level : Level k.g.curspl
  wf : ∀ t, ∀ f ∈ k.stack t, Wf f
  chain : ∀ t, (k.stack t).IsChain Above
  top : ∀ f ∈ (k.stack k.on).head?, Ready f k.g.curspl k.ie
  out : ∀ t, t ≠ k.on → ∀ f ∈ (k.stack t).head?, Ready f SPL_HIGH false

section Steps

variable {k : Kernel} {f f' n : Frame} {bs fs : List Frame} {i : Instr} {rest : List Instr} {g : Globals} {ie : Bool}

theorem boot_splInv (c : Config) : SplInv (boot c) := by
  have hwf : ∀ t, ∀ f ∈ firstStack t, Wf f ∧ f.call.kind = .loose ∧ f.code ≠ [] ∧ f.code = body f.call := by
    intro t f hf
    unfold firstStack at hf
    split at hf <;> rw [List.mem_singleton] at hf <;> subst hf <;>
      exact ⟨⟨List.suffix_rfl, .inr rfl, .inl rfl, nofun, nofun⟩, rfl, nofun, rfl⟩
  have hready : ∀ t, ∀ f ∈ (firstStack t).head?, Ready f SPL_HIGH false := by
    intro t f hf
    unfold firstStack at hf
    split at hf <;> cases hf <;> rfl
  refine ⟨.inr rfl, fun t f hf => (hwf t f hf).1, ?_, hready 0, fun t _ => hready t⟩
  intro t
  show (firstStack t).IsChain Above
  unfold firstStack
  split <;> exact .singleton _

theorem SplInv.goto (h : SplInv k) (hl : Level g.curspl) (hwf : ∀ f ∈ fs, Wf f) (hch : fs.IsChain Above)
    (htop : ∀ f ∈ fs.head?, Ready f g.curspl ie) : SplInv ((k.goto g fs).setIe ie) where
  level := hl
  wf t f hf := by
    by_cases ht : t = k.on
    · subst ht
      exact hwf f (by simpa [Kernel.goto, Kernel.setIe] using hf)
    · exact h.wf t f (by simpa [Kernel.goto, Kernel.setIe, ht] using hf)
  chain t := by
    by_cases ht : t = k.on
    · subst ht
      simpa [Kernel.goto, Kernel.setIe] using hch
    · simpa [Kernel.goto, Kernel.setIe, ht] using h.chain t
  top f hf := htop f (by simpa [Kernel.goto, Kernel.setIe] using hf)
  out t ht f hf := by
    have ht : t ≠ k.on := ht
    exact h.out t ht f (by simpa [Kernel.goto, Kernel.setIe, ht] using hf)

theorem SplInv.wf_top (h : SplInv k) (hs : k.stack k.on = f :: bs) : Wf f :=
  h.wf k.on f (by rw [hs]; exact List.mem_cons_self)

theorem SplInv.ready_top (h : SplInv k) (hs : k.stack k.on = f :: bs) : Ready f k.g.curspl k.ie :=
  h.top f (by rw [hs]; rfl)

theorem SplInv.chain_top (h : SplInv k) (hs : k.stack k.on = f :: bs) : (f :: bs).IsChain Above := by
  have := h.chain k.on
  rwa [hs] at this

theorem SplInv.wf_below (h : SplInv k) (hs : k.stack k.on = f :: bs) : ∀ b ∈ bs, Wf b :=
  fun b hb => h.wf k.on b (by rw [hs]; exact List.mem_cons_of_mem _ hb)

theorem SplInv.replace (h : SplInv k) (hs : k.stack k.on = f :: bs) (hl : Level g.curspl)
    (hcall : f'.call = f.call) (hcallspl : f'.callspl = f.callspl) (hspl : Level f'.spl)
    (hcode : f'.code <:+ f.code) (ha : f.call = .mips_interrupt → f'.code ≠ [])
    (hr : Ready f' g.curspl ie) : SplInv ((k.goto g (f' :: bs)).setIe ie) := by
  refine h.goto hl ?_ (chain_congr (h.chain_top hs) hcall hcallspl) (by rintro _ ⟨⟩; exact hr)
  intro b hb
  rcases List.mem_cons.mp hb with rfl | hb
  · exact (h.wf_top hs).advance hcall hcallspl hspl hcode ha
  · exact h.wf_below hs b hb

theorem SplInv.push (h : SplInv k) (hs : k.stack k.on = f :: bs) (hl : Level g.curspl)
    (hf : f'.call = f.call ∧ f'.callspl = f.callspl) (hwf' : Wf f') (hn : Wf n)
    (habove : Above n f') (hr : Ready n g.curspl ie) : SplInv ((k.goto g (n :: f' :: bs)).setIe ie) := by
  refine h.goto hl ?_ (List.isChain_cons_cons.mpr ⟨habove, chain_congr (h.chain_top hs) hf.1 hf.2⟩)
    (by rintro _ ⟨⟩; exact hr)
  intro b hb
  rcases List.mem_cons.mp hb with rfl | hb
  · exact hn
  rcases List.mem_cons.mp hb with rfl | hb
  · exact hwf'
  · exact h.wf_below hs b hb

theorem SplInv.advance (h : SplInv k) (hs : k.stack k.on = f :: bs) (hc : f.code = i :: rest) (hi : i ≠ .leave)
    (hl : Level g.curspl) (hcall : f'.call = f.call) (hcallspl : f'.callspl = f.callspl) (hspl : Level f'.spl)
    (hcode : f'.code = rest)
    (hr : (modeOf f.call (i :: rest)).Ok f.callspl f.spl k.g.curspl k.ie →
      (i.shift (modeOf f.call (i :: rest))).Ok f.callspl f'.spl g.curspl ie) :
    SplInv ((k.goto g (f' :: bs)).setIe ie) := by
  have hwf := h.wf_top hs
  have hready := h.ready_top hs
  unfold Ready at hready
  rw [hc] at hready
  refine h.replace hs hl hcall hcallspl hspl (by rw [hcode, hc]; exact List.suffix_cons i rest) ?_ ?_
  · intro hint
    have hsuf := hwf.code
    simp only [hint, hc, body, List.suffix_cons_iff, List.cons.injEq, List.suffix_nil] at hsuf
    rcases hsuf with ⟨-, rfl⟩ | ⟨rfl, -⟩ | hsuf
    · rw [hcode]; nofun
    · exact absurd rfl hi
    · cases hsuf
  · unfold Ready
    rw [hcall, hcallspl, hcode, (hwf.checked hc).1 hi]
    exact hr hready

theorem goto_setIe (k : Kernel) (g : Globals) (fs : List Frame) : (k.goto g fs).setIe k.ie = k.goto g fs := rfl

theorem modeOf_body {c : Call} (hc : c ≠ .mips_interrupt) : modeOf c (body c) = .low ∨ modeOf c (body c) = .free := by
  cases c <;> first | exact absurd rfl hc | exact .inl rfl | exact .inr rfl

@[simp] theorem enter_call (k : Kernel) (c : Call) : (k.enter c).call = c := by cases c <;> rfl
@[simp] theorem enter_code (k : Kernel) (c : Call) : (k.enter c).code = body c := by cases c <;> rfl
@[simp] theorem enter_callspl (k : Kernel) (c : Call) : (k.enter c).callspl = k.g.curspl := by cases c <;> rfl
@[simp] theorem enter_start (k : Kernel) (c : Call) : (k.enter c).start = k.now := by cases c <;> rfl
@[simp] theorem enter_spl (k : Kernel) (c : Call) : (k.enter c).spl = 0 := by cases c <;> rfl

theorem SplInv.wf_enter (h : SplInv k) {c : Call} (hd : c.deep = true → k.g.curspl = SPL_HIGH)
    (hint : c ≠ .mips_interrupt) : Wf (k.enter c) where
  code := by simp
  callspl := by rw [enter_callspl]; exact h.level
  spl := by rw [enter_spl]; exact .inl rfl
  deep := by rw [enter_call, enter_callspl]; exact hd
  alive := by rw [enter_call]; exact fun hc => absurd hc hint

theorem ready_enter {c : Call} (hint : c ≠ .mips_interrupt) (hie : ie = decide (k.g.curspl = 0)) :
    Ready (k.enter c) k.g.curspl ie := by
  unfold Ready
  rw [enter_call, enter_code, enter_callspl, enter_spl]
  rcases modeOf_body hint with hm | hm <;> rw [hm]
  · exact ⟨rfl, hie⟩
  · exact hie

theorem level_pos {n : Nat} (hl : Level n) (hn : 0 < n) : n = SPL_HIGH := by
  rcases hl with rfl | hl
  · omega
  · exact hl

theorem Ready.hot (hm : modeOf f.call f.code = .hot) {s : Nat} (h : Ready f s ie) :
    s = SPL_HIGH ∧ ie = false ∧ f.spl = f.callspl := by
  unfold Ready at h
  rwa [hm] at h

theorem modeOf_hot {c : Call} (hk : c.kind = .bracket) (h1 : i ≠ .nonint) (h2 : i ≠ .splhigh) (h3 : i ≠ .setspl) :
    modeOf c (i :: rest) = .hot := by
  unfold modeOf
  rw [hk]
  cases i <;> simp_all

theorem modeOf_loose {c : Call} {code : List Instr} (hk : c.kind = .loose) (h : code.head? ≠ some .setspl) :
    modeOf c code = .free := by
  unfold modeOf
  rw [hk]
  cases code with
  | nil => rfl
  | cons i rest => cases i <;> simp_all

theorem SplInv.push_switch (h : SplInv k) (hs : k.stack k.on = f :: bs) (hg : g.curspl = k.g.curspl)
    (hspl : k.g.curspl = SPL_HIGH) (hie : k.ie = false) (hf : f'.call = f.call ∧ f'.callspl = f.callspl)
    (hwf' : Wf f') (hc : f'.code = i :: rest) (hcalls : i.calls .mi_switch = true)
    (hr : Ready f' SPL_HIGH false) : SplInv (k.goto g (k.enter .mi_switch :: f' :: bs)) := by
  rw [← goto_setIe]
  refine h.push hs (by rw [hg]; exact h.level) hf hwf' (h.wf_enter (fun _ => hspl) nofun) ?_ ?_
  · have hr' : Ready f' (k.enter .mi_switch).callspl false := by rwa [enter_callspl, hspl]
    exact .of_call hwf' hc (by simpa using hcalls) hr'
  · rw [hg]
    exact ready_enter nofun (by rw [hie, hspl]; rfl)

theorem interrupted_splInv (h : SplInv k) (hie : k.ie = true) : SplInv k.interrupted := by
  refine h.goto (.inr rfl) ?_ ?_ (by rintro _ ⟨⟩; exact ⟨rfl, rfl, rfl⟩)
  · intro b hb
    rcases List.mem_cons.mp hb with rfl | hb
    · exact ⟨List.suffix_rfl, h.level, h.level, nofun, nofun⟩
    · exact h.wf _ b hb
  · cases hs : k.stack k.on with
    | nil => exact .singleton _
    | cons b bs =>
      refine List.isChain_cons_cons.mpr ⟨?_, h.chain_top hs⟩
      unfold Above
      rw [if_pos rfl, ← hie]
      exact h.ready_top hs

theorem ret_splInv (h : SplInv k) {c : Frame} (hs : k.stack k.on = f :: c :: bs) (hc : f.code = []) :
    SplInv (k.goto k.g (c.resume :: bs)) := by
  have hch := h.chain_top hs
  rw [List.isChain_cons_cons] at hch
  obtain ⟨habove, hch⟩ := hch
  have hwc : Wf c := h.wf_below hs c List.mem_cons_self
  have hready := h.ready_top hs
  unfold Above at habove
  rw [if_neg fun hint => (h.wf_top hs).alive hint hc] at habove
  obtain ⟨⟨i, rest, hci, hcalls⟩, hloose, hrest⟩ := habove
  have hr : Ready c k.g.curspl k.ie := by
    unfold Ready at hready
    rw [hc] at hready
    by_cases hk : f.call.kind = .loose
    · -- nothing is known of the level but that the status register agrees with it
      rw [modeOf_loose hk (by simp)] at hready
      unfold Ready
      rw [modeOf_loose (hloose hk) (by rw [hci]; rintro ⟨⟩; cases hcalls)]
      exact hready
    · have hlow : modeOf f.call [] = .low := by
        unfold modeOf
        cases hk' : f.call.kind <;> simp_all
      rw [hlow] at hready
      rw [hready.1, hready.2]
      exact hrest hk
  have hcr : c.resume.call = c.call ∧ c.resume.callspl = c.callspl := by
    unfold Frame.resume
    split
    · exact ⟨rfl, rfl⟩
    · split <;> exact ⟨rfl, rfl⟩
  rw [← goto_setIe]
  refine h.goto h.level ?_ (chain_congr hch hcr.1 hcr.2)
    (by rintro _ ⟨⟩; exact hr.resume hwc hci hcalls)
  intro b hb
  rcases List.mem_cons.mp hb with rfl | hb
  · exact hwc.resume hci hcalls
  · exact h.wf_below hs b (List.mem_cons_of_mem _ hb)

theorem call_splInv (h : SplInv k) {c : Call} {ch : Choice} (hs : k.stack k.on = f :: bs) (hc : f.code = i :: rest)
    (hcalls : i.calls c = true)
    (hi : i = .prog ∧ ch = .call c ∨ i = .service ∨ i = .call c ∨ i = .schedule) :
    SplInv (k.goto k.g (k.enter c :: f :: bs)) := by
  have hwf := h.wf_top hs
  have hfits := (hwf.checked hc).2
  have hready := h.ready_top hs
  have hint : c ≠ .mips_interrupt := by
    rintro rfl
    rcases hi with ⟨rfl, -⟩ | rfl | rfl | rfl
    · cases hcalls
    · cases hcalls
    · rcases hfits with ⟨-, hc'⟩ | ⟨-, hc'⟩ | ⟨v, l, -, hc' | hc'⟩ <;> cases hc'
    · cases hcalls
  have hdeep : c.deep = true → k.g.curspl = SPL_HIGH := by
    intro hd
    rcases hi with ⟨rfl, -⟩ | rfl | rfl | rfl
    · cases c <;> simp_all [Instr.calls, Call.api, Call.deep]
    · -- the handlers run in `mips_interrupt`
      refine (Ready.hot ?_ hready).1
      rw [hc]
      exact modeOf_hot (by rw [show f.call = .mips_interrupt from hfits]; rfl) (by simp) (by simp) (by simp)
    · rcases hfits with ⟨-, rfl⟩ | ⟨-, rfl⟩ | ⟨v, l, -, rfl | rfl⟩ <;> cases hd
    · -- `mi_switch` calls `cpu_idle`
      have hf : f.call = .mi_switch := hfits
      unfold Ready modeOf at hready
      rw [hf, hc] at hready
      exact hready.1.trans (hwf.deep (by rw [hf]; rfl))
  rw [← goto_setIe]
  have hr : Ready f (k.enter c).callspl k.ie := by rwa [enter_callspl]
  exact h.push hs h.level ⟨rfl, rfl⟩ hwf (h.wf_enter hdeep hint) (.of_call hwf hc (by simpa using hcalls) hr)
    (ready_enter hint (hready.sync hc hcalls))

theorem leave_splInv (h : SplInv k) (hs : k.stack k.on = f :: bs) (hc : f.code = .leave :: rest)
    (hg : g.curspl = f.spl) : SplInv ((k.goto g bs).setIe true) := by
  have hwf := h.wf_top hs
  have hint : f.call = .mips_interrupt := (hwf.checked hc).2
  have hhot := (h.ready_top hs).hot (by rw [hc]; exact modeOf_hot (by rw [hint]; rfl) nofun nofun nofun)
  have hch := h.chain_top hs
  refine h.goto (by rw [hg]; exact hwf.spl) (h.wf_below hs) ?_ ?_
  · cases bs with
    | nil => exact .nil
    | cons b bs => exact (List.isChain_cons_cons.mp hch).2
  · intro b hb
    cases bs with
    | nil => cases hb
    | cons b' bs =>
      cases hb
      have habove := (List.isChain_cons_cons.mp hch).1
      unfold Above at habove
      rw [if_pos hint] at habove
      rwa [hg, hhot.2.2]

theorem act_splInv (h : SplInv k) {a : Act} {t : Tid} {es : List Event} (hs : k.stack k.on = f :: bs)
    (hc : f.code = .act a :: rest) (ha : ActSpec k.g t { f with code := rest } g f' es a) :
    SplInv (k.goto g (f' :: bs)) := by
  obtain ⟨hcall, hcallspl, hspl, -, hcode, hg, -⟩ := ha.frame
  have hwf := h.wf_top hs
  rw [← goto_setIe]
  have hl : Level g.curspl := by rw [hg]; exact h.level
  have hl' : Level f'.spl := by rw [hspl]; exact hwf.spl
  rcases hcode with hcode | ⟨hcode, hhome⟩
  · refine h.advance hs hc nofun hl hcall hcallspl hl' hcode ?_
    intro hok
    rw [hspl, hg]
    exact hok
  · -- `thread_fork` returns early
    have hfork : f.call = .thread_fork := ((hwf.checked hc).2 : f.call = a.home).trans hhome
    refine h.replace hs hl hcall hcallspl hl' (by rw [hcode]; exact List.nil_suffix) ?_ ?_
    · rw [hfork]; nofun
    · have hk : f.call.kind = .loose := by rw [hfork]; rfl
      have hready := h.ready_top hs
      unfold Ready at hready ⊢
      rw [modeOf_loose hk (by rw [hc]; nofun)] at hready
      rw [hcall, modeOf_loose hk (by rw [hcode]; nofun), hg]
      exact hready

theorem sleep_splInv (h : SplInv k) {a : Addr} {cur : Tid} (hs : k.stack k.on = f :: bs) (hc : f.code = i :: rest)
    (hi : (∃ x, i = .loop x ∧ x.waits k.g f = true ∧ a = x.addr ∧ f' = x.turn f) ∨ i = .sleep a ∧ f' = f)
    (hg : Slept a cur k.g g) : SplInv (k.goto g (k.enter .mi_switch :: k.asleep a :: f' :: bs)) := by
  have hwf := h.wf_top hs
  have hfits := (hwf.checked hc).2
  have hk : f.call.kind = .bracket := by
    rcases hi with ⟨x, rfl, -⟩ | ⟨rfl, -⟩
    · cases x with
      | P s => rw [show f.call = .P s from hfits]; rfl
      | lock_acquire l => rw [show f.call = .lock_acquire l from hfits]; rfl
      | clocksleep => obtain ⟨n, hn⟩ := hfits; rw [hn]; rfl
    · obtain ⟨v, l, hv, -⟩ := hfits; rw [hv]; rfl
  have hm : modeOf f.call f.code = .hot := by
    rw [hc]
    rcases hi with ⟨x, rfl, -⟩ | ⟨rfl, -⟩ <;> exact modeOf_hot hk (by simp) (by simp) (by simp)
  obtain ⟨hspl, hie, hsaved⟩ := (h.ready_top hs).hot hm
  have hcalls : i.calls (.thread_sleep a) = true := by
    rcases hi with ⟨x, rfl, -, rfl, -⟩ | ⟨rfl, -⟩ <;> simp [Instr.calls]
  have hf' : f'.call = f.call ∧ f'.callspl = f.callspl ∧ f'.spl = f.spl ∧ f'.code = f.code := by
    rcases hi with ⟨x, -, -, -, rfl⟩ | ⟨-, rfl⟩
    · cases x <;> exact ⟨rfl, rfl, rfl, rfl⟩
    · exact ⟨rfl, rfl, rfl, rfl⟩
  obtain ⟨hf1, hf2, hf3, hf4⟩ := hf'
  have hc' : f'.code = i :: rest := hf4.trans hc
  have hready : Ready f' SPL_HIGH false := by
    unfold Ready
    rw [hf1, hf4, hm, hf2, hf3]
    exact ⟨rfl, rfl, hsaved⟩
  have hwf' : Wf f' := hwf.advance hf1 hf2 (by rw [hf3]; exact hwf.spl)
    (hf4 ▸ List.suffix_rfl) fun _ => by rw [hc']; simp
  have hwa : Wf (k.asleep a) := ⟨List.suffix_cons _ _, h.level, .inl rfl, by rintro ⟨⟩, by rintro ⟨⟩⟩
  have ha1 : Above (k.asleep a) f' := .of_call hwf' hc' hcalls (by rwa [show (k.asleep a).callspl = _ from hspl])
  have ha2 : Above (k.enter .mi_switch) (k.asleep a) := by
    have hlow : Ready (k.asleep a) (k.enter .mi_switch).callspl false := by
      rw [enter_callspl]
      exact ⟨rfl, by rw [show (k.asleep a).callspl = _ from hspl]; rfl⟩
    exact .of_call hwa rfl (by simp [Instr.calls]) hlow
  have hgspl : g.curspl = k.g.curspl := by rw [hg.same]; rfl
  rw [← goto_setIe]
  refine h.goto (by rw [hgspl]; exact h.level) ?_ ?_ ?_
  · intro b hb
    simp only [List.mem_cons] at hb
    rcases hb with rfl | rfl | rfl | hb
    · exact h.wf_enter (fun _ => hspl) (by simp)
    · exact hwa
    · exact hwf'
    · exact h.wf_below hs b hb
  · exact List.isChain_cons_cons.mpr ⟨ha2, List.isChain_cons_cons.mpr
      ⟨ha1, chain_congr (h.chain_top hs) hf1 hf2⟩⟩
  · rintro _ ⟨⟩
    rw [hgspl]
    exact ready_enter (by simp) (by rw [hie, hspl]; rfl)

theorem schedule_splInv (h : SplInv k) {nu : Tid} (hs : k.stack k.on = f :: bs) (hc : f.code = .schedule :: rest)
    (hg : Picked nu k.g g) : SplInv ((k.goto g ({ f with code := rest } :: bs)).md_switch nu) := by
  have hwf := h.wf_top hs
  have hf : f.call = .mi_switch := (hwf.checked hc).2
  have hready := h.ready_top hs
  have hdeep := hwf.deep (by rw [hf]; rfl)
  have hm : modeOf f.call (.schedule :: rest) = .low := by rw [hf]; rfl
  unfold Ready at hready
  rw [hc, hm] at hready
  have hspl : k.g.curspl = SPL_HIGH := hready.1.trans hdeep
  have hie : k.ie = false := by rw [hready.2, hdeep]; rfl
  have hgspl : g.curspl = k.g.curspl := by rw [hg.same]
  -- both threads of the switch are ready with interrupts off
  have h' : SplInv (k.goto g ({ f with code := rest } :: bs)) := by
    rw [← goto_setIe]
    refine h.advance hs hc nofun (by rw [hgspl]; exact h.level) rfl rfl hwf.spl rfl ?_
    intro hok
    rw [hgspl]
    exact hok
  unfold Kernel.md_switch
  split
  · exact h'
  · rename_i hne
    have hne : nu ≠ k.on := fun heq => hne heq.symm
    refine ⟨h'.level, h'.wf, h'.chain, ?_, ?_⟩
    · intro b hb
      have := h'.out nu hne b hb
      show Ready b g.curspl k.ie
      rwa [hgspl, hspl, hie]
    · intro t ht b hb
      by_cases hon : t = k.on
      · subst hon
        have := h'.top b hb
        rwa [show (k.goto g ({ f with code := rest } :: bs)).g.curspl = SPL_HIGH from hgspl.trans hspl,
          show (k.goto g ({ f with code := rest } :: bs)).ie = false from hie] at this
      · exact h'.out t hon b hb

theorem moves_splInv (h : SplInv k) {k' : Kernel} {ch : Choice} {es : List Event} (hm : Moves k ch k' es) :
    SplInv k' := by
  cases hm with
  | interrupt hie => exact interrupted_splInv h hie
  | ret hs hc => exact ret_splInv h hs hc
  | call hs hc hcalls hi => exact call_splInv h hs hc hcalls hi
  | skip hs hc hi =>
    rw [← goto_setIe]
    refine h.advance hs hc ?_ h.level rfl rfl (h.wf_top hs).spl rfl ?_
    · rintro rfl; simp at hi
    · intro hok
      rcases hi with rfl | rfl | rfl | ⟨rfl, -⟩ <;> exact hok
  | @splhigh f bs rest hs hc =>
    refine h.advance hs hc (by simp) (.inr rfl) rfl rfl h.level rfl ?_
    intro hok
    unfold modeOf at hok ⊢
    cases hk : f.call.kind <;> simp only [hk] at hok ⊢
    · exact ⟨rfl, rfl, hok.1⟩
    · exact ⟨rfl, rfl, hok.1⟩
    · rfl
  | @irq f bs rest hs hc =>
    have hwf := h.wf_top hs
    have hk' : f.call.kind ≠ .plain := (hwf.checked hc).2
    refine h.advance hs hc (by simp) h.level rfl rfl hwf.spl rfl ?_
    intro hok
    unfold modeOf at hok ⊢
    cases hk : f.call.kind <;> simp only [hk] at hok ⊢
    · exact ⟨hok.1, rfl, hok.2.2⟩
    · exact absurd hk hk'
    · rfl
  | @setspl f bs rest hs hc =>
    have hwf := h.wf_top hs
    have hk' : f.call.kind ≠ .plain := (hwf.checked hc).2
    rw [← goto_setIe]
    refine h.advance hs hc (by simp) hwf.spl rfl rfl hwf.spl rfl ?_
    intro hok
    unfold modeOf at hok ⊢
    cases hk : f.call.kind <;> simp only [hk] at hok ⊢
    · obtain ⟨-, hie, hsaved⟩ := hok
      exact ⟨hsaved, by rw [hie, hsaved]⟩
    · exact absurd hk hk'
    · exact hok
  | @idle_on f bs rest hs hc =>
    have hwf := h.wf_top hs
    have hf : f.call = .cpu_idle := (hwf.checked hc).2
    refine h.advance hs hc (by simp) h.level rfl rfl hwf.spl rfl ?_
    rw [hf]
    exact fun hok => ⟨hok.1, rfl⟩
  | @idle_off f bs rest hs hc =>
    have hwf := h.wf_top hs
    have hf : f.call = .cpu_idle := (hwf.checked hc).2
    have hdeep := hwf.deep (by rw [hf]; rfl)
    refine h.advance hs hc (by simp) h.level rfl rfl hwf.spl rfl ?_
    rw [hf]
    exact fun hok => ⟨hok.1, by rw [hdeep]; rfl⟩
  | leave hs hc => exact leave_splInv h hs hc rfl
  | act hs hc ha => exact act_splInv h hs hc ha
  | pass hs hc hw hp =>
    have hg := (pass_same hp).1
    rw [← goto_setIe]
    refine h.advance hs hc (by simp) (by rw [hg]; exact h.level) rfl rfl (h.wf_top hs).spl rfl ?_
    intro hok
    rw [hg]
    exact hok
  | sleep hs hc hi hg => exact sleep_splInv h hs hc hi hg
  | @zz f bs rest a cur g' hs hc hg =>
    have hwf := h.wf_top hs
    have hf : f.call = .thread_sleep a := (hwf.checked hc).2
    have hspl := level_pos h.level hg.spl
    have hready := h.ready_top hs
    have hlow : ∀ code, (modeOf f.call (.zz a :: code)) = .low := fun _ => by rw [hf]; rfl
    unfold Ready at hready
    rw [hc, hlow] at hready
    have hcallspl : f.callspl = SPL_HIGH := hready.1.symm.trans hspl
    have hrest : rest = [.unzz] := by
      have hsuf := hwf.code
      simp only [hf, hc, body, List.suffix_cons_iff, List.cons.injEq, List.suffix_nil] at hsuf
      rcases hsuf with ⟨-, rfl⟩ | ⟨hsuf, -⟩ | hsuf
      · rfl
      · cases hsuf
      · cases hsuf
    subst hrest
    have hwf' : Wf { f with code := [.unzz] } :=
      hwf.advance rfl rfl hwf.spl (by rw [hc]; exact List.suffix_cons _ _) fun hint => by
        rw [hf] at hint; cases hint
    refine h.push_switch hs (by rw [hg.same]; rfl) hspl (by rw [hready.2, hcallspl]; rfl) ⟨rfl, rfl⟩ hwf' rfl
      (by simp [Instr.calls]) ?_
    unfold Ready
    rw [show modeOf f.call [.unzz] = .low by rw [hf]; rfl]
    exact ⟨hcallspl.symm, by rw [hcallspl]; rfl⟩
  | unzz hs hc hcur =>
    rw [← goto_setIe]
    exact h.advance hs hc (by simp) h.level rfl rfl (h.wf_top hs).spl rfl id
  | @switch f bs rest cur g' hs hc hg =>
    have hwf := h.wf_top hs
    have hf : f.call = .thread_yield := (hwf.checked hc).2
    have hm : modeOf f.call f.code = .hot := by
      rw [hc]; exact modeOf_hot (by rw [hf]; rfl) (by simp) (by simp) (by simp)
    have hready := h.ready_top hs
    obtain ⟨hspl, hie, -⟩ := hready.hot hm
    refine h.push_switch hs (by rw [hg.same]) hspl hie ⟨rfl, rfl⟩ hwf hc (by simp [Instr.calls]) ?_
    rwa [← hspl, ← hie]
  | @exit f bs rest cur g' hs hc hg =>
    have hwf := h.wf_top hs
    have hf : f.call = .thread_exit := (hwf.checked hc).2
    have hspl := level_pos h.level hg.spl
    have hready := h.ready_top hs
    have hm : modeOf f.call f.code = .free := by rw [hc, hf]; rfl
    have hie : k.ie = false := by
      unfold Ready at hready
      rw [hm] at hready
      rw [show k.ie = decide (k.g.curspl = 0) from hready, hspl]
      rfl
    refine h.push_switch hs (by rw [hg.same]) hspl hie ⟨rfl, rfl⟩ hwf hc (by simp [Instr.calls]) ?_
    rwa [← hspl, ← hie]
  | schedule hs hc hg => exact schedule_splInv h hs hc hg

end Steps

/-! ## Every run -/

theorem reach_splInv {c : Config} {ok : Kernel → Choice → Prop} {k : Kernel} {tr : List Event}
    (h : Reach c ok k tr) : SplInv k := by
  refine Machine.Reach.invariant (I := fun k _ => SplInv k) ?_ ?_ h
  · rintro _ ⟨-, rfl⟩
    exact boot_splInv c
  · intro _ _ _ _ _ _ hk _ hs
    exact moves_splInv hk (step_moves hs)

theorem modeOf_of_loose {c : Call} (hk : c.kind = .loose) (code : List Instr) :
    modeOf c code = .free ∨ modeOf c code = .half := by
  unfold modeOf
  rw [hk]
  cases code with
  | nil => exact .inl rfl
  | cons i rest => cases i <;> first | exact .inl rfl | exact .inr rfl

theorem loose_of_modeOf {c : Call} {code : List Instr} (h : modeOf c code = .free ∨ modeOf c code = .half) :
    c.kind = .loose := by
  unfold modeOf at h
  cases hk : c.kind
  case loose => rfl
  all_goals
    rw [hk] at h
    cases code with
    | nil => rcases h with h | h <;> cases h
    | cons i rest => cases i <;> rcases h with h | h <;> cases h

theorem loose_below {f : Frame} {bs : List Frame} (hch : (f :: bs).IsChain Above) (hf : f.call.kind = .loose) :
    ∀ b ∈ bs, b.call.kind = .loose := by
  induction bs generalizing f with
  | nil =>
    intro b hb
    cases hb
  | cons g bs ih =>
    obtain ⟨habove, hch⟩ := List.isChain_cons_cons.mp hch
    unfold Above at habove
    rw [if_neg (by rintro hint; rw [hint] at hf; cases hf)] at habove
    have hg := habove.2.1 hf
    intro b hb
    rcases List.mem_cons.mp hb with rfl | hb
    · exact hg
    · exact ih hch hg b hb

theorem raised_high {fs : List Frame} {s : Nat} {ie : Bool} (hwf : ∀ f ∈ fs, Wf f) (hch : fs.IsChain Above)
    (htop : ∀ f ∈ fs.head?, Ready f s ie) {f : Frame} (hf : f ∈ fs)
    (hm : modeOf f.call f.code = .hot ∨ modeOf f.call f.code = .win) : s = SPL_HIGH := by
  induction fs generalizing s ie with
  | nil => cases hf
  | cons h tl ih =>
    have hready := htop h rfl
    rcases List.mem_cons.mp hf with rfl | hf
    · unfold Ready at hready
      rcases hm with hm | hm <;> rw [hm] at hready <;> exact hready.1
    cases tl with
    | nil => cases hf
    | cons g tl =>
      obtain ⟨habove, hch'⟩ := List.isChain_cons_cons.mp hch
      have hwh : Wf h := hwf h List.mem_cons_self
      have hloose : h.call.kind ≠ .loose := by
        intro hk
        rcases modeOf_of_loose (loose_below hch hk f hf) f.code with hm' | hm' <;>
          rcases hm with hm | hm <;> cases hm.symm.trans hm'
      unfold Above at habove
      split at habove
      · -- the handlers run with the level raised
        rename_i hint
        have hsuf := hwh.code
        have hne := hwh.alive hint
        simp only [hint, body, List.suffix_cons_iff, List.suffix_nil] at hsuf
        unfold Ready at hready
        rw [hint] at hready
        rcases hsuf with hsuf | hsuf | hsuf
        · rw [hsuf] at hready; exact hready.1
        · rw [hsuf] at hready; exact hready.1
        · exact absurd hsuf hne
      · have hcallspl := ih (fun b hb => hwf b (List.mem_cons_of_mem _ hb)) hch'
          (by rintro _ ⟨⟩; exact habove.2.2 hloose) hf
        unfold Ready at hready
        cases hmode : modeOf h.call h.code <;> rw [hmode] at hready
        · exact hready.1.trans hcallspl
        · exact hready.1
        · exact hready.1
        · exact hready.1.trans hcallspl
        · exact absurd (loose_of_modeOf (.inl hmode)) hloose
        · exact absurd (loose_of_modeOf (.inr hmode)) hloose

def Call.guarded : Call → Bool
  | .P _ | .V _ | .lock_acquire _ | .lock_release _ | .lock_do_i_hold _ | .cv_wait _ _ | .cv_signal _ _
  | .cv_broadcast _ _ | .thread_yield | .clocksleep _ | .one_thread_only => true
  | _ => false

def Frame.Raised (f : Frame) : Prop := .splhigh ∉ f.code ∧ .setspl ∈ f.code

theorem guarded_kind {c : Call} (hg : c.guarded = true) : c.kind = .bracket := by
  cases c <;> first | rfl | cases hg

theorem guarded_mode {f : Frame} (hwf : Wf f) (hg : f.call.guarded = true) (hr : f.Raised) :
    modeOf f.call f.code = .hot ∨ modeOf f.call f.code = .win := by
  obtain ⟨hhigh, hset⟩ := hr
  have hk := guarded_kind hg
  have hsuf := hwf.code
  unfold modeOf
  rw [hk]
  cases hcode : f.code with
  | nil => rw [hcode] at hset; cases hset
  | cons i rest =>
    rw [hcode] at hhigh hset hsuf
    cases i with
    | nonint =>
      refine absurd ?_ hhigh
      cases hc : f.call <;> rw [hc] at hsuf hg <;> try cases hg
      all_goals
        simp [body, List.suffix_cons_iff] at hsuf
        try simp [hsuf]
    | splhigh => simp at hhigh
    | setspl => exact .inr rfl
    | _ => exact .inl rfl

theorem moves_callspl {k k' : Kernel} {ch : Choice} {es : List Event} (hm : Moves k ch k' es) {f : Frame}
    (hf : k'.stack k.on = f :: k.stack k.on) : f.callspl = k.g.curspl := by
  have hlen := congrArg List.length hf
  cases hm with
  | interrupt hie =>
    simp only [Kernel.interrupted, Kernel.goto, Kernel.setIe, Function.update_self, List.cons.injEq] at hf
    rw [← hf.1]
  | call hs | switch hs | exit hs =>
    simp only [Kernel.goto, Function.update_self, hs, List.cons.injEq] at hf
    rw [← hf.1, enter_callspl]
  | zz hs =>
    simp only [Kernel.goto, Function.update_self, hs, List.cons.injEq] at hf
    rw [← hf.1, enter_callspl]
  | schedule hs =>
    have hst : ∀ nu (j : Kernel), (j.md_switch nu).stack = j.stack := by
      intro nu j; unfold Kernel.md_switch; split <;> rfl
    rw [hst] at hlen
    simp [Kernel.goto, hs] at hlen
  | ret hs | skip hs | splhigh hs | irq hs | setspl hs | idle_on hs | idle_off hs | leave hs | act hs | pass hs
  | sleep hs | unzz hs =>
    simp [Kernel.goto, Kernel.setIe, hs] at hlen <;> omega

/-- A call keeps the level raised while its thread runs between its `splhigh` and the end of its `splx`, it returns
with the level of its call, and threads are switched with the level raised. -/
theorem spl_discipline {c : Config} {k : Kernel} {tr : List Event} (h : Reach c Any k tr) :
    (∀ f ∈ k.stack k.on, f.call.guarded = true → f.Raised → 0 < k.g.curspl) ∧
    ∀ ch k' es, step k ch = .ok (k', es) →
      (∀ f, k'.stack k.on = f :: k.stack k.on → f.callspl = k.g.curspl) ∧
      (∀ t f s, .ret t f s ∈ es → f.call.guarded = true → s = f.callspl ∧ k'.g.curspl = f.callspl) ∧
      (∀ old nu, .md_switch old nu ∈ es → 0 < k.g.curspl) := by
  have hinv := reach_splInv h
  refine ⟨?_, ?_⟩
  · intro f hf hg hr
    rw [raised_high (hinv.wf _) (hinv.chain _) hinv.top hf (guarded_mode (hinv.wf _ f hf) hg hr)]
    decide
  · intro ch k' es hs
    have hm := step_moves hs
    refine ⟨fun f => moves_callspl hm, ?_, ?_⟩
    · intro t f s hret hg
      cases hm with
      | ret hst hc =>
        cases List.mem_singleton.mp hret
        have hready := hinv.ready_top hst
        have hlow : modeOf f.call f.code = .low := by
          unfold modeOf
          rw [guarded_kind hg, hc]
        unfold Ready at hready
        rw [hlow] at hready
        exact ⟨hready.1, hready.1⟩
      | act _ _ ha => cases ha.events _ hret
      | pass => cases effects_ofAct _ hret
      | _ => simp at hret
    · intro old nu hsw
      cases hm with
      | schedule _ _ hg => exact hg.spl
      | act _ _ ha => cases ha.events _ hsw
      | pass => cases effects_ofAct _ hsw
      | _ => simp at hsw

theorem spl_discipline_lock_acquire : ∃ k tr, Reach plainConfig Any k tr ∧
    (∃ f ∈ k.stack k.on, f.call = .lock_acquire 0 ∧ f.callspl = 0 ∧ f.Raised) ∧ 0 < k.g.curspl := by
  let chs : List Choice := [.call .spl0, .go [], .go [], .go [], .call (.lock_acquire 0), .go [], .go []]
  let frame : Frame :=
    { call := .lock_acquire 0, code := [.loop (.lock_acquire 0), .irq, .setspl], callspl := 0, start := 5, spl := 0 }
  obtain ⟨x, hx⟩ : ∃ x, after plainConfig chs = some x := Option.isSome_iff_exists.mp (by decide +kernel)
  have hreach := reach_after plainConfig_counts hx
  have hmem : frame ∈ x.1.stack x.1.on := by
    have : (after plainConfig chs).all (fun x => frame ∈ x.1.stack x.1.on) = true := by decide +kernel
    simpa [hx] using this
  have hraised : frame.Raised := ⟨by decide, by decide⟩
  exact ⟨x.1, x.2, hreach, ⟨frame, hmem, rfl, rfl, hraised⟩, (spl_discipline hreach).1 frame hmem rfl hraised⟩

end Os161.Cpu
