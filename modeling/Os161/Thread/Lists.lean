import Os161.Thread.Shape

/-! # What a step does with the lists of threads -/

namespace Os161.Cpu

structure SameLists (g g' : Globals) : Prop where
  curthread : g'.curthread = g.curthread
  runqueue : g'.runqueue = g.runqueue
  sleepers : g'.sleepers = g.sleepers
  zombies : g'.zombies = g.zombies
  numthreads : g'.numthreads = g.numthreads
  nextthread : g'.nextthread = g.nextthread
  sleepaddr : ∀ t, (g'.thread t).t_sleepaddr = (g.thread t).t_sleepaddr

theorem SameLists.rfl {g : Globals} : SameLists g g :=
  ⟨.refl _, .refl _, .refl _, .refl _, .refl _, .refl _, fun _ => .refl _⟩

def Event.listed : Event → Bool
  | .forked _ | .exited _ | .destroyed _ | .sleep _ _ => true
  | _ => false

def Kernel.next (k : Kernel) : Option Instr :=
  match k.stack k.on with
  | [] => none
  | f :: _ => f.code.head?

inductive Relisted (k : Kernel) (g' : Globals) : List Event → Prop where
  | same (h : SameLists k.g g') : Relisted k g' []
  | awake (hcur : k.g.curthread = some k.on) (h : g' = set_sleepaddr k.on none k.g) : Relisted k g' []
  | woke {a : Addr} {g₀ : Globals} (h : Woke a g₀ g') (h₀ : SameLists k.g g₀) : Relisted k g' []
  | wokeOne {a : Addr} (h : WokeOne a k.g g') : Relisted k g' []
  | exorcised (h : g' = { k.g with zombies := g'.zombies }) (hz : g'.zombies.toList = [])
      (hmax : g'.zombies.max = if k.g.zombies.max > 16 then 0 else k.g.zombies.max) :
      Relisted k g' (k.g.zombies.toList.map .destroyed)
  | grown (hnext : k.next = some (.act .fork_link)) (h : Grown k.g g') : Relisted k g' []
  | linked {cwd : Option Nat} (hnext : k.next = some (.act .fork_link)) (h : Linked cwd k.g g') :
      Relisted k g' [.forked k.g.nextthread]
  | slept {a : Addr} (h : Slept a k.on k.g g') : Relisted k g' [.sleep k.on a]
  | yielded (h : Yielded k.on k.g g') : Relisted k g' []
  | exited (hnext : k.next = some .exit_switch) (h : Exited k.on k.g g') : Relisted k g' [.exited k.on]
  | picked {nu : Tid} {g₁ : Globals} {b : Bool} (hcur : k.g.curthread = none) (h : Picked nu k.g g₁)
      (hg : g' = { g₁ with in_interrupt := b }) : Relisted k g' []

theorem next_eq {k : Kernel} {f : Frame} {bs : List Frame} {i : Instr} {rest : List Instr}
    (hs : k.stack k.on = f :: bs) (hc : f.code = i :: rest) : k.next = some i := by
  simp [Kernel.next, hs, hc]

section Steps

variable {k k' : Kernel} {ch : Choice} {es : List Event}

theorem SwInv.null (h : SwInv k) (hsp : SplInv k) {f : Frame} {bs : List Frame} {rest : List Instr}
    (hs : k.stack k.on = f :: bs) (hc : f.code = .schedule :: rest) : k.g.curthread = none := by
  have hf : f.call = .mi_switch := ((hsp.wf_top hs).checked hc).2
  have hon := h.on
  rw [hs, List.countP_cons, show f.switching = true by simp [Frame.switching, hf, hc], if_pos rfl] at hon
  by_contra hne
  rw [if_neg hne] at hon
  omega

theorem md_switch_g (k : Kernel) (nu : Tid) : ∃ b, (k.md_switch nu).g = { k.g with in_interrupt := b } := by
  unfold Kernel.md_switch
  split
  · exact ⟨k.g.in_interrupt, rfl⟩
  · exact ⟨_, rfl⟩

theorem effects_listed (t : Tid) (f : Frame) : (effects t f).filter Event.listed = [] := by
  unfold effects
  split <;> rfl

theorem ActSpec.relisted {f f' : Frame} {bs : List Frame} {a : Act} {rest : List Instr} {g' : Globals}
    (hs : k.stack k.on = f :: bs) (hc : f.code = .act a :: rest)
    (h : ActSpec k.g k.on { f with code := rest } g' f' es a) :
    Relisted k g' ((effects k.on f' ++ es).filter Event.listed) := by
  rw [List.filter_append, effects_listed, List.nil_append]
  cases a with
  | V_post s => obtain ⟨-, -, hw, -, rfl⟩ := h; exact .woke hw ⟨rfl, rfl, rfl, rfl, rfl, rfl, fun _ => rfl⟩
  | lock_drop l => obtain ⟨-, -, -, hw, -, rfl⟩ := h; exact .woke hw ⟨rfl, rfl, rfl, rfl, rfl, rfl, fun _ => rfl⟩
  | lock_read l | read_numthreads | fork_create | fork_return => obtain ⟨rfl, -, rfl⟩ := h; exact .same .rfl
  | cv_check c l => obtain ⟨-, -, rfl, -, rfl⟩ := h; exact .same .rfl
  | cv_wake_one c l => obtain ⟨-, -, -, hw, -, rfl⟩ := h; exact .wokeOne hw
  | cv_wake c l => obtain ⟨-, -, -, hw, -, rfl⟩ := h; exact .woke hw .rfl
  | wakeup x => obtain ⟨-, hw, -, rfl⟩ := h; exact .woke hw .rfl
  | wakeup_one x => obtain ⟨-, hw, -, rfl⟩ := h; exact .wokeOne hw
  | exorcise =>
    obtain ⟨-, hg, hz, hmax, -, rfl⟩ := h
    have hes : (k.g.zombies.toList.map Event.destroyed).filter Event.listed = k.g.zombies.toList.map .destroyed :=
      List.filter_eq_self.mpr (by simp [Event.listed])
    rw [hes]
    exact .exorcised hg hz hmax
  | tick =>
    obtain ⟨⟨n, rfl⟩ | ⟨-, hw⟩, -, rfl⟩ := h
    · exact .same ⟨rfl, rfl, rfl, rfl, rfl, rfl, fun _ => rfl⟩
    · exact .woke hw ⟨rfl, rfl, rfl, rfl, rfl, rfl, fun _ => rfl⟩
  | fork_incref =>
    obtain ⟨⟨cur, -, ⟨-, rfl, -⟩ | ⟨v, -, rfl, -⟩⟩, rfl⟩ := h <;>
      exact .same ⟨rfl, rfl, rfl, rfl, rfl, rfl, fun _ => rfl⟩
  | fork_link =>
    obtain ⟨hl, -, rfl⟩ | ⟨hg, -, rfl⟩ := h
    · exact .linked (next_eq hs hc) hl
    · exact .grown (next_eq hs hc) hg
  | fork_fail =>
    obtain ⟨⟨-, rfl, -⟩ | ⟨v, -, -, rfl, -⟩, rfl⟩ := h <;>
      exact .same ⟨rfl, rfl, rfl, rfl, rfl, rfl, fun _ => rfl⟩
  | exit_cwd =>
    obtain ⟨⟨cur, -, rfl | ⟨v, -, rfl⟩⟩, -, rfl⟩ := h
    · exact .same .rfl
    · refine .same ⟨rfl, rfl, rfl, rfl, rfl, rfl, fun t => ?_⟩
      by_cases ht : t = cur
      · subst ht
        simp
      · simp [ht]

theorem moves_relisted (hsp : SplInv k) (hsw : SwInv k) (hm : Moves k ch k' es) :
    Relisted k k'.g (es.filter Event.listed) := by
  cases hm with
  | interrupt | ret | call | skip | splhigh | irq | setspl | idle_on | idle_off | leave =>
    exact .same ⟨rfl, rfl, rfl, rfl, rfl, rfl, fun _ => rfl⟩
  | act hs hc ha => exact ha.relisted hs hc
  | @pass f bs x rest g' mem mem' u hs hc hw hp =>
    rw [effects_listed]
    have hp := pass_spec hp
    cases x with
    | P s => obtain ⟨-, rfl⟩ := hp; exact .same ⟨rfl, rfl, rfl, rfl, rfl, rfl, fun _ => rfl⟩
    | lock_acquire l => obtain ⟨-, rfl⟩ := hp; exact .same ⟨rfl, rfl, rfl, rfl, rfl, rfl, fun _ => rfl⟩
    | clocksleep => cases hp; exact .same .rfl
  | sleep hs hc hi hg | zz hs hc hg =>
    obtain rfl := hsw.cur _ hg.curthread
    exact .slept hg
  | unzz hs hc hcur =>
    obtain rfl := hsw.cur _ hcur
    exact .awake hcur rfl
  | switch hs hc hg =>
    obtain rfl := hsw.cur _ hg.curthread
    exact .yielded hg
  | exit hs hc hg =>
    obtain rfl := hsw.cur _ hg.curthread
    exact .exited (next_eq hs hc) hg
  | @schedule f bs rest nu g' hs hc hg =>
    obtain ⟨b, hb⟩ := md_switch_g (k.goto g' ({ f with code := rest } :: bs)) nu
    exact .picked (hsw.null hsp hs hc) hg hb

theorem mem_listed {e : Event} (he : e.listed = true) : e ∈ es.filter Event.listed ↔ e ∈ es := by
  simp [he]

end Steps

end Os161.Cpu
