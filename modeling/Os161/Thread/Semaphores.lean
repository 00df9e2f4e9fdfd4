import Os161.Thread.Sync
import Os161.Thread.Wakeup

/-! # Semaphores over every run -/

namespace Os161

theorem Globals.Guards.congr {g g' : Globals} {a : Addr} (h : g.Guards a) (hcount : g'.count = g.count)
    (hlock : g'.lock = g.lock) : g'.Guards a := by
  cases a with
  | sem s => rw [Globals.Guards, hcount]; exact h
  | lock l => rw [Globals.Guards, hlock]; exact h
  | cv c => trivial
  | lbolt => trivial
  | other x => trivial

theorem Globals.Guards.set_count {g : Globals} {a : Addr} {s : Nat} (h : g.Guards a) (hne : a ≠ .sem s) (n : Int) :
    (set_count s n g).Guards a := by
  cases a with
  | sem s' =>
    have hs : s' ≠ s := by simpa using hne
    show Function.update g.count s n s' = 0
    rw [Function.update_of_ne hs]
    exact h
  | lock l => exact h
  | cv c => trivial
  | lbolt => trivial
  | other x => trivial

theorem Globals.Guards.set_lock {g : Globals} {a : Addr} {l : Nat} (h : g.Guards a) (hne : a ≠ .lock l) (x : Lock) :
    (set_lock l x g).Guards a := by
  cases a with
  | sem s => exact h
  | lock l' =>
    have hl : l' ≠ l := by simpa using hne
    show (Function.update g.lock l x l').locked = 1
    rw [Function.update_of_ne hl]
    exact h
  | cv c => trivial
  | lbolt => trivial
  | other x => trivial

namespace Cpu

/-! ## Sleepers have to wait -/

section Guards

variable {k k' : Kernel} {ch : Choice} {es tr : List Event} {t : Tid} {a : Addr}

theorem ActSpec.no_sleep {g g' : Globals} {u : Tid} {f f' : Frame} {x : Act} (h : ActSpec g u f g' f' es x) :
    .sleep t a ∉ es := by
  cases x with
  | fork_link =>
    rcases h with ⟨-, -, rfl⟩ | ⟨-, -, rfl⟩
    · simp
    · simp
  | _ =>
    simp only [ActSpec] at h
    simp_all

theorem effects_no_sleep {u : Tid} {f : Frame} : .sleep t a ∉ effects u f := by
  unfold effects
  split <;> simp

theorem moves_sleep_guards (hsp : SplInv k) (hpol : PoliteInv k) (hm : Moves k ch k' es) (he : .sleep t a ∈ es) :
    k.g.Guards a := by
  cases hm with
  | interrupt | ret | call | skip | splhigh | irq | setspl | idle_on | idle_off | leave | unzz | switch | exit
  | schedule => simp at he
  | act hs hc ha =>
    rcases List.mem_append.mp he with he | he
    · exact absurd he effects_no_sleep
    · exact absurd he ha.no_sleep
  | pass => exact absurd he effects_no_sleep
  | @sleep f f' bs i rest b cur g' hs hc hi hg =>
    simp only [List.mem_singleton, Event.sleep.injEq] at he
    obtain ⟨-, rfl⟩ := he
    rcases hi with ⟨x, rfl, hw, rfl, -⟩ | ⟨rfl, -⟩
    · cases x with
      | P s => simpa [Loop.waits, Loop.addr, Globals.Guards] using hw
      | lock_acquire l => simpa [Loop.waits, Loop.addr, Globals.Guards] using hw
      | clocksleep => trivial
    · obtain ⟨v, l, -, rfl⟩ := ((hsp.wf_top hs).checked hc).2
      trivial
  | @zz f bs rest b cur g' hs hc hg =>
    simp only [List.mem_singleton, Event.sleep.injEq] at he
    obtain ⟨-, rfl⟩ := he
    have hprim := hpol k.on f (by rw [hs]; exact List.mem_cons_self) _ _ _ hc rfl
    cases a with
    | sem s => cases hprim
    | lock l => cases hprim
    | _ => trivial

def GuardInv (k : Kernel) : Prop := ∀ t a, t ∈ k.g.sleepersOn a → k.g.Guards a

theorem GuardInv.before (h : GuardInv k) (hp : PlaceInv k tr) (hsp : SplInv k) (hsw : SwInv k) (hpol : PoliteInv k)
    (hm : Moves k ch k' es) (ht : t ∈ k'.g.sleepersOn a) : k.g.Guards a := by
  rw [← mem_asleep] at ht
  rcases moves_asleep hp hsp hsw hm with ⟨hsub, -⟩ | ⟨b, -, hsub, hes⟩
  · exact h t a (mem_asleep.mp (hsub ht))
  · rw [hsub, List.mem_append, List.mem_singleton, Prod.mk.injEq, Option.some.injEq] at ht
    rcases ht with ht | ⟨rfl, rfl⟩
    · exact h t a (mem_asleep.mp ht)
    · refine moves_sleep_guards hsp hpol hm (t := k.on) ((mem_listed rfl).mp ?_)
      rw [hes]
      exact List.mem_singleton_self _

theorem GuardInv.step (h : GuardInv k) (hp : PlaceInv k tr) (hsp : SplInv k) (hsw : SwInv k) (hpol : PoliteInv k)
    (hm : Moves k ch k' es) : GuardInv k' := by
  intro t a ht
  have hbefore := h.before hp hsp hsw hpol hm ht
  have hsync := moves_resynced hsp hsw hm
  generalize es.filter Event.sync = es' at hsync
  cases hsync with
  | same hcount hlock => exact hbefore.congr hcount hlock
  | @P s hpos hg =>
    rw [hg]
    refine hbefore.set_count ?_ _
    rintro rfl
    exact absurd hbefore (by show k.g.count s ≠ 0; omega)
  | @V s hpos hw =>
    refine Globals.Guards.congr (hbefore.set_count ?_ _) (by rw [hw.same]) (by rw [hw.same])
    rintro rfl
    rw [hw.none_left] at ht
    cases ht
  | @acquire l hnext hfree hg =>
    rw [hg]
    refine hbefore.set_lock ?_ _
    rintro rfl
    exact absurd hbefore (by show (k.g.lock l).locked ≠ 1; rw [hfree]; decide)
  | @release l hnext hheld hw =>
    refine Globals.Guards.congr (hbefore.set_lock ?_ _) (by rw [hw.same]) (by rw [hw.same])
    rintro rfl
    rw [hw.none_left] at ht
    cases ht

theorem reach_guardInv {c : Config} (h : Reach c Polite k tr) : GuardInv k := by
  refine Machine.Reach.invariant (I := fun k _ => GuardInv k) ?_ ?_ h
  · rintro _ ⟨-, rfl⟩ t a ht
    cases ht
  · intro k k' ch tr es hr hk _ hs
    exact hk.step (reach_placeInv hr) (reach_splInv hr) (reach_swInv hr) (reach_politeInv hr) (step_moves hs)

end Guards

/-! ## Counts -/

def Event.completes (c : Call) : Event → Bool
  | .effect _ c' => decide (c' = c)
  | _ => false

def completed (c : Call) (tr : List Event) : Nat := tr.countP (Event.completes c)

section Counts

variable {k k' : Kernel} {ch : Choice} {es tr : List Event}

theorem completed_append (c : Call) (es tr : List Event) :
    completed c (es ++ tr) = completed c es + completed c tr := List.countP_append

theorem completed_filter {c : Call} (hc : c.sync = true) (es : List Event) :
    completed c (es.filter Event.sync) = completed c es := by
  rw [completed, completed, List.countP_filter]
  apply List.countP_congr
  intro e _
  cases e with
  | effect t c' =>
    simp only [Event.completes, Event.sync, Bool.and_eq_true, decide_eq_true_eq, and_iff_left_iff_imp]
    rintro rfl
    exact hc
  | _ => simp [Event.completes]

theorem completed_singleton (c c' : Call) (t : Tid) : completed c [.effect t c'] = if c' = c then 1 else 0 := by
  by_cases h : c' = c <;> simp [completed, Event.completes, h]

structure CountInv (c : Config) (k : Kernel) (tr : List Event) (s : Nat) : Prop where
  eq : k.g.count s = c.initial_count s + completed (.V s) tr - completed (.P s) tr
  nonneg : 0 ≤ k.g.count s
  lt : k.g.count s < 2 ^ 31

theorem Resynced.count {g' : Globals} (h : Resynced k g' es) {s : Nat} (hnonneg : 0 ≤ k.g.count s)
    (hlt : k.g.count s < 2 ^ 31) :
    g'.count s = k.g.count s + completed (.V s) es - completed (.P s) es ∧ 0 ≤ g'.count s ∧ g'.count s < 2 ^ 31 := by
  cases h with
  | same hcount =>
    rw [hcount]
    exact ⟨by simp [completed], hnonneg, hlt⟩
  | @P s' hpos hg =>
    rw [completed_singleton, completed_singleton, if_neg (by simp), hg]
    by_cases hs : s' = s
    · subst hs
      simp only [set_count, Function.update_self, if_pos]
      omega
    · simp only [set_count, Function.update_of_ne (Ne.symm hs), Call.P.injEq, if_neg hs]
      omega
  | @V s' hpos hw =>
    have hcount : g'.count = Function.update k.g.count s' (Words.toI32 (k.g.count s' + 1)) := by rw [hw.same]; rfl
    rw [completed_singleton, completed_singleton, if_neg (show ¬ Call.V s' = .P s by simp), hcount]
    by_cases hs : s' = s
    · subst hs
      have hsmall : k.g.count s' + 1 < 2 ^ 31 := by
        by_contra hbig
        have hmax : k.g.count s' + 1 = 2 ^ 31 := by omega
        rw [hmax] at hpos
        exact absurd hpos (by decide)
      rw [Function.update_self, Words.toI32_of_small (by omega) hsmall, if_pos rfl]
      omega
    · rw [Function.update_of_ne (Ne.symm hs), if_neg (by simpa using hs)]
      omega
  | @acquire l hnext hfree hg =>
    rw [completed_singleton, completed_singleton, hg]
    exact ⟨by simp [set_lock], hnonneg, hlt⟩
  | @release l hnext hheld hw =>
    have hcount : g'.count = k.g.count := by rw [hw.same]; rfl
    rw [completed_singleton, completed_singleton, hcount]
    exact ⟨by simp, hnonneg, hlt⟩

theorem CountInv.step {c : Config} {s : Nat} (h : CountInv c k tr s) (hsync : Resynced k k'.g (es.filter Event.sync)) :
    CountInv c k' (es ++ tr) s := by
  obtain ⟨heq, hnonneg, hlt⟩ := h
  obtain ⟨hstep, hnonneg', hlt'⟩ := hsync.count hnonneg hlt
  rw [completed_filter rfl, completed_filter rfl] at hstep
  refine ⟨?_, hnonneg', hlt'⟩
  rw [completed_append, completed_append, hstep, heq]
  push_cast
  omega

theorem reach_countInv {c : Config} {ok : Kernel → Choice → Prop} (h : Reach c ok k tr) {s : Nat}
    (hint : c.initial_count s < 2 ^ 31) : CountInv c k tr s := by
  refine Machine.Reach.invariant (I := fun k tr => CountInv c k tr s) ?_ ?_ h
  · rintro _ ⟨hinit, rfl⟩
    exact ⟨by simp [boot, completed], hinit s, hint⟩
  · intro k k' ch tr es hr hk _ hs
    exact hk.step (moves_resynced (reach_splInv hr) (reach_swInv hr) (step_moves hs))

end Counts

/-! ## The assertions after the loops -/

section Asserts

variable {k k' : Kernel} {ch : Choice} {es tr : List Event}

structure FreeInv (k : Kernel) : Prop where
  count : ∀ s, 0 ≤ k.g.count s
  lock : ∀ l, k.g.lock l = ⟨0, none⟩ ∨ ∃ t, k.g.lock l = ⟨1, some t⟩

theorem FreeInv.step (h : FreeInv k) (hsync : Resynced k k'.g es) : FreeInv k' := by
  obtain ⟨hcount, hlock⟩ := h
  cases hsync with
  | same hcount' hlock' => exact ⟨by rwa [hcount'], by rwa [hlock']⟩
  | @P s hpos hg =>
    refine ⟨fun s' => ?_, by rw [hg]; exact hlock⟩
    have := hcount s'
    rw [hg]
    by_cases hs : s' = s
    · subst hs
      simp only [set_count, Function.update_self]
      omega
    · simpa only [set_count, Function.update_of_ne hs] using this
  | @V s hpos hw =>
    refine ⟨fun s' => ?_, by rw [hw.same]; exact hlock⟩
    have := hcount s'
    rw [hw.same]
    by_cases hs : s' = s
    · subst hs
      simp only [set_count, Function.update_self]
      omega
    · simpa only [set_count, Function.update_of_ne hs] using this
  | @acquire l hnext hfree hg =>
    refine ⟨by rw [hg]; exact hcount, fun l' => ?_⟩
    rw [hg]
    by_cases hl : l' = l
    · subst hl
      exact .inr ⟨k.on, by simp [set_lock]⟩
    · simpa only [set_lock, Function.update_of_ne hl] using hlock l'
  | @release l hnext hheld hw =>
    refine ⟨by rw [hw.same]; exact hcount, fun l' => ?_⟩
    rw [hw.same]
    by_cases hl : l' = l
    · subst hl
      exact .inl (by simp [set_lock])
    · simpa only [set_lock, Function.update_of_ne hl] using hlock l'

theorem reach_freeInv {c : Config} {ok : Kernel → Choice → Prop} (h : Reach c ok k tr) : FreeInv k := by
  refine Machine.Reach.invariant (I := fun k _ => FreeInv k) ?_ ?_ h
  · rintro _ ⟨hinit, rfl⟩
    exact ⟨hinit, fun _ => .inl rfl⟩
  · intro k k' ch tr es hr hk _ hs
    exact hk.step (moves_resynced (reach_splInv hr) (reach_swInv hr) (step_moves hs))

theorem FreeInv.pass (h : FreeInv k) {x : Loop} {f : Frame} (hw : x.waits k.g f = false) (mem : Heap) :
    ∃ s, x.pass (k.g, mem) = .ok (.ok ⟨⟩, s) := by
  cases x with
  | P s =>
    have hne : k.g.count s ≠ 0 := by simpa [Loop.waits] using hw
    have hpos : 0 < k.g.count s := by
      have := h.count s
      omega
    exact ⟨_, assert_bind_run hpos⟩
  | lock_acquire l =>
    have hfree : k.g.lock l = ⟨0, none⟩ := by
      rcases h.lock l with hfree | ⟨t, hheld⟩
      · exact hfree
      · simp [Loop.waits, hheld] at hw
    have hlocked : (k.g.lock l).locked = 0 := by rw [hfree]
    have howner : (k.g.lock l).owner = none := by rw [hfree]
    exact ⟨_, (assert_bind_run hlocked).trans (assert_bind_run howner)⟩
  | clocksleep => exact ⟨_, rfl⟩

theorem reach_no_pass_halt {c : Config} {ok : Kernel → Choice → Prop} (h : Reach c ok k tr) {p : Halt}
    (hp : p.pass = true) : step k ch ≠ .error (.halt p) := by
  intro hstep
  obtain ⟨f, bs, x, rest, mem, -, -, hw, hpass⟩ := step_pass_halt hstep hp
  obtain ⟨s, hs⟩ := (reach_freeInv h).pass hw mem
  rw [hs] at hpass
  cases hpass

end Asserts

/-! ## The theorem -/

/-- A count is the first one with the calls of `V` and `P` that have done their work. It is not negative,
nobody sleeps on a semaphore with a count, and the assertion in `P` never fails. -/
theorem semaphores_conserve {c : Config} {k : Kernel} {tr : List Event} (h : Reach c Polite k tr) (s : Nat)
    (hint : c.initial_count s < 2 ^ 31) :
    k.g.count s = c.initial_count s + completed (.V s) tr - completed (.P s) tr ∧ 0 ≤ k.g.count s ∧
      (0 < k.g.count s → ∀ t ∈ k.g.sleepers.toList, (k.g.thread t).t_sleepaddr ≠ some (.sem s)) ∧
      ∀ ch, step k ch ≠ .error (.halt .p_count) := by
  have hcount := reach_countInv h hint
  refine ⟨hcount.eq, hcount.nonneg, ?_, fun ch => reach_no_pass_halt h rfl⟩
  intro hpos t ht haddr
  have hon : t ∈ k.g.sleepersOn (.sem s) := List.mem_filter.mpr ⟨ht, by simpa [Globals.sleepsOn] using haddr⟩
  have hzero : k.g.count s = 0 := reach_guardInv h t _ hon
  omega

/-- The first thread sleeps in `P`, and an interrupt in the idle loop calls `V`. -/
theorem semaphores_conserve_idle : ∃ k tr, Reach plainConfig Polite k tr ∧ k.g.curthread = none ∧
    k.g.count 0 = 1 ∧ (∀ t ∈ k.g.sleepers.toList, (k.g.thread t).t_sleepaddr ≠ some (.sem 0)) ∧
    ∀ ch, step k ch ≠ .error (.halt .p_count) := by
  let chs : List Choice :=
    [.call (.P 0), .go [], .go [], .go [], .go [], .go [], .interrupt, .call (.V 0), .go [], .go []]
  obtain ⟨k, tr, hreach, hcheck⟩ := Machine.exists_runOk (M := threads plainConfig) Polite chs
    (fun x => x.1.g.curthread = none ∧ completed (.V 0) x.2 = 1 ∧ completed (.P 0) x.2 = 0)
    ⟨plainConfig_counts, rfl⟩ (by decide +kernel)
  simp only [decide_eq_true_eq] at hcheck
  obtain ⟨hcur, hV, hP⟩ := hcheck
  obtain ⟨hcount, -, hsleepers, hassert⟩ := semaphores_conserve hreach 0 (by decide)
  have hone : k.g.count 0 = 1 := by
    rw [hcount, hV, hP]
    rfl
  exact ⟨k, tr, hreach, hcur, hone, hsleepers (by omega), hassert⟩

end Cpu

end Os161
