import Os161.Thread.Places

/-! # Semaphores and locks

Counts and owners over every run, and that a thread sleeps on a semaphore or a lock only while it has to.
-/

namespace Os161

open Th

/-! ## The assertions after the waiting loops -/

def Halt.pass : Halt → Bool
  | .p_count | .acquire_locked | .acquire_owner => true
  | _ => false

def Spares {α : Type} (m : Th α) : Prop := ∀ s, Prog.Holds (fun p => p.pass = false) m s fun _ _ => True

section Spares

variable {α β : Type} {m : Th α} {p : Halt}

theorem spares_pure (a : α) : Spares (pure a : Th α) := fun _ => Prog.holds_pure trivial

theorem spares_stop (hp : p.pass = false) : Spares (Prog.stop p : Th α) := fun _ => Prog.holds_stop hp

theorem Spares.bind {f : α → Th β} (hm : Spares m) (hf : ∀ a, Spares (f a)) : Spares (m >>= f) := fun s =>
  (hm s).bind (fun a t _ => hf a t) fun _ _ _ => trivial

theorem Spares.attempt (hm : Spares m) : Spares (Prog.attempt m) := fun s => (hm s).attempt fun _ _ _ => trivial

theorem spares_ask (f : Globals → α) : Spares (ask f) := fun _ => .done rfl trivial

theorem spares_change (f : Globals → Globals) : Spares (change f) := fun _ => .done rfl trivial

theorem spares_assert {c : Globals → Prop} [DecidablePred c] (hp : p.pass = false) : Spares (assert c p) := by
  intro s
  by_cases hc : c s.1
  · exact .done (if_pos hc) trivial
  · exact .panic (if_neg hc) hp

theorem spares_current : Spares current := by
  intro s
  cases hcur : s.1.curthread with
  | some cur => exact .done (by rw [current, hcur]) trivial
  | none => exact .panic (by rw [current, hcur]) rfl

theorem Spares.must {m : Th PUnit} (hm : Spares m) (hp : p.pass = false) : Spares (must m p) := by
  intro s
  cases hm s with
  | @done r t run _ =>
    cases r with
    | ok x => exact .done (by rw [Th.must, run]) trivial
    | error e => exact .panic (by rw [Th.must, run]) hp
  | panic run hq => exact .panic (by rw [Th.must, run]) hq

theorem spares_onQueue (m : Queue Tid → Prog QPanic Errno Heap (Queue Tid)) : Spares (onQueue m) := by
  intro s
  unfold onQueue
  rcases hm : m s.1.runqueue s.2 with q | ⟨r, h⟩
  · exact .panic (by rw [hm]) rfl
  · cases r with
    | ok q => exact .done (by rw [hm]) trivial
    | error e => exact .done (by rw [hm]) trivial

theorem spares_onSleepers (m : KArray Tid → Alloc (Except Errno (KArray Tid))) : Spares (onSleepers m) := by
  intro s
  unfold onSleepers
  rcases hm : m s.1.sleepers s.2 with ⟨a | e, h⟩
  · exact .done (by rw [hm]) trivial
  · exact .done (by rw [hm]) trivial

theorem spares_onZombies (m : KArray Tid → Alloc (Except Errno (KArray Tid))) : Spares (onZombies m) := by
  intro s
  unfold onZombies
  rcases hm : m s.1.zombies s.2 with ⟨a | e, h⟩
  · exact .done (by rw [hm]) trivial
  · exact .done (by rw [hm]) trivial

theorem spares_make_runnable (t : Tid) : Spares (make_runnable t) :=
  (spares_assert rfl).bind fun _ => spares_onQueue _

theorem spares_scheduler_next : Spares scheduler_next := by
  intro s
  unfold scheduler_next
  rcases hq : q_remhead s.1.runqueue with p | ⟨t, q⟩
  · exact .panic (by rw [hq]) rfl
  · exact .done (by rw [hq]) trivial

theorem spares_mi_switch (nextstate : ThreadState) : Spares (mi_switch nextstate) := by
  refine (spares_assert rfl).bind fun _ => (spares_ask _).bind fun c => ?_
  cases c with
  | none => exact spares_pure _
  | some cur =>
    refine (spares_change _).bind fun _ => Spares.must ?_ rfl
    cases nextstate with
    | S_READY => exact spares_make_runnable cur
    | S_SLEEP => exact spares_onSleepers fun a => array_add a cur
    | S_ZOMB => exact spares_onZombies fun a => array_add a cur
    | S_RUN => exact spares_stop rfl

theorem spares_thread_sleep (a : Addr) : Spares (thread_sleep a) :=
  (spares_assert rfl).bind fun _ => spares_current.bind fun _ => (spares_change _).bind fun _ => spares_mi_switch _

theorem spares_thread_sleep_end : Spares thread_sleep_end := spares_current.bind fun _ => spares_change _

theorem spares_exit_switch : Spares exit_switch :=
  spares_current.bind fun _ => (spares_assert rfl).bind fun _ => (spares_change _).bind fun _ => spares_mi_switch _

theorem spares_wakeup_loop (a : Addr) (fuel i : Nat) : Spares (wakeup_loop a fuel i) := by
  induction fuel generalizing i with
  | zero => exact spares_pure _
  | succ fuel ih =>
    rw [wakeup_loop]
    refine (spares_ask _).bind fun g => ?_
    split
    · dsimp only
      split
      · exact (spares_change _).bind fun _ => ((spares_make_runnable _).must rfl).bind fun _ => ih i
      · exact ih (i + 1)
    · exact spares_pure _

theorem spares_wakeup_one_loop (a : Addr) (fuel i : Nat) : Spares (wakeup_one_loop a fuel i) := by
  induction fuel generalizing i with
  | zero => exact spares_pure _
  | succ fuel ih =>
    rw [wakeup_one_loop]
    refine (spares_ask _).bind fun g => ?_
    split
    · dsimp only
      split
      · exact (spares_change _).bind fun _ => (spares_make_runnable _).must rfl
      · exact ih (i + 1)
    · exact spares_pure _

theorem spares_thread_wakeup (a : Addr) : Spares (thread_wakeup a) :=
  (spares_assert rfl).bind fun _ => (spares_ask _).bind fun _ => spares_wakeup_loop a _ _

theorem spares_thread_wakeup_one (a : Addr) : Spares (thread_wakeup_one a) :=
  (spares_assert rfl).bind fun _ => (spares_ask _).bind fun _ => spares_wakeup_one_loop a _ _

theorem spares_cv_check (l : Nat) : Spares (cv_check l) := (spares_assert rfl).bind fun _ => spares_assert rfl

theorem spares_exorcise : Spares exorcise := by
  have hloop : ∀ zs, Spares (exorcise_loop zs) := by
    intro zs
    induction zs with
    | nil => exact spares_pure _
    | cons z zs ih => exact (spares_assert rfl).bind fun _ => (spares_assert rfl).bind fun _ => ih
  exact (spares_assert rfl).bind fun _ => (spares_ask _).bind fun zs => (hloop zs).bind fun _ =>
    (spares_onZombies _).must rfl

theorem spares_hardclock_tick : Spares hardclock_tick := by
  refine (spares_ask _).bind fun n => ?_
  split
  · exact (spares_change _).bind fun _ => spares_thread_wakeup _
  · exact spares_change _

theorem spares_fork_create : Spares fork_create := by
  intro s
  have hends : ∃ r t, fork_create s = .ok (r, t) := by
    unfold fork_create
    repeat' split
    all_goals exact ⟨_, _, rfl⟩
  obtain ⟨r, t, hrun⟩ := hends
  exact .done hrun trivial

theorem spares_fork_link (cwd : Option Nat) : Spares (fork_link cwd) :=
  (spares_ask _).bind fun _ => (spares_onSleepers _).bind fun _ => (spares_onZombies _).bind fun _ =>
    Spares.bind ((spares_assert rfl).bind fun _ => spares_onQueue _) fun _ => (spares_ask _).bind fun t =>
    (spares_make_runnable t).bind fun _ => (spares_change _).bind fun _ => spares_pure _

theorem spares_exit_cwd : Spares exit_cwd := by
  refine spares_current.bind fun cur => (spares_ask _).bind fun cwd => ?_
  cases cwd with
  | none => exact spares_pure _
  | some v => exact Spares.bind ((spares_assert rfl).bind fun _ => spares_change _) fun _ => spares_change _

end Spares

/-! ## Sleepers -/

def Addr.primitive : Addr → Bool
  | .sem _ | .lock _ | .cv _ => true
  | _ => false

def Globals.Guards (g : Globals) : Addr → Prop
  | .sem s => g.count s = 0
  | .lock l => (g.lock l).locked = 1
  | _ => True

theorem mem_asleep {g : Globals} {t : Tid} {a : Addr} : (t, some a) ∈ g.asleep ↔ t ∈ g.sleepersOn a := by
  rw [Globals.asleep, Globals.sleepersOn, List.mem_map, List.mem_filter]
  constructor
  · rintro ⟨u, hu, heq⟩
    obtain ⟨rfl, ha⟩ := Prod.mk.inj heq
    exact ⟨hu, by simpa [Globals.sleepsOn] using ha⟩
  · rintro ⟨ht, ha⟩
    exact ⟨t, ht, by simpa [Globals.sleepsOn] using ha⟩

theorem Woke.none_left {g g' : Globals} {a : Addr} (h : Woke a g g') : g'.sleepersOn a = [] := by
  have hon : g'.sleepsOn a = g.sleepsOn a := by
    funext t
    rw [Globals.sleepsOn, Globals.sleepsOn, h.same]
  rw [Globals.sleepersOn, hon, h.sleepers, List.filter_filter, List.filter_eq_nil_iff]
  intro t _
  simp

namespace Cpu

open Machine (Any)

theorem spares_run_act (t : Tid) (f : Frame) (a : Act) : Spares (run_act t f a) := by
  cases a with
  | V_post s =>
    exact Spares.bind ((spares_change _).bind fun _ => (spares_assert rfl).bind fun _ => spares_thread_wakeup _)
      fun _ => spares_pure _
  | lock_drop l =>
    exact Spares.bind ((spares_assert rfl).bind fun _ => (spares_assert rfl).bind fun _ =>
      (spares_change _).bind fun _ => spares_thread_wakeup _) fun _ => spares_pure _
  | lock_read l => exact (spares_ask _).bind fun _ => spares_pure _
  | cv_check c l => exact (spares_cv_check l).bind fun _ => spares_pure _
  | cv_wake_one c l =>
    exact (spares_cv_check l).bind fun _ => (spares_ask _).bind fun _ => (spares_thread_wakeup_one _).bind fun _ =>
      (spares_ask _).bind fun _ => spares_pure _
  | cv_wake c l =>
    exact (spares_cv_check l).bind fun _ => (spares_ask _).bind fun _ => (spares_thread_wakeup _).bind fun _ =>
      (spares_ask _).bind fun _ => spares_pure _
  | wakeup a => exact (spares_thread_wakeup a).bind fun _ => spares_pure _
  | wakeup_one a => exact (spares_thread_wakeup_one a).bind fun _ => spares_pure _
  | exorcise => exact (spares_ask _).bind fun _ => spares_exorcise.bind fun _ => spares_pure _
  | read_numthreads => exact (spares_ask _).bind fun _ => spares_pure _
  | tick => exact spares_hardclock_tick.bind fun _ => spares_pure _
  | fork_create =>
    refine spares_fork_create.attempt.bind fun r => ?_
    cases r with
    | ok x => exact spares_pure _
    | error e => exact spares_pure _
  | fork_incref =>
    refine spares_current.bind fun cur => (spares_ask _).bind fun cwd => ?_
    cases cwd with
    | none => exact spares_pure _
    | some v => exact (spares_change _).bind fun _ => spares_pure _
  | fork_link =>
    refine (spares_fork_link _).attempt.bind fun r => ?_
    cases r with
    | ok x => exact spares_pure _
    | error e => exact spares_pure _
  | fork_return => exact spares_pure _
  | fork_fail =>
    rw [run_act]
    cases f.cwd with
    | none => exact spares_pure _
    | some v => exact Spares.bind ((spares_assert rfl).bind fun _ => spares_change _) fun _ => spares_pure _
  | exit_cwd => exact spares_exit_cwd.bind fun _ => spares_pure _

theorem onGlobals_halt {α : Type} {k : Kernel} {mem : Heap} {m : Th α}
    {next : α → Globals → Except Stop (Kernel × List Event)} {p : Halt} (hm : Spares m)
    (hnext : ∀ x g, next x g ≠ .error (.halt p)) (h : onGlobals k mem m next = .error (.halt p)) : p.pass = false := by
  unfold onGlobals at h
  cases hm (k.g, mem) with
  | @done r t run _ =>
    rw [run] at h
    cases r with
    | ok x => exact absurd h (hnext x t.1)
    | error e => cases h
  | panic run hp =>
    rw [run] at h
    cases h
    exact hp

theorem step_pass_halt {k : Kernel} {ch : Choice} {p : Halt} (h : step k ch = .error (.halt p)) (hp : p.pass = true) :
    ∃ f bs x rest mem, k.stack k.on = f :: bs ∧ f.code = .loop x :: rest ∧ x.waits k.g f = false ∧
      x.pass (k.g, mem) = .error p := by
  have hspared : ∀ {α : Type} {mem : Heap} {m : Th α} {next : α → Globals → Except Stop (Kernel × List Event)},
      Spares m → (∀ x g, next x g ≠ .error (.halt p)) → onGlobals k mem m next ≠ .error (.halt p) := by
    intro α mem m next hm hnext hrun
    cases (onGlobals_halt hm hnext hrun).symm.trans hp
  cases ch with
  | interrupt =>
    simp only [step] at h
    split at h <;> cases h
  | call c =>
    simp only [step] at h
    split at h
    · cases h
    · split at h <;> cases h
  | done =>
    simp only [step] at h
    split at h
    · cases h
    · split at h <;> cases h
  | go mem =>
    simp only [step] at h
    split at h
    · cases h
    rename_i f bs hs
    split at h
    · cases bs with
      | nil =>
        cases h
        cases hp
      | cons c bs => cases h
    rename_i i rest hc
    cases i with
    | loop x =>
      simp only [exec] at h
      split at h
      · exact absurd h (hspared (spares_thread_sleep _) (by simp))
      · rename_i hw
        refine ⟨f, bs, x, rest, mem, hs, hc, by simpa using hw, ?_⟩
        unfold onGlobals at h
        split at h
        · cases h
        · cases h
        · rename_i hrun
          cases h
          exact hrun
    | act a => exact absurd h (hspared (spares_run_act _ _ _) (by simp))
    | sleep a => exact absurd h (hspared (spares_thread_sleep _) (by simp))
    | zz a => exact absurd h (hspared (spares_thread_sleep _) (by simp))
    | unzz => exact absurd h (hspared spares_thread_sleep_end (by simp))
    | exit_switch => exact absurd h (hspared spares_exit_switch (by simp))
    | switch =>
      refine absurd h (hspared (spares_mi_switch _) fun x g => ?_)
      split <;> simp
    | nonint =>
      simp only [exec] at h
      split at h
      · cases h
        cases hp
      · cases h
    | schedule =>
      simp only [exec] at h
      split at h
      · cases h
        cases hp
      · split at h
        · cases h
        · exact absurd h (hspared spares_scheduler_next (by simp))
    | idle_on =>
      simp only [exec] at h
      split at h
      · cases h
        cases hp
      · cases h
    | dead =>
      cases h
      cases hp
    | splhigh => cases h
    | irq => cases h
    | setspl => cases h
    | call c => cases h
    | idle_off => cases h
    | leave => cases h
    | prog => cases h
    | service => cases h

/-! ## What a step does with the counts and the locks -/

def Call.sync : Call → Bool
  | .P _ | .V _ | .lock_acquire _ | .lock_release _ => true
  | _ => false

def Event.sync : Event → Bool
  | .effect _ c => c.sync
  | _ => false

inductive Resynced (k : Kernel) (g' : Globals) : List Event → Prop where
  | same (hcount : g'.count = k.g.count) (hlock : g'.lock = k.g.lock) : Resynced k g' []
  | P {s : Nat} (hpos : 0 < k.g.count s) (h : g' = set_count s (k.g.count s - 1) k.g) :
      Resynced k g' [.effect k.on (.P s)]
  | V {s : Nat} (hpos : 0 < Words.toI32 (k.g.count s + 1))
      (h : Woke (.sem s) (set_count s (Words.toI32 (k.g.count s + 1)) k.g) g') : Resynced k g' [.effect k.on (.V s)]
  | acquire {l : Nat} (hnext : k.next = some (.loop (.lock_acquire l))) (hfree : k.g.lock l = ⟨0, none⟩)
      (h : g' = set_lock l ⟨1, some k.on⟩ k.g) : Resynced k g' [.effect k.on (.lock_acquire l)]
  | release {l : Nat} (hnext : k.next = some (.act (.lock_drop l))) (hheld : k.g.lock l = ⟨1, some k.on⟩)
      (h : Woke (.lock l) (set_lock l ⟨0, none⟩ k.g) g') : Resynced k g' [.effect k.on (.lock_release l)]

section Steps

variable {k k' : Kernel} {ch : Choice} {es tr : List Event}

theorem effects_sync {t : Tid} {f : Frame} (h : f.call.sync = false) : (effects t f).filter Event.sync = [] := by
  unfold effects
  split
  · simp [Event.sync, h]
  · rfl

theorem effects_eq {t : Tid} {f f' : Frame} {i : Instr} {rest : List Instr} (hwf : Wf f) (hc : f.code = i :: rest)
    (hi : (∃ x, i = .loop x) ∨ ∃ a, i = .act a) (hsync : f.call.sync = true) (hcall : f'.call = f.call)
    (hcode : f'.code = rest) : (effects t f').filter Event.sync = [.effect t f.call] := by
  have hrest : rest = [.irq, .setspl] := by
    have hsuf := hwf.code
    rw [hc] at hsuf
    cases hf : f.call with
    | P s | V s | lock_acquire l | lock_release l =>
      rw [hf] at hsuf
      simp only [body, List.suffix_cons_iff, List.cons.injEq, List.suffix_nil] at hsuf
      rcases hi with ⟨x, rfl⟩ | ⟨a, rfl⟩ <;> simp_all
    | _ => rw [hf] at hsync; cases hsync
  unfold effects
  rw [hcode, hrest, if_pos rfl, hcall]
  simp [Event.sync, hsync]

theorem goto_g (k : Kernel) (g : Globals) (fs : List Frame) : (k.goto g fs).g = g := rfl

theorem ActSpec.unsynced {g g' : Globals} {t : Tid} {f f' : Frame} {a : Act} (h : ActSpec g t f g' f' es a)
    (ha : a.home.sync = false) : g'.count = g.count ∧ g'.lock = g.lock := by
  cases a with
  | V_post s => cases ha
  | lock_drop l => cases ha
  | lock_read l | read_numthreads | fork_create | fork_return =>
    obtain ⟨rfl, -⟩ := h
    exact ⟨rfl, rfl⟩
  | cv_check c l =>
    obtain ⟨-, -, rfl, -⟩ := h
    exact ⟨rfl, rfl⟩
  | cv_wake_one c l =>
    obtain ⟨-, -, -, hw, -⟩ := h
    rw [hw.same]
    exact ⟨rfl, rfl⟩
  | cv_wake c l =>
    obtain ⟨-, -, -, hw, -⟩ := h
    rw [hw.same]
    exact ⟨rfl, rfl⟩
  | wakeup x =>
    obtain ⟨-, hw, -⟩ := h
    rw [hw.same]
    exact ⟨rfl, rfl⟩
  | wakeup_one x =>
    obtain ⟨-, hw, -⟩ := h
    rw [hw.same]
    exact ⟨rfl, rfl⟩
  | exorcise =>
    obtain ⟨-, hg, -⟩ := h
    rw [hg]
    exact ⟨rfl, rfl⟩
  | tick =>
    obtain ⟨⟨n, rfl⟩ | ⟨-, hw⟩, -⟩ := h
    · exact ⟨rfl, rfl⟩
    · rw [hw.same]
      exact ⟨rfl, rfl⟩
  | fork_incref =>
    obtain ⟨⟨cur, -, ⟨-, rfl, -⟩ | ⟨v, -, rfl, -⟩⟩, -⟩ := h
    · exact ⟨rfl, rfl⟩
    · exact ⟨rfl, rfl⟩
  | fork_link =>
    obtain ⟨hl, -⟩ | ⟨hg, -⟩ := h
    · rw [hl.same]
      exact ⟨rfl, rfl⟩
    · rw [hg.same]
      exact ⟨rfl, rfl⟩
  | fork_fail =>
    obtain ⟨⟨-, rfl, -⟩ | ⟨v, -, -, rfl, -⟩, -⟩ := h
    · exact ⟨rfl, rfl⟩
    · exact ⟨rfl, rfl⟩
  | exit_cwd =>
    obtain ⟨⟨cur, -, rfl | ⟨v, -, rfl⟩⟩, -⟩ := h
    · exact ⟨rfl, rfl⟩
    · exact ⟨rfl, rfl⟩

theorem ActSpec.events_sync {g g' : Globals} {t : Tid} {f f' : Frame} {a : Act} (h : ActSpec g t f g' f' es a) :
    es.filter Event.sync = [] := by
  rw [List.filter_eq_nil_iff]
  cases a with
  | fork_link =>
    rcases h with ⟨-, -, rfl⟩ | ⟨-, -, rfl⟩
    · simp [Event.sync]
    · simp
  | _ =>
    simp only [ActSpec] at h
    simp_all [Event.sync]

theorem ActSpec.resynced (hsp : SplInv k) (hsw : SwInv k) {f f' : Frame} {bs : List Frame} {a : Act}
    {rest : List Instr} {g' : Globals} (hs : k.stack k.on = f :: bs) (hc : f.code = .act a :: rest)
    (h : ActSpec k.g k.on { f with code := rest } g' f' es a) :
    Resynced k g' ((effects k.on f' ++ es).filter Event.sync) := by
  have hwf := hsp.wf_top hs
  have hhome : f.call = a.home := (hwf.checked hc).2
  obtain ⟨hcall, -, -, -, hcode, -⟩ := h.frame
  have hcall : f'.call = f.call := hcall
  rw [List.filter_append, h.events_sync, List.append_nil]
  cases hsync : a.home.sync with
  | false =>
    rw [effects_sync (by rw [hcall, hhome, hsync])]
    obtain ⟨hcount, hlock⟩ := h.unsynced hsync
    exact .same hcount hlock
  | true =>
    have hcode : f'.code = rest := by
      rcases hcode with hcode | ⟨-, hfork⟩
      · exact hcode
      · rw [hfork] at hsync
        cases hsync
    rw [effects_eq hwf hc (.inr ⟨a, rfl⟩) (hhome ▸ hsync) hcall hcode, hhome]
    cases a with
    | V_post s =>
      obtain ⟨hpos, -, hw, -⟩ := h
      exact .V hpos hw
    | lock_drop l =>
      obtain ⟨hlocked, howner, -, hw, -⟩ := h
      have hcur := hsw.curthread hsp hs (by rw [hhome]; rfl)
      refine .release (next_eq hs hc) ?_ hw
      rw [← hcur, ← howner, ← hlocked]
    | _ => cases hsync

theorem moves_resynced (hsp : SplInv k) (hsw : SwInv k) (hm : Moves k ch k' es) :
    Resynced k k'.g (es.filter Event.sync) := by
  cases hm with
  | interrupt | ret | call | skip | splhigh | irq | setspl | idle_on | idle_off | leave | unzz => exact .same rfl rfl
  | act hs hc ha => exact ha.resynced hsp hsw hs hc
  | @pass f bs x rest g' mem mem' u hs hc hw hp =>
    have hwf := hsp.wf_top hs
    have hfits := (hwf.checked hc).2
    have hp := pass_spec hp
    have heff (hsync : f.call.sync = true) : (effects k.on { f with code := rest }).filter Event.sync =
        [.effect k.on f.call] := effects_eq hwf hc (.inl ⟨x, rfl⟩) hsync rfl rfl
    cases x with
    | P s =>
      have hcall : f.call = .P s := hfits
      rw [heff (by rw [hcall]; rfl), hcall]
      exact .P hp.1 hp.2
    | lock_acquire l =>
      have hcall : f.call = .lock_acquire l := hfits
      have hcur := hsw.curthread hsp hs (by rw [hcall]; rfl)
      rw [heff (by rw [hcall]; rfl), hcall]
      exact .acquire (next_eq hs hc) hp.1 (hcur ▸ hp.2)
    | clocksleep =>
      obtain ⟨n, hn⟩ := hfits
      have hg : g' = k.g := hp
      rw [effects_sync (by rw [hn]; rfl)]
      exact .same (congrArg Globals.count hg) (congrArg Globals.lock hg)
  | sleep hs hc hi hg | zz hs hc hg => exact .same (by rw [goto_g, hg.same]; rfl) (by rw [goto_g, hg.same]; rfl)
  | switch hs hc hg | exit hs hc hg => exact .same (by rw [goto_g, hg.same]) (by rw [goto_g, hg.same])
  | @schedule f bs rest nu g' hs hc hg =>
    obtain ⟨b, hb⟩ := md_switch_g (k.goto g' ({ f with code := rest } :: bs)) nu
    exact .same (by rw [hb, goto_g, hg.same]) (by rw [hb, goto_g, hg.same])

end Steps

/-! ## Who sleeps on what -/

def Instr.bare : Instr → Option Addr
  | .zz a | .act (.wakeup a) | .act (.wakeup_one a) => some a
  | _ => none

/-- Code outside the thread system does not sleep on a primitive by itself, and does not wake its threads. -/
def Polite (_ : Kernel) : Choice → Prop
  | .call (.thread_sleep a) | .call (.thread_wakeup a) | .call (.thread_wakeup_one a) => a.primitive = false
  | _ => True

instance (k : Kernel) (ch : Choice) : Decidable (Polite k ch) := by
  unfold Polite
  split <;> infer_instance

section Polite

variable {k k' : Kernel} {ch : Choice} {es tr : List Event} {f x : Frame} {i : Instr} {rest : List Instr} {a : Addr}

theorem Wf.bare (hwf : Wf f) (hc : f.code = i :: rest) (hi : i.bare = some a) :
    f.call = .thread_sleep a ∨ f.call = .thread_wakeup a ∨ f.call = .thread_wakeup_one a := by
  have hfits := (hwf.checked hc).2
  cases i with
  | zz b =>
    obtain rfl := Option.some.inj hi
    exact .inl hfits
  | act x =>
    cases x with
    | wakeup b =>
      obtain rfl := Option.some.inj hi
      exact .inr (.inl hfits)
    | wakeup_one b =>
      obtain rfl := Option.some.inj hi
      exact .inr (.inr hfits)
    | _ => cases hi
  | _ => cases hi

theorem not_bare_rest {j : Instr} (hwf : Wf f) (hc : f.code = i :: j :: rest) : j.bare = none := by
  by_contra hne
  obtain ⟨a, ha⟩ := Option.ne_none_iff_exists'.mp hne
  have hsuf := hwf.code
  have hwf' : Wf { f with code := j :: rest } :=
    hwf.advance rfl rfl hwf.spl (by rw [hc]; exact List.suffix_cons _ _) fun _ => by simp
  rcases hwf'.bare rfl ha with hf | hf | hf
  all_goals
    have hf : f.call = _ := hf
    have hlen := hsuf.length_le
    rw [hf, hc] at hsuf hlen
    simp only [body, List.suffix_cons_iff, List.cons.injEq, List.suffix_nil] at hsuf
    simp_all [Instr.bare]

theorem moves_bare (hsp : SplInv k) (hm : Moves k ch k' es) {t : Tid} (hx : x ∈ k'.stack t) (hc : x.code = i :: rest)
    (hi : i.bare = some a) : (∃ y ∈ k.stack t, y.code = i :: rest) ∨
      ch = .call (.thread_sleep a) ∨ ch = .call (.thread_wakeup a) ∨ ch = .call (.thread_wakeup_one a) := by
  have hwfx := (moves_splInv hsp hm).wf t x hx
  -- nothing has run up to such an instruction
  have hnot : ∀ {f : Frame} {j : Instr} {l : List Instr}, Wf f → f.code = j :: l → l ≠ i :: rest := by
    rintro f j l hwf hcode rfl
    cases (not_bare_rest hwf hcode).symm.trans hi
  rcases moves_frames hm hx with hold | ⟨rfl, hcomes⟩
  · exact .inl ⟨x, hold, hc⟩
  cases hcomes with
  | old hold => exact .inl ⟨x, hold, hc⟩
  | fresh hfresh =>
    cases hfresh with
    | @call f bs j l c hs hcode hcalls hj =>
      have hbare := hwfx.bare hc hi
      rw [enter_call] at hbare
      have hfits := ((hsp.wf_top hs).checked hcode).2
      rcases hj with ⟨-, rfl⟩ | rfl | rfl | rfl
      · exact .inr (by simpa using hbare)
      · rcases hbare with rfl | rfl | rfl
        all_goals cases hcalls
      · rcases hfits with ⟨-, rfl⟩ | ⟨-, rfl⟩ | ⟨v, l, -, rfl | rfl⟩
        all_goals simp at hbare
      · rcases hbare with rfl | rfl | rfl
        all_goals simp [Instr.calls] at hcalls
    | switch =>
      rw [enter_code, body] at hc
      obtain ⟨rfl, -⟩ := List.cons.inj hc
      cases hi
    | asleep b =>
      obtain ⟨rfl, -⟩ := List.cons.inj hc
      cases hi
    | interrupt hcall hcode =>
      rw [hcode, body] at hc
      obtain ⟨rfl, -⟩ := List.cons.inj hc
      cases hi
  | @resumed f c bs hs hcode hxc =>
    have hmem : c ∈ k.stack k.on := by rw [hs]; simp
    subst hxc
    cases hcc : c.code with
    | nil =>
      rw [Frame.resume, hcc] at hc
      exact .inl ⟨c, hmem, hc⟩
    | cons j l =>
      simp only [Frame.resume, hcc] at hc
      split at hc
      · exact .inl ⟨c, hmem, hc⟩
      · exact absurd hc (hnot (hsp.wf _ c hmem) hcc)
  | @altered f bs hs halt =>
    have hwf := hsp.wf_top hs
    cases halt with
    | next hcode => exact absurd hc (hnot hwf hcode)
    | turn n => exact .inl ⟨f, by rw [hs]; simp, hc⟩
    | act hcode ha =>
      obtain ⟨-, -, -, -, hcode' | ⟨hcode', -⟩, -⟩ := ha.frame
      · exact absurd (hcode'.symm.trans hc) (hnot hwf hcode)
      · rw [hcode'] at hc
        cases hc

def PoliteInv (k : Kernel) : Prop :=
  ∀ t, ∀ f ∈ k.stack t, ∀ i rest a, f.code = i :: rest → i.bare = some a → a.primitive = false

theorem reach_politeInv {c : Config} (h : Reach c Polite k tr) : PoliteInv k := by
  refine Machine.Reach.invariant (I := fun k _ => PoliteInv k) ?_ ?_ h
  · rintro _ ⟨-, rfl⟩ t f hf i rest a hc hi
    have hcode : f.code = body .boot ∨ f.code = body .mi_threadstart := by
      have hf : f ∈ firstStack t := hf
      unfold firstStack at hf
      split at hf
      · rw [List.mem_singleton.mp hf]
        exact .inl rfl
      · rw [List.mem_singleton.mp hf]
        exact .inr rfl
    rcases hcode with hcode | hcode
    all_goals
      rw [hcode, body] at hc
      obtain ⟨rfl, -⟩ := List.cons.inj hc
      cases hi
  · intro k k' ch _ es hr hk hok hs t f hf i rest a hc hi
    rcases moves_bare (reach_splInv hr) (step_moves hs) hf hc hi with ⟨y, hy, hcy⟩ | rfl | rfl | rfl
    · exact hk t y hy i rest a hcy hi
    · exact hok
    · exact hok
    · exact hok

end Polite

end Cpu

end Os161
