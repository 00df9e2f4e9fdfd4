import Os161.Thread.Specs

/-! # What a step of the machine can be -/

namespace Os161.Cpu

open Th

/-! ## Acts -/

def ActSpec (g : Globals) (t : Tid) (f : Frame) (g' : Globals) (f' : Frame) (es : List Event) : Act → Prop
  | .V_post s =>
    0 < Words.toI32 (g.count s + 1) ∧ 0 < g.curspl ∧
      Woke (.sem s) (set_count s (Words.toI32 (g.count s + 1)) g) g' ∧ f' = f ∧ es = []
  | .lock_drop l =>
    (g.lock l).locked = 1 ∧ (g.lock l).owner = g.curthread ∧ 0 < g.curspl ∧
      Woke (.lock l) (set_lock l ⟨0, none⟩ g) g' ∧ f' = f ∧ es = []
  | .lock_read l =>
    g' = g ∧ f' = { f with val := decide ((g.lock l).locked ≠ 0 ∧ (g.lock l).owner = g.curthread) } ∧ es = []
  | .cv_check c l =>
    (g.lock l).locked = 1 ∧ (g.lock l).owner = g.curthread ∧ g' = g ∧ f' = f ∧ es = [.wait t c l f.start]
  | .cv_wake_one c l =>
    (g.lock l).locked = 1 ∧ (g.lock l).owner = g.curthread ∧ 0 < g.curspl ∧ WokeOne (.cv c) g g' ∧ f' = f ∧
      es = [.signal c l (removed g g')]
  | .cv_wake c l =>
    (g.lock l).locked = 1 ∧ (g.lock l).owner = g.curthread ∧ 0 < g.curspl ∧ Woke (.cv c) g g' ∧ f' = f ∧
      es = [.broadcast c l (removed g g')]
  | .wakeup a => 0 < g.curspl ∧ Woke a g g' ∧ f' = f ∧ es = []
  | .wakeup_one a => 0 < g.curspl ∧ WokeOne a g g' ∧ f' = f ∧ es = []
  | .exorcise =>
    0 < g.curspl ∧ g' = { g with zombies := g'.zombies } ∧ g'.zombies.toList = [] ∧
      g'.zombies.max = (if g.zombies.max > 16 then 0 else g.zombies.max) ∧ f' = f ∧
      es = g.zombies.toList.map .destroyed
  | .read_numthreads => g' = g ∧ f' = { f with val := decide (g.numthreads = 1) } ∧ es = []
  | .tick =>
    ((∃ n, g' = { g with lbolt_counter := n }) ∨ 0 < g.curspl ∧ Woke .lbolt { g with lbolt_counter := 0 } g') ∧
      f' = f ∧ es = []
  | .fork_create => g' = g ∧ (f' = f ∨ ∃ e, f' = { f with result := some e, code := [] }) ∧ es = []
  | .fork_incref =>
    (∃ cur, g.curthread = some cur ∧
      ((g.thread cur).t_cwd = none ∧ g' = g ∧ f' = f ∨
        ∃ v, (g.thread cur).t_cwd = some v ∧ g' = set_refcount v (g.vn_refcount v + 1) g ∧
          f' = { f with cwd := some v })) ∧ es = []
  | .fork_link =>
    Linked f.cwd g g' ∧ f' = f ∧ es = [.forked g.nextthread] ∨
      Grown g g' ∧ (∃ e, f' = { f with result := some e }) ∧ es = []
  | .fork_return => g' = g ∧ f' = (if f.result = none then { f with code := [] } else f) ∧ es = []
  | .fork_fail =>
    (f.cwd = none ∧ g' = g ∧ f' = f ∨ ∃ v, f.cwd = some v ∧ 0 < g.vn_refcount v ∧
      g' = set_refcount v (g.vn_refcount v - 1) g ∧ f' = { f with cwd := none }) ∧ es = []
  | .exit_cwd =>
    (∃ cur, g.curthread = some cur ∧ (g' = g ∨ ∃ v, (g.thread cur).t_cwd = some v ∧
      g' = { set_refcount v (g.vn_refcount v - 1) g with
        thread := Function.update g.thread cur { g.thread cur with t_cwd := none } })) ∧ f' = f ∧ es = []

def Event.ofAct : Event → Bool
  | .effect .. | .wait .. | .signal .. | .broadcast .. | .forked _ | .destroyed _ => true
  | _ => false

theorem effects_ofAct {t : Tid} {f : Frame} : ∀ e ∈ effects t f, e.ofAct = true := by
  unfold effects
  split <;> simp [Event.ofAct]

theorem ActSpec.events {g g' : Globals} {t : Tid} {f f' : Frame} {es : List Event} {a : Act}
    (h : ActSpec g t f g' f' es a) : ∀ e ∈ effects t f' ++ es, e.ofAct = true := by
  suffices hes : ∀ e ∈ es, e.ofAct = true by
    intro e he
    rcases List.mem_append.mp he with he | he
    · exact effects_ofAct e he
    · exact hes e he
  cases a <;> simp only [ActSpec] at h <;> try simp_all [Event.ofAct]
  case fork_link =>
    rcases h with ⟨-, -, rfl⟩ | ⟨-, -, rfl⟩
    · simp
    · simp

theorem exorcise_loop_spec {zs : List Tid} {s s' : Globals × Heap} {x : PUnit}
    (hr : exorcise_loop zs s = .ok (.ok x, s')) : s' = s := by
  induction zs with
  | nil => exact (Prog.pure_eq_ok.mp hr).2
  | cons z zs ih =>
    simp only [exorcise_loop, thread_destroy, Prog.bind_eq_ok, assert_eq_ok] at hr
    obtain ⟨_, _, ⟨-, rfl⟩, _, _, ⟨-, rfl⟩, hr⟩ := hr
    exact ih hr

theorem exorcise_spec {g g' : Globals} {h h' : Heap} {x : PUnit}
    (hr : exorcise (g, h) = .ok (.ok x, (g', h'))) :
    0 < g.curspl ∧ g' = { g with zombies := g'.zombies } ∧ g'.zombies.toList = [] ∧
      g'.zombies.max = (if g.zombies.max > 16 then 0 else g.zombies.max) := by
  simp only [exorcise, Prog.bind_eq_ok, assert_eq_ok, ask_eq_ok, must_eq_ok, onZombies_eq_ok] at hr
  obtain ⟨_, _, ⟨hspl, rfl⟩, _, _, ⟨rfl, rfl⟩, _, _, hl, z, _, hz, heq⟩ := hr
  cases exorcise_loop_spec hl
  cases heq
  obtain ⟨b, hb, hnum, hmax⟩ := array_setsize_zero g.zombies h
  cases hb.symm.trans hz
  exact ⟨hspl, rfl, by simp [KArray.toList, hnum], hmax⟩

theorem hardclock_tick_spec {g g' : Globals} {h h' : Heap} {x : PUnit}
    (hr : hardclock_tick (g, h) = .ok (.ok x, (g', h'))) :
    (∃ n, g' = { g with lbolt_counter := n }) ∨ 0 < g.curspl ∧ Woke .lbolt { g with lbolt_counter := 0 } g' := by
  simp only [hardclock_tick, Prog.bind_eq_ok, ask_eq_ok] at hr
  obtain ⟨_, _, ⟨rfl, rfl⟩, hr⟩ := hr
  split at hr
  · simp only [Prog.bind_eq_ok, change_eq_ok] at hr
    obtain ⟨_, _, rfl, hw⟩ := hr
    exact .inr (thread_wakeup_spec hw)
  · rw [change_eq_ok] at hr
    exact .inl ⟨_, (Prod.mk.inj hr).1⟩

theorem run_act_spec {g g' : Globals} {h h' : Heap} {t : Tid} {f f' : Frame} {es : List Event} {a : Act}
    (hr : run_act t f a (g, h) = .ok (.ok (f', es), (g', h'))) : ActSpec g t f g' f' es a := by
  cases a with
  | V_post s =>
    simp only [run_act, V_post, Prog.bind_eq_ok, change_eq_ok, assert_eq_ok, Prog.pure_eq_ok] at hr
    obtain ⟨_, ⟨g₁, _⟩, ⟨_, _, rfl, _, _, ⟨hpos, rfl⟩, hw⟩, hf, heq⟩ := hr
    cases hf; cases heq
    have hcount : (set_count s (Words.toI32 (g.count s + 1)) g).count s = Words.toI32 (g.count s + 1) :=
      Function.update_self ..
    obtain ⟨hspl, hw⟩ := thread_wakeup_spec hw
    exact ⟨hcount ▸ hpos, hspl, hw, rfl, rfl⟩
  | lock_drop l =>
    simp only [run_act, lock_drop, Prog.bind_eq_ok, change_eq_ok, assert_eq_ok, Prog.pure_eq_ok] at hr
    obtain ⟨_, ⟨g₁, _⟩, ⟨_, _, ⟨hl, rfl⟩, _, _, ⟨ho, rfl⟩, _, _, rfl, hw⟩, hf, heq⟩ := hr
    cases hf; cases heq
    obtain ⟨hspl, hw⟩ := thread_wakeup_spec hw
    exact ⟨hl, ho, hspl, hw, rfl, rfl⟩
  | lock_read l =>
    simp only [run_act, Prog.bind_eq_ok, ask_eq_ok, Prog.pure_eq_ok] at hr
    obtain ⟨_, _, ⟨rfl, rfl⟩, hf, heq⟩ := hr
    cases hf; cases heq
    exact ⟨rfl, rfl, rfl⟩
  | cv_check c l =>
    simp only [run_act, cv_check, Prog.bind_eq_ok, assert_eq_ok, Prog.pure_eq_ok] at hr
    obtain ⟨_, _, ⟨_, _, ⟨hl, rfl⟩, ho, rfl⟩, hf, heq⟩ := hr
    cases hf; cases heq
    exact ⟨hl, ho, rfl, rfl, rfl⟩
  | cv_wake_one c l =>
    simp only [run_act, cv_check, Prog.bind_eq_ok, assert_eq_ok, ask_eq_ok, Prog.pure_eq_ok, id_eq] at hr
    obtain ⟨_, _, ⟨_, _, ⟨hl, rfl⟩, ho, rfl⟩, _, _, ⟨rfl, rfl⟩, _, ⟨g₁, _⟩, hw, _, _, ⟨rfl, rfl⟩, hf, heq⟩ := hr
    cases hf; cases heq
    obtain ⟨hspl, hw⟩ := thread_wakeup_one_spec hw
    exact ⟨hl, ho, hspl, hw, rfl, rfl⟩
  | cv_wake c l =>
    simp only [run_act, cv_check, Prog.bind_eq_ok, assert_eq_ok, ask_eq_ok, Prog.pure_eq_ok, id_eq] at hr
    obtain ⟨_, _, ⟨_, _, ⟨hl, rfl⟩, ho, rfl⟩, _, _, ⟨rfl, rfl⟩, _, ⟨g₁, _⟩, hw, _, _, ⟨rfl, rfl⟩, hf, heq⟩ := hr
    cases hf; cases heq
    obtain ⟨hspl, hw⟩ := thread_wakeup_spec hw
    exact ⟨hl, ho, hspl, hw, rfl, rfl⟩
  | wakeup a =>
    simp only [run_act, Prog.bind_eq_ok, Prog.pure_eq_ok] at hr
    obtain ⟨_, ⟨g₁, _⟩, hw, hf, heq⟩ := hr
    cases hf; cases heq
    obtain ⟨hspl, hw⟩ := thread_wakeup_spec hw
    exact ⟨hspl, hw, rfl, rfl⟩
  | wakeup_one a =>
    simp only [run_act, Prog.bind_eq_ok, Prog.pure_eq_ok] at hr
    obtain ⟨_, ⟨g₁, _⟩, hw, hf, heq⟩ := hr
    cases hf; cases heq
    obtain ⟨hspl, hw⟩ := thread_wakeup_one_spec hw
    exact ⟨hspl, hw, rfl, rfl⟩
  | exorcise =>
    simp only [run_act, Prog.bind_eq_ok, ask_eq_ok, Prog.pure_eq_ok] at hr
    obtain ⟨_, _, ⟨rfl, rfl⟩, _, ⟨g₁, _⟩, hx, hf, heq⟩ := hr
    cases hf; cases heq
    obtain ⟨hspl, hsame, hz, hmax⟩ := exorcise_spec hx
    exact ⟨hspl, hsame, hz, hmax, rfl, rfl⟩
  | read_numthreads =>
    simp only [run_act, Prog.bind_eq_ok, ask_eq_ok, Prog.pure_eq_ok] at hr
    obtain ⟨_, _, ⟨rfl, rfl⟩, hf, heq⟩ := hr
    cases hf; cases heq
    exact ⟨rfl, rfl, rfl⟩
  | tick =>
    simp only [run_act, Prog.bind_eq_ok, Prog.pure_eq_ok] at hr
    obtain ⟨_, ⟨g₁, _⟩, hk, hf, heq⟩ := hr
    cases hf; cases heq
    exact ⟨hardclock_tick_spec hk, rfl, rfl⟩
  | fork_create =>
    simp only [run_act, Prog.bind_eq_ok, Prog.attempt_eq_ok] at hr
    obtain ⟨r, ⟨g₁, _⟩, hc, hr⟩ := hr
    have hg : g₁ = g := by
      unfold fork_create at hc
      repeat' split at hc
      all_goals cases hc; rfl
    subst hg
    cases r with
    | ok _ =>
      simp only [Prog.pure_eq_ok] at hr
      obtain ⟨hf, heq⟩ := hr
      cases hf; cases heq
      exact ⟨rfl, .inl rfl, rfl⟩
    | error e =>
      simp only [Prog.pure_eq_ok] at hr
      obtain ⟨hf, heq⟩ := hr
      cases hf; cases heq
      exact ⟨rfl, .inr ⟨e, rfl⟩, rfl⟩
  | fork_incref =>
    simp only [run_act, Th.vnode_incref, Prog.bind_eq_ok, current_eq_ok, ask_eq_ok] at hr
    obtain ⟨cur, _, ⟨hc, rfl⟩, _, _, ⟨rfl, rfl⟩, hr⟩ := hr
    cases hcwd : (g.thread cur).t_cwd with
    | none =>
      simp only [hcwd, Prog.pure_eq_ok] at hr
      obtain ⟨hf, heq⟩ := hr
      cases hf; cases heq
      exact ⟨⟨cur, hc, .inl ⟨hcwd, rfl, rfl⟩⟩, rfl⟩
    | some v =>
      simp only [hcwd, Prog.bind_eq_ok, change_eq_ok, Prog.pure_eq_ok] at hr
      obtain ⟨_, _, rfl, hf, heq⟩ := hr
      cases hf; cases heq
      exact ⟨⟨cur, hc, .inr ⟨v, hcwd, rfl, rfl⟩⟩, rfl⟩
  | fork_link =>
    simp only [run_act, Prog.bind_eq_ok, Prog.attempt_eq_ok] at hr
    obtain ⟨r, ⟨g₁, _⟩, hl, hr⟩ := hr
    cases r with
    | ok newguy =>
      simp only [Prog.pure_eq_ok] at hr
      obtain ⟨hf, heq⟩ := hr
      cases hf; cases heq
      obtain ⟨rfl, hlinked⟩ := fork_link_spec hl
      exact .inl ⟨hlinked, rfl, rfl⟩
    | error e =>
      simp only [Prog.pure_eq_ok] at hr
      obtain ⟨hf, heq⟩ := hr
      cases hf; cases heq
      exact .inr ⟨fork_link_error hl, ⟨e, rfl⟩, rfl⟩
  | fork_return =>
    simp only [run_act, Prog.pure_eq_ok] at hr
    obtain ⟨hf, heq⟩ := hr
    cases hf; cases heq
    exact ⟨rfl, rfl, rfl⟩
  | fork_fail =>
    simp only [run_act] at hr
    cases hcwd : f.cwd with
    | none =>
      simp only [hcwd, Prog.pure_eq_ok] at hr
      obtain ⟨hf, heq⟩ := hr
      cases hf; cases heq
      exact ⟨.inl ⟨hcwd, rfl, rfl⟩, rfl⟩
    | some v =>
      simp only [hcwd, Th.vnode_decref, Prog.bind_eq_ok, assert_eq_ok, change_eq_ok, Prog.pure_eq_ok] at hr
      obtain ⟨_, _, ⟨_, _, ⟨hpos, rfl⟩, rfl⟩, hf, heq⟩ := hr
      cases hf; cases heq
      exact ⟨.inr ⟨v, hcwd, hpos, rfl, rfl⟩, rfl⟩
  | exit_cwd =>
    simp only [run_act, exit_cwd, Prog.bind_eq_ok, current_eq_ok, ask_eq_ok, Prog.pure_eq_ok] at hr
    obtain ⟨_, _, ⟨cur, _, ⟨hc, rfl⟩, _, _, ⟨rfl, rfl⟩, hr⟩, hf, heq⟩ := hr
    cases hf; cases heq
    cases hcwd : (g.thread cur).t_cwd with
    | none =>
      simp only [hcwd, Prog.pure_eq_ok] at hr
      cases hr.2
      exact ⟨⟨cur, hc, .inl rfl⟩, rfl, rfl⟩
    | some v =>
      simp only [hcwd, Th.vnode_decref, Prog.bind_eq_ok, assert_eq_ok, change_eq_ok] at hr
      obtain ⟨_, _, ⟨_, _, ⟨-, rfl⟩, rfl⟩, heq⟩ := hr
      cases heq
      exact ⟨⟨cur, hc, .inr ⟨v, hcwd, rfl⟩⟩, rfl, rfl⟩

/-! ## Steps -/

structure Slept (a : Addr) (cur : Tid) (g g' : Globals) : Prop where
  spl : 0 < g.curspl
  curthread : g.curthread = some cur
  same : g' = { set_sleepaddr cur (some a) g with curthread := none, sleepers := g'.sleepers }
  sleepers : g'.sleepers.toList = g.sleepers.toList ++ [cur]
  max : g.sleepers.max ≤ g'.sleepers.max

structure Yielded (cur : Tid) (g g' : Globals) : Prop where
  spl : 0 < g.curspl
  curthread : g.curthread = some cur
  same : g' = { g with curthread := none, runqueue := g'.runqueue }
  runqueue : g'.runqueue.toList = g.runqueue.toList ++ [cur]
  size : g.runqueue.size ≤ g'.runqueue.size

structure Exited (cur : Tid) (g g' : Globals) : Prop where
  spl : 0 < g.curspl
  curthread : g.curthread = some cur
  pos : 0 < g.numthreads
  same : g' = { g with numthreads := g.numthreads - 1, curthread := none, zombies := g'.zombies }
  zombies : g'.zombies.toList = g.zombies.toList ++ [cur]
  max : g.zombies.max ≤ g'.zombies.max

structure Picked (nu : Tid) (g g' : Globals) : Prop where
  spl : 0 < g.curspl
  same : g' = { g with runqueue := g'.runqueue, curthread := some nu }
  runqueue : g.runqueue.toList = nu :: g'.runqueue.toList
  size : g'.runqueue.size = g.runqueue.size

inductive Moves (k : Kernel) (ch : Choice) : Kernel → List Event → Prop where
  | interrupt (hie : k.ie = true) : Moves k ch k.interrupted []
  | ret {f c : Frame} {bs : List Frame} (hs : k.stack k.on = f :: c :: bs) (hc : f.code = []) :
      Moves k ch (k.goto k.g (c.resume :: bs)) [.ret k.on f k.g.curspl]
  | call {f : Frame} {bs : List Frame} {i : Instr} {rest : List Instr} {c : Call}
      (hs : k.stack k.on = f :: bs) (hc : f.code = i :: rest) (hcall : i.calls c = true)
      (hi : i = .prog ∧ ch = .call c ∨ i = .service ∨ i = .call c ∨ i = .schedule) :
      Moves k ch (k.goto k.g (k.enter c :: f :: bs)) []
  | skip {f : Frame} {bs : List Frame} {i : Instr} {rest : List Instr}
      (hs : k.stack k.on = f :: bs) (hc : f.code = i :: rest)
      (hi : i = .prog ∨ i = .service ∨ i = .nonint ∨ i = .switch ∧ k.g.curthread = none) :
      Moves k ch (k.goto k.g ({ f with code := rest } :: bs)) []
  | splhigh {f : Frame} {bs : List Frame} {rest : List Instr}
      (hs : k.stack k.on = f :: bs) (hc : f.code = .splhigh :: rest) :
      Moves k ch ((k.goto { k.g with curspl := SPL_HIGH }
        ({ f with code := rest, spl := k.g.curspl } :: bs)).setIe false) []
  | irq {f : Frame} {bs : List Frame} {rest : List Instr}
      (hs : k.stack k.on = f :: bs) (hc : f.code = .irq :: rest) :
      Moves k ch ((k.goto k.g ({ f with code := rest } :: bs)).setIe (f.spl = 0)) []
  | setspl {f : Frame} {bs : List Frame} {rest : List Instr}
      (hs : k.stack k.on = f :: bs) (hc : f.code = .setspl :: rest) :
      Moves k ch (k.goto { k.g with curspl := f.spl } ({ f with code := rest } :: bs)) []
  | idle_on {f : Frame} {bs : List Frame} {rest : List Instr}
      (hs : k.stack k.on = f :: bs) (hc : f.code = .idle_on :: rest) :
      Moves k ch ((k.goto k.g ({ f with code := rest } :: bs)).setIe true) []
  | idle_off {f : Frame} {bs : List Frame} {rest : List Instr}
      (hs : k.stack k.on = f :: bs) (hc : f.code = .idle_off :: rest) :
      Moves k ch ((k.goto k.g ({ f with code := rest } :: bs)).setIe false) []
  | leave {f : Frame} {bs : List Frame} {rest : List Instr}
      (hs : k.stack k.on = f :: bs) (hc : f.code = .leave :: rest) :
      Moves k ch ((k.goto { k.g with curspl := f.spl, in_interrupt := f.old_in } bs).setIe true) []
  | act {f f' : Frame} {bs : List Frame} {a : Act} {rest : List Instr} {g' : Globals} {es : List Event}
      (hs : k.stack k.on = f :: bs) (hc : f.code = .act a :: rest)
      (ha : ActSpec k.g k.on { f with code := rest } g' f' es a) :
      Moves k ch (k.goto g' (f' :: bs)) (effects k.on f' ++ es)
  | pass {f : Frame} {bs : List Frame} {x : Loop} {rest : List Instr} {g' : Globals} {mem mem' : Heap}
      {u : PUnit} (hs : k.stack k.on = f :: bs) (hc : f.code = .loop x :: rest)
      (hw : x.waits k.g f = false) (hp : x.pass (k.g, mem) = .ok (.ok u, (g', mem'))) :
      Moves k ch (k.goto g' ({ f with code := rest } :: bs)) (effects k.on { f with code := rest })
  | sleep {f f' : Frame} {bs : List Frame} {i : Instr} {rest : List Instr} {a : Addr} {cur : Tid} {g' : Globals}
      (hs : k.stack k.on = f :: bs) (hc : f.code = i :: rest)
      (hi : (∃ x, i = .loop x ∧ x.waits k.g f = true ∧ a = x.addr ∧ f' = x.turn f) ∨ i = .sleep a ∧ f' = f)
      (hg : Slept a cur k.g g') :
      Moves k ch (k.goto g' (k.enter .mi_switch :: k.asleep a :: f' :: bs)) [.sleep k.on a]
  | zz {f : Frame} {bs : List Frame} {rest : List Instr} {a : Addr} {cur : Tid} {g' : Globals}
      (hs : k.stack k.on = f :: bs) (hc : f.code = .zz a :: rest) (hg : Slept a cur k.g g') :
      Moves k ch (k.goto g' (k.enter .mi_switch :: { f with code := rest } :: bs)) [.sleep k.on a]
  | unzz {f : Frame} {bs : List Frame} {rest : List Instr} {cur : Tid}
      (hs : k.stack k.on = f :: bs) (hc : f.code = .unzz :: rest) (hcur : k.g.curthread = some cur) :
      Moves k ch (k.goto (set_sleepaddr cur none k.g) ({ f with code := rest } :: bs)) []
  | switch {f : Frame} {bs : List Frame} {rest : List Instr} {cur : Tid} {g' : Globals}
      (hs : k.stack k.on = f :: bs) (hc : f.code = .switch :: rest) (hg : Yielded cur k.g g') :
      Moves k ch (k.goto g' (k.enter .mi_switch :: f :: bs)) []
  | exit {f : Frame} {bs : List Frame} {rest : List Instr} {cur : Tid} {g' : Globals}
      (hs : k.stack k.on = f :: bs) (hc : f.code = .exit_switch :: rest) (hg : Exited cur k.g g') :
      Moves k ch (k.goto g' (k.enter .mi_switch :: f :: bs)) [.exited k.on]
  | schedule {f : Frame} {bs : List Frame} {rest : List Instr} {nu : Tid} {g' : Globals}
      (hs : k.stack k.on = f :: bs) (hc : f.code = .schedule :: rest) (hg : Picked nu k.g g') :
      Moves k ch ((k.goto g' ({ f with code := rest } :: bs)).md_switch nu) [.md_switch k.on nu]

section

variable {k k' : Kernel} {ch : Choice} {es : List Event}

theorem onGlobals_ok {α : Type} {mem : Heap} {m : Th α} {next : α → Globals → Except Stop (Kernel × List Event)}
    {r : Kernel × List Event} (h : onGlobals k mem m next = .ok r) :
    ∃ x g' mem', m (k.g, mem) = .ok (.ok x, (g', mem')) ∧ next x g' = .ok r := by
  rw [onGlobals] at h
  split at h
  · rename_i x g' mem' hm
    exact ⟨x, g', mem', hm, h⟩
  · cases h
  · cases h

theorem thread_sleep_slept {a : Addr} {g g' : Globals} {mem mem' : Heap} {u : PUnit}
    (h : thread_sleep a (g, mem) = .ok (.ok u, (g', mem'))) : ∃ cur, Slept a cur g g' := by
  obtain ⟨hspl, cur, s, hcur, rfl, hs, hmax⟩ := thread_sleep_spec h
  exact ⟨cur, hspl, hcur, rfl, hs, hmax⟩

theorem exec_moves {mem : Heap} {f : Frame} {bs : List Frame} {i : Instr} {rest : List Instr}
    (hs : k.stack k.on = f :: bs) (hc : f.code = i :: rest)
    (h : exec k mem f bs rest i = .ok (k', es)) : Moves k ch k' es := by
  cases i with
  | nonint =>
    simp only [exec] at h
    split at h
    · cases h
    · cases h
      exact .skip hs hc (.inr (.inr (.inl rfl)))
  | splhigh => cases h; exact .splhigh hs hc
  | irq => cases h; exact .irq hs hc
  | setspl => cases h; exact .setspl hs hc
  | call c => cases h; exact .call hs hc (by simp [Instr.calls]) (.inr (.inr (.inl rfl)))
  | act a =>
    obtain ⟨⟨f', es'⟩, g', mem', hm, hn⟩ := onGlobals_ok h
    cases hn
    exact .act hs hc (run_act_spec hm)
  | loop x =>
    simp only [exec] at h
    split at h
    · rename_i hw
      obtain ⟨_, g', mem', hm, hn⟩ := onGlobals_ok h
      cases hn
      obtain ⟨cur, hslept⟩ := thread_sleep_slept hm
      exact .sleep hs hc (.inl ⟨x, rfl, hw, rfl, rfl⟩) hslept
    · rename_i hw
      obtain ⟨_, g', mem', hm, hn⟩ := onGlobals_ok h
      cases hn
      exact .pass hs hc (by simpa using hw) hm
  | sleep a =>
    obtain ⟨_, g', mem', hm, hn⟩ := onGlobals_ok h
    cases hn
    obtain ⟨cur, hslept⟩ := thread_sleep_slept hm
    exact .sleep hs hc (.inr ⟨rfl, rfl⟩) hslept
  | zz a =>
    obtain ⟨_, g', mem', hm, hn⟩ := onGlobals_ok h
    cases hn
    obtain ⟨cur, hslept⟩ := thread_sleep_slept hm
    exact .zz hs hc hslept
  | unzz =>
    obtain ⟨_, g', mem', hm, hn⟩ := onGlobals_ok h
    cases hn
    obtain ⟨cur, hcur, rfl⟩ := thread_sleep_end_spec hm
    exact .unzz hs hc hcur
  | switch =>
    obtain ⟨_, g', mem', hm, hn⟩ := onGlobals_ok h
    obtain ⟨hspl, ⟨hnone, rfl⟩ | ⟨cur, q, hcur, rfl, hq, hsize⟩⟩ := mi_switch_ready_spec hm
    · rw [if_pos hnone] at hn
      cases hn
      exact .skip hs hc (.inr (.inr (.inr ⟨rfl, hnone⟩)))
    · rw [if_neg (by simp [hcur])] at hn
      cases hn
      exact .switch hs hc ⟨hspl, hcur, rfl, hq, hsize⟩
  | exit_switch =>
    obtain ⟨_, g', mem', hm, hn⟩ := onGlobals_ok h
    cases hn
    obtain ⟨hspl, hpos, cur, z, hcur, rfl, hz, hmax⟩ := exit_switch_spec hm
    exact .exit hs hc ⟨hspl, hcur, hpos, rfl, hz, hmax⟩
  | schedule =>
    simp only [exec] at h
    split at h
    · cases h
    split at h
    · cases h
      exact .call hs hc (by simp [Instr.calls]) (.inr (.inr (.inr rfl)))
    · rename_i hspl _
      obtain ⟨nu, g', mem', hm, hn⟩ := onGlobals_ok h
      cases hn
      obtain ⟨q, rfl, hq, hsize⟩ := scheduler_next_spec hm
      exact .schedule hs hc ⟨by omega, rfl, hq, hsize⟩
  | idle_on =>
    simp only [exec] at h
    split at h
    · cases h
    · cases h; exact .idle_on hs hc
  | idle_off => cases h; exact .idle_off hs hc
  | leave => cases h; exact .leave hs hc
  | prog => cases h
  | service => cases h
  | dead => cases h

theorem step_moves (h : step k ch = .ok (k', es)) : Moves k ch k' es := by
  cases ch with
  | interrupt =>
    simp only [step] at h
    split at h
    · rename_i hie
      cases h
      exact .interrupt hie
    · cases h
  | go mem =>
    simp only [step] at h
    split at h
    · cases h
    rename_i f below hs
    split at h
    · rename_i hc
      cases below with
      | nil => cases h
      | cons c bs => cases h; exact .ret hs hc
    · rename_i i rest hc
      exact exec_moves hs hc h
  | call c =>
    simp only [step] at h
    split at h
    · cases h
    rename_i f below hs
    split at h
    · rename_i hcode
      cases h
      rcases hcode with ⟨hc, hapi⟩ | ⟨hc, hapi⟩ <;> obtain ⟨rest, hc⟩ := List.head?_eq_some_iff.mp hc
      · exact .call hs hc (by simpa [Instr.calls] using hapi) (.inl ⟨rfl, rfl⟩)
      · exact .call hs hc (by simpa [Instr.calls] using hapi) (.inr (.inl rfl))
    · cases h
  | done =>
    simp only [step] at h
    split at h
    · cases h
    rename_i f below hs
    split at h
    · rename_i hcode
      cases h
      rcases hcode with hc | hc <;> obtain ⟨rest, hc⟩ := List.head?_eq_some_iff.mp hc
      · rw [hc]; exact .skip hs hc (.inl rfl)
      · rw [hc]; exact .skip hs hc (.inr (.inl rfl))
    · cases h

theorem Moves.of_ret (hm : Moves k ch k' es) {t : Tid} {f : Frame} {n : Nat} (h : .ret t f n ∈ es) :
    t = k.on ∧ f.code = [] ∧ ∃ c bs, k.stack k.on = f :: c :: bs ∧ k' = k.goto k.g (c.resume :: bs) := by
  cases hm with
  | ret hs hc =>
    cases List.mem_singleton.mp h
    exact ⟨rfl, hc, _, _, hs, rfl⟩
  | act _ _ ha => cases ha.events _ h
  | pass => cases effects_ofAct _ h
  | _ => simp at h

end

end Os161.Cpu
