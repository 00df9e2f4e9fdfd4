import Os161.Kern.Array
import Os161.Kern.Queue

/-! # The globals of the thread system, and its code that runs with interrupts off

`thread.c`, `scheduler.c`, `synch.c`, `hardclock.c`. A function that switches threads in its middle
appears here by the part before the switch; `Machine.lean` puts the parts together.
-/

namespace Os161

abbrev Tid := Nat

abbrev SPL_HIGH : Nat := 15

abbrev HZ : Nat := 100

/-- What a thread sleeps on. `other` is any address that is not a primitive's. -/
inductive Addr where
  | sem (s : Nat) | lock (l : Nat) | cv (c : Nat) | lbolt | other (a : Nat)
  deriving DecidableEq, Repr

inductive ThreadState where
  | S_RUN | S_READY | S_SLEEP | S_ZOMB
  deriving DecidableEq, Repr

/-- Where the thread system stops the machine: assertions, NULL pointers and calls of `panic`. -/
inductive Halt where
  | queue (p : QPanic)
  | curspl | in_interrupt | null_curthread
  | switch_state | switch_result (nextstate : ThreadState)
  | wakeup_result | wakeup_one_result
  | exorcise_curthread | destroy_cwd | exorcise_result
  | exit_numthreads | came_back | kmain_returned
  | p_count | v_count
  | acquire_locked | acquire_owner | release_locked | release_owner | cv_locked | cv_owner
  | decref_refcount
  deriving DecidableEq, Repr

structure Thread where
  t_sleepaddr : Option Addr
  t_cwd : Option Nat
  deriving DecidableEq, Repr

structure Lock where
  locked : Nat
  owner : Option Tid
  deriving DecidableEq, Repr

structure Globals where
  curspl : Nat
  in_interrupt : Bool
  curthread : Option Tid
  runqueue : Queue Tid
  sleepers : KArray Tid
  zombies : KArray Tid
  numthreads : Nat
  thread : Tid → Thread
  count : Nat → Int
  lock : Nat → Lock
  lbolt_counter : Nat
  vn_refcount : Nat → Int
  /-- The next structure that `thread_create` returns. -/
  nextthread : Tid

abbrev Th := Prog Halt Errno (Globals × Heap)

namespace Th

def ask {α : Type} (f : Globals → α) : Th α := fun s => .ok (.ok (f s.1), s)

def change (f : Globals → Globals) : Th PUnit := fun s => .ok (.ok ⟨⟩, (f s.1, s.2))

def assert (c : Globals → Prop) [DecidablePred c] (p : Halt) : Th PUnit := fun s =>
  if c s.1 then .ok (.ok ⟨⟩, s) else .error p

/-- Runs `m` and stops the machine at an error: `assert(result==0)`. -/
def must (m : Th PUnit) (p : Halt) : Th PUnit := fun s =>
  match m s with
  | .ok (.ok _, t) => .ok (.ok ⟨⟩, t)
  | .ok (.error _, _) => .error p
  | .error q => .error q

def onQueue (m : Queue Tid → Prog QPanic Errno Heap (Queue Tid)) : Th PUnit := fun s =>
  match m s.1.runqueue s.2 with
  | .ok (.ok q, h) => .ok (.ok ⟨⟩, ({ s.1 with runqueue := q }, h))
  | .ok (.error e, h) => .ok (.error e, (s.1, h))
  | .error p => .error (.queue p)

def onSleepers (m : KArray Tid → Alloc (Except Errno (KArray Tid))) : Th PUnit := fun s =>
  match m s.1.sleepers s.2 with
  | (.ok a, h) => .ok (.ok ⟨⟩, ({ s.1 with sleepers := a }, h))
  | (.error e, h) => .ok (.error e, (s.1, h))

def onZombies (m : KArray Tid → Alloc (Except Errno (KArray Tid))) : Th PUnit := fun s =>
  match m s.1.zombies s.2 with
  | (.ok a, h) => .ok (.ok ⟨⟩, ({ s.1 with zombies := a }, h))
  | (.error e, h) => .ok (.error e, (s.1, h))

def current : Th Tid := fun s =>
  match s.1.curthread with
  | some cur => .ok (.ok cur, s)
  | none => .error .null_curthread

end Th

open Th

/-! ## The scheduler -/

def make_runnable (t : Tid) : Th PUnit := do
  assert (0 < ·.curspl) .curspl
  onQueue (q_addtail · t)

def scheduler_preallocate (nthreads : Nat) : Th PUnit := do
  assert (0 < ·.curspl) .curspl
  onQueue (q_preallocate · nthreads)

def scheduler_next : Th Tid := fun s =>
  match q_remhead s.1.runqueue with
  | .ok (next, q) => .ok (.ok next, ({ s.1 with runqueue := q, curthread := some next }, s.2))
  | .error p => .error (.queue p)

/-! ## Switching -/

def mi_switch_stash (cur : Tid) : ThreadState → Th PUnit
  | .S_READY => make_runnable cur
  | .S_SLEEP => onSleepers (array_add · cur)
  | .S_ZOMB => onZombies (array_add · cur)
  | .S_RUN => Prog.stop .switch_state

/-- `mi_switch` to its call of `scheduler`. With `curthread` NULL it returns there. -/
def mi_switch (nextstate : ThreadState) : Th PUnit := do
  assert (0 < ·.curspl) .curspl
  match ← ask Globals.curthread with
  | none => pure ⟨⟩
  | some cur =>
    change fun g => { g with curthread := none }
    must (mi_switch_stash cur nextstate) (.switch_result nextstate)

def set_sleepaddr (t : Tid) (addr : Option Addr) (g : Globals) : Globals :=
  { g with thread := Function.update g.thread t { g.thread t with t_sleepaddr := addr } }

def thread_sleep (addr : Addr) : Th PUnit := do
  assert (·.in_interrupt = false) .in_interrupt
  let cur ← current
  change (set_sleepaddr cur (some addr))
  mi_switch .S_SLEEP

def thread_sleep_end : Th PUnit := do
  let cur ← current
  change (set_sleepaddr cur none)

def thread_destroy (z : Tid) : Th PUnit :=
  assert (fun g => (g.thread z).t_cwd = none) .destroy_cwd

def exorcise_loop : List Tid → Th PUnit
  | [] => pure ⟨⟩
  | z :: rest => do
    assert (fun g => g.curthread ≠ some z) .exorcise_curthread
    thread_destroy z
    exorcise_loop rest

def exorcise : Th PUnit := do
  assert (0 < ·.curspl) .curspl
  let zs ← ask (·.zombies.toList)
  exorcise_loop zs
  must (onZombies (array_setsize · 0)) .exorcise_result

/-! ## Waking -/

def wakeup_loop (addr : Addr) : Nat → Nat → Th PUnit
  | 0, _ => pure ⟨⟩
  | fuel + 1, i => do
    let g ← ask id
    if hi : i < g.sleepers.num then
      let t := array_getguy g.sleepers ⟨i, hi⟩
      if (g.thread t).t_sleepaddr = some addr then
        change fun _ => { g with sleepers := array_remove g.sleepers ⟨i, hi⟩ }
        must (make_runnable t) .wakeup_result
        wakeup_loop addr fuel i
      else wakeup_loop addr fuel (i + 1)
    else pure ⟨⟩

def thread_wakeup (addr : Addr) : Th PUnit := do
  assert (0 < ·.curspl) .curspl
  let n ← ask (array_getnum ·.sleepers)
  wakeup_loop addr n 0

def wakeup_one_loop (addr : Addr) : Nat → Nat → Th PUnit
  | 0, _ => pure ⟨⟩
  | fuel + 1, i => do
    let g ← ask id
    if hi : i < g.sleepers.num then
      let t := array_getguy g.sleepers ⟨i, hi⟩
      if (g.thread t).t_sleepaddr = some addr then
        change fun _ => { g with sleepers := array_remove g.sleepers ⟨i, hi⟩ }
        must (make_runnable t) .wakeup_one_result
      else wakeup_one_loop addr fuel (i + 1)
    else pure ⟨⟩

def thread_wakeup_one (addr : Addr) : Th PUnit := do
  assert (0 < ·.curspl) .curspl
  let n ← ask (array_getnum ·.sleepers)
  wakeup_one_loop addr n 0

/-! ## Semaphores, locks and condition variables -/

def set_count (s : Nat) (n : Int) (g : Globals) : Globals :=
  { g with count := Function.update g.count s n }

def set_lock (l : Nat) (x : Lock) (g : Globals) : Globals :=
  { g with lock := Function.update g.lock l x }

def P_take (s : Nat) : Th PUnit := do
  assert (0 < ·.count s) .p_count
  change fun g => set_count s (g.count s - 1) g

def V_post (s : Nat) : Th PUnit := do
  change fun g => set_count s (Words.toI32 (g.count s + 1)) g
  assert (0 < ·.count s) .v_count
  thread_wakeup (.sem s)

def lock_take (l : Nat) : Th PUnit := do
  assert (fun g => (g.lock l).locked = 0) .acquire_locked
  assert (fun g => (g.lock l).owner = none) .acquire_owner
  change fun g => set_lock l ⟨1, g.curthread⟩ g

def lock_drop (l : Nat) : Th PUnit := do
  assert (fun g => (g.lock l).locked = 1) .release_locked
  assert (fun g => (g.lock l).owner = g.curthread) .release_owner
  change (set_lock l ⟨0, none⟩)
  thread_wakeup (.lock l)

/-- The assertions of `cv_wait`, `cv_signal` and `cv_broadcast`. -/
def cv_check (l : Nat) : Th PUnit := do
  assert (fun g => (g.lock l).locked = 1) .cv_locked
  assert (fun g => (g.lock l).owner = g.curthread) .cv_owner

/-! ## The clock -/

def hardclock_tick : Th PUnit := do
  let n ← ask (·.lbolt_counter + 1)
  if n ≥ HZ then
    change fun g => { g with lbolt_counter := 0 }
    thread_wakeup .lbolt
  else
    change fun g => { g with lbolt_counter := n }

/-! ## Making and ending threads -/

def fork_create : Th PUnit := fun s =>
  match kmalloc s.2 with
  | (false, h) => .ok (.error .ENOMEM, (s.1, h))
  | (true, h) =>
    match kmalloc h with
    | (false, h) => .ok (.error .ENOMEM, (s.1, h))
    | (true, h) =>
      match kmalloc h with
      | (false, h) => .ok (.error .ENOMEM, (s.1, h))
      | (true, h) => .ok (.ok ⟨⟩, (s.1, h))

def set_refcount (v : Nat) (n : Int) (g : Globals) : Globals :=
  { g with vn_refcount := Function.update g.vn_refcount v n }

def Th.vnode_incref (v : Nat) : Th PUnit :=
  change fun g => set_refcount v (g.vn_refcount v + 1) g

def Th.vnode_decref (v : Nat) : Th PUnit := do
  assert (0 < ·.vn_refcount v) .decref_refcount
  change fun g => set_refcount v (g.vn_refcount v - 1) g

def fork_link (cwd : Option Nat) : Th Tid := do
  let n ← ask Globals.numthreads
  onSleepers (array_preallocate · (n + 1))
  onZombies (array_preallocate · (n + 1))
  scheduler_preallocate (n + 1)
  let newguy ← ask Globals.nextthread
  make_runnable newguy
  change fun g => { g with
    numthreads := n + 1
    nextthread := newguy + 1
    thread := Function.update g.thread newguy ⟨none, cwd⟩ }
  pure newguy

def exit_cwd : Th PUnit := do
  let cur ← current
  match ← ask fun g => (g.thread cur).t_cwd with
  | none => pure ⟨⟩
  | some v =>
    Th.vnode_decref v
    change fun g => { g with
      thread := Function.update g.thread cur { g.thread cur with t_cwd := none } }

def exit_switch : Th PUnit := do
  let _ ← current
  assert (0 < ·.numthreads) .exit_numthreads
  change fun g => { g with numthreads := g.numthreads - 1 }
  mi_switch .S_ZOMB

end Os161
