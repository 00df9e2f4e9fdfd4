import Os161.Lib.Lts
import Os161.Thread.State

/-! # The processor running the threads

Each thread has a stack of calls. The processor runs the last call of one stack, an instruction at a
time, and an interrupt puts a call of `mips_interrupt` on that stack whenever the status register
lets it. What runs with interrupts off and without a switch is one instruction.
-/

namespace Os161.Cpu

/-! ## Code -/

inductive Call where
  | P (s : Nat) | V (s : Nat)
  | lock_acquire (l : Nat) | lock_release (l : Nat) | lock_do_i_hold (l : Nat)
  | cv_wait (c l : Nat) | cv_signal (c l : Nat) | cv_broadcast (c l : Nat)
  | thread_yield | thread_sleep (a : Addr) | thread_wakeup (a : Addr) | thread_wakeup_one (a : Addr)
  | clocksleep (num_secs : Int) | one_thread_only
  | thread_fork | thread_exit | spl0 | splhigh
  | hardclock | mi_switch | cpu_idle | mips_interrupt | mi_threadstart | boot
  deriving DecidableEq, Repr

inductive Act where
  | V_post (s : Nat) | lock_drop (l : Nat) | lock_read (l : Nat)
  | cv_check (c l : Nat) | cv_wake_one (c l : Nat) | cv_wake (c l : Nat)
  | wakeup (a : Addr) | wakeup_one (a : Addr) | exorcise
  | read_numthreads | tick
  | fork_create | fork_incref | fork_link | fork_return | fork_fail | exit_cwd
  deriving DecidableEq, Repr

inductive Loop where
  | P (s : Nat) | lock_acquire (l : Nat) | clocksleep
  deriving DecidableEq, Repr

inductive Instr where
  /-- `assert(in_interrupt==0)`. -/
  | nonint
  /-- `spl = splhigh()`. -/
  | splhigh
  /-- `splx(spl)`: the status register. -/
  | irq
  /-- `splx(spl)`: `curspl`. -/
  | setspl
  | call (c : Call)
  | act (a : Act)
  | loop (x : Loop)
  /-- A call of `thread_sleep`. -/
  | sleep (a : Addr)
  /-- `thread_sleep` to the end of its `mi_switch`. -/
  | zz (a : Addr)
  /-- `thread_sleep` after its `mi_switch`; the frame waits here during it. -/
  | unzz
  /-- `mi_switch(S_READY)` of `thread_yield`. -/
  | switch
  /-- `numthreads--` and `mi_switch(S_ZOMB)` of `thread_exit`. -/
  | exit_switch
  /-- `mi_switch` from `scheduler` to `md_switch`. -/
  | schedule
  /-- The two halves of `interrupts_onoff`. -/
  | idle_on | idle_off
  /-- The rest of `mips_interrupt` and of `mips_trap`, and the return from the exception. -/
  | leave
  /-- Calls by code outside the thread system, as many as it likes. -/
  | prog
  /-- Calls by the interrupt handlers of the devices. -/
  | service
  /-- `panic("Thread came back from the dead!\n")`. -/
  | dead
  deriving DecidableEq, Repr

/-- The code of each function. In `thread_fork` and `thread_exit`, `prog` stands for what
`VOP_INCREF` and `VOP_DECREF` do around the count. -/
def body : Call → List Instr
  | .P s => [.nonint, .splhigh, .loop (.P s), .irq, .setspl]
  | .V s => [.splhigh, .act (.V_post s), .irq, .setspl]
  | .lock_acquire l => [.nonint, .splhigh, .loop (.lock_acquire l), .irq, .setspl]
  | .lock_release l => [.splhigh, .act (.lock_drop l), .irq, .setspl]
  | .lock_do_i_hold l => [.splhigh, .act (.lock_read l), .irq, .setspl]
  | .cv_wait c l => [.nonint, .splhigh, .act (.cv_check c l), .call (.lock_release l), .sleep (.cv c),
      .call (.lock_acquire l), .irq, .setspl]
  | .cv_signal c l => [.splhigh, .act (.cv_wake_one c l), .irq, .setspl]
  | .cv_broadcast c l => [.splhigh, .act (.cv_wake c l), .irq, .setspl]
  | .thread_yield => [.splhigh, .switch, .irq, .setspl]
  | .thread_sleep a => [.zz a, .unzz]
  | .thread_wakeup a => [.act (.wakeup a)]
  | .thread_wakeup_one a => [.act (.wakeup_one a)]
  | .clocksleep _ => [.splhigh, .loop .clocksleep, .irq, .setspl]
  | .one_thread_only => [.splhigh, .act .read_numthreads, .irq, .setspl]
  | .thread_fork => [.act .fork_create, .prog, .act .fork_incref, .prog, .splhigh, .act .fork_link,
      .irq, .setspl, .act .fork_return, .prog, .act .fork_fail, .prog]
  | .thread_exit => [.splhigh, .prog, .act .exit_cwd, .prog, .exit_switch, .dead]
  | .spl0 => [.irq, .setspl]
  | .splhigh => [.splhigh]
  | .hardclock => [.act .tick, .call .thread_yield]
  | .mi_switch => [.schedule, .act .exorcise]
  | .cpu_idle => [.idle_on, .idle_off]
  | .mips_interrupt => [.service, .leave]
  | .mi_threadstart => [.irq, .setspl, .prog, .call .thread_exit]
  | .boot => [.prog]

def Call.api : Call → Bool
  | .hardclock | .mi_switch | .cpu_idle | .mips_interrupt | .mi_threadstart | .boot => false
  | _ => true

def Call.handler : Call → Bool
  | .V _ | .hardclock => true
  | _ => false

def Loop.addr : Loop → Addr
  | .P s => .sem s
  | .lock_acquire l => .lock l
  | .clocksleep => .lbolt

def Instr.calls : Instr → Call → Bool
  | .call c, c' => c = c'
  | .prog, c => c.api
  | .service, c => c.handler
  | .loop x, c => c = .thread_sleep x.addr
  | .sleep a, c => c = .thread_sleep a
  | .unzz, c | .switch, c | .exit_switch, c => c = .mi_switch
  | .schedule, c => c = .cpu_idle
  | _, _ => false

def Instr.stays : Instr → Bool
  | .loop _ | .unzz | .schedule | .prog | .service => true
  | _ => false

/-- A call that has not returned, with its local variables. `callspl` is `curspl` at the call and
`start` the time of it. -/
structure Frame where
  call : Call
  code : List Instr
  callspl : Nat
  start : Nat
  spl : Nat
  old_in : Bool := false
  val : Bool := false
  num_secs : Int := 0
  cwd : Option Nat := none
  result : Option Errno := none
  deriving DecidableEq, Repr

def Frame.resume (f : Frame) : Frame :=
  match f.code with
  | [] => f
  | i :: rest => if i.stays then f else { f with code := rest }

/-! ## Events -/

inductive Event where
  /-- The call of `f` returns with `curspl`. -/
  | ret (t : Tid) (f : Frame) (curspl : Nat)
  /-- The call has done its work; its `splx` and the return are left. -/
  | effect (t : Tid) (c : Call)
  /-- A `cv_wait` called at `start` has passed its assertions. -/
  | wait (t : Tid) (c l start : Nat)
  | signal (c l : Nat) (removed : List Tid)
  | broadcast (c l : Nat) (removed : List Tid)
  | sleep (t : Tid) (a : Addr)
  | forked (t : Tid)
  | exited (t : Tid)
  | destroyed (t : Tid)
  | md_switch (old next : Tid)
  deriving DecidableEq, Repr

def removed (g g' : Globals) : List Tid :=
  g.sleepers.toList.filter fun t => t ∉ g'.sleepers.toList

/-! ## Instructions -/

open Th

def run_act (t : Tid) (f : Frame) : Act → Th (Frame × List Event)
  | .V_post s => do V_post s; pure (f, [])
  | .lock_drop l => do lock_drop l; pure (f, [])
  | .lock_read l => do
    let ihold ← ask fun g => decide ((g.lock l).locked ≠ 0 ∧ (g.lock l).owner = g.curthread)
    pure ({ f with val := ihold }, [])
  | .cv_check c l => do cv_check l; pure (f, [.wait t c l f.start])
  | .cv_wake_one c l => do
    cv_check l
    let g ← ask id
    thread_wakeup_one (.cv c)
    let g' ← ask id
    pure (f, [.signal c l (removed g g')])
  | .cv_wake c l => do
    cv_check l
    let g ← ask id
    thread_wakeup (.cv c)
    let g' ← ask id
    pure (f, [.broadcast c l (removed g g')])
  | .wakeup a => do thread_wakeup a; pure (f, [])
  | .wakeup_one a => do thread_wakeup_one a; pure (f, [])
  | .exorcise => do
    let zs ← ask (·.zombies.toList)
    exorcise
    pure (f, zs.map .destroyed)
  | .read_numthreads => do
    let n ← ask Globals.numthreads
    pure ({ f with val := decide (n = 1) }, [])
  | .tick => do hardclock_tick; pure (f, [])
  | .fork_create => do
    match ← Prog.attempt fork_create with
    | .ok _ => pure (f, [])
    | .error e => pure ({ f with result := some e, code := [] }, [])
  | .fork_incref => do
    let cur ← current
    match ← ask fun g => (g.thread cur).t_cwd with
    | none => pure (f, [])
    | some v =>
      Th.vnode_incref v
      pure ({ f with cwd := some v }, [])
  | .fork_link => do
    match ← Prog.attempt (fork_link f.cwd) with
    | .ok newguy => pure (f, [.forked newguy])
    | .error e => pure ({ f with result := some e }, [])
  | .fork_return => pure (if f.result = none then { f with code := [] } else f, [])
  | .fork_fail =>
    match f.cwd with
    | none => pure (f, [])
    | some v => do
      Th.vnode_decref v
      pure ({ f with cwd := none }, [])
  | .exit_cwd => do exit_cwd; pure (f, [])

def Loop.waits (g : Globals) (f : Frame) : Loop → Bool
  | .P s => g.count s = 0
  | .lock_acquire l => (g.lock l).locked = 1
  | .clocksleep => f.num_secs > 0

def Loop.pass : Loop → Th PUnit
  | .P s => P_take s
  | .lock_acquire l => lock_take l
  | .clocksleep => pure ⟨⟩

def Loop.turn (f : Frame) : Loop → Frame
  | .clocksleep => { f with num_secs := f.num_secs - 1 }
  | _ => f

/-! ## The machine -/

/-- The processor is on the stack of thread `on`. `ie` is the interrupt enable flag of the status
register, and `now` counts the steps. -/
structure Kernel where
  g : Globals
  ie : Bool
  pcb_ininterrupt : Tid → Bool
  on : Tid
  stack : Tid → List Frame
  now : Nat

inductive Stop where
  /-- The choice is not possible here. -/
  | disabled
  | halt (p : Halt)
  deriving DecidableEq, Repr

inductive Choice where
  | interrupt
  /-- The next instruction, with the outcomes of its `kmalloc` calls. -/
  | go (mem : Heap)
  /-- A call at `prog` or `service`. -/
  | call (c : Call)
  /-- The end of `prog` or `service`. -/
  | done
  deriving DecidableEq, Repr

namespace Kernel

def goto (k : Kernel) (g : Globals) (fs : List Frame) : Kernel :=
  { k with g := g, stack := Function.update k.stack k.on fs, now := k.now + 1 }

def setIe (k : Kernel) (ie : Bool) : Kernel := { k with ie := ie }

def enter (k : Kernel) : Call → Frame
  | .clocksleep n =>
    { call := .clocksleep n, code := body (.clocksleep n), callspl := k.g.curspl, start := k.now,
      spl := 0, num_secs := n }
  | c => { call := c, code := body c, callspl := k.g.curspl, start := k.now, spl := 0 }

def asleep (k : Kernel) (a : Addr) : Frame :=
  { call := .thread_sleep a, code := [.unzz], callspl := k.g.curspl, start := k.now, spl := 0 }

def interrupted (k : Kernel) : Kernel :=
  let f : Frame :=
    { call := .mips_interrupt, code := body .mips_interrupt, callspl := k.g.curspl, start := k.now,
      spl := k.g.curspl, old_in := k.g.in_interrupt }
  (k.goto { k.g with curspl := SPL_HIGH, in_interrupt := true } (f :: k.stack k.on)).setIe false

def md_switch (k : Kernel) (nu : Tid) : Kernel :=
  if k.on = nu then k
  else
    { k with
      pcb_ininterrupt := Function.update k.pcb_ininterrupt k.on k.g.in_interrupt
      g := { k.g with in_interrupt := k.pcb_ininterrupt nu }
      on := nu }

end Kernel

/-- Runs code on the globals; an error that the code leaves is not one of the source's. -/
def onGlobals {α : Type} (k : Kernel) (mem : Heap) (m : Th α)
    (next : α → Globals → Except Stop (Kernel × List Event)) : Except Stop (Kernel × List Event) :=
  match m (k.g, mem) with
  | .ok (.ok x, (g, _)) => next x g
  | .ok (.error _, _) => .error .disabled
  | .error p => .error (.halt p)

def effects (t : Tid) (f : Frame) : List Event :=
  if f.code = [.irq, .setspl] then [.effect t f.call] else []

def exec (k : Kernel) (mem : Heap) (f : Frame) (below : List Frame) (rest : List Instr) :
    Instr → Except Stop (Kernel × List Event)
  | .nonint =>
    if k.g.in_interrupt then .error (.halt .in_interrupt)
    else .ok (k.goto k.g ({ f with code := rest } :: below), [])
  | .splhigh =>
    .ok ((k.goto { k.g with curspl := SPL_HIGH }
      ({ f with code := rest, spl := k.g.curspl } :: below)).setIe false, [])
  | .irq => .ok ((k.goto k.g ({ f with code := rest } :: below)).setIe (f.spl = 0), [])
  | .setspl => .ok (k.goto { k.g with curspl := f.spl } ({ f with code := rest } :: below), [])
  | .call c => .ok (k.goto k.g (k.enter c :: f :: below), [])
  | .act a => onGlobals k mem (run_act k.on { f with code := rest } a) fun (f', es) g =>
      .ok (k.goto g (f' :: below), effects k.on f' ++ es)
  | .loop x =>
    if x.waits k.g f then
      onGlobals k mem (thread_sleep x.addr) fun _ g =>
        .ok (k.goto g (k.enter .mi_switch :: k.asleep x.addr :: x.turn f :: below),
          [.sleep k.on x.addr])
    else onGlobals k mem x.pass fun _ g =>
      .ok (k.goto g ({ f with code := rest } :: below), effects k.on { f with code := rest })
  | .sleep a => onGlobals k mem (thread_sleep a) fun _ g =>
      .ok (k.goto g (k.enter .mi_switch :: k.asleep a :: f :: below), [.sleep k.on a])
  | .zz a => onGlobals k mem (thread_sleep a) fun _ g =>
      .ok (k.goto g (k.enter .mi_switch :: { f with code := rest } :: below), [.sleep k.on a])
  | .unzz => onGlobals k mem thread_sleep_end fun _ g =>
      .ok (k.goto g ({ f with code := rest } :: below), [])
  | .switch => onGlobals k mem (mi_switch .S_READY) fun _ g =>
      if k.g.curthread = none then .ok (k.goto g ({ f with code := rest } :: below), [])
      else .ok (k.goto g (k.enter .mi_switch :: f :: below), [])
  | .exit_switch => onGlobals k mem exit_switch fun _ g =>
      .ok (k.goto g (k.enter .mi_switch :: f :: below), [.exited k.on])
  | .schedule =>
    if k.g.curspl = 0 then .error (.halt .curspl)
    else if q_empty k.g.runqueue then .ok (k.goto k.g (k.enter .cpu_idle :: f :: below), [])
    else onGlobals k mem scheduler_next fun nu g =>
      .ok ((k.goto g ({ f with code := rest } :: below)).md_switch nu, [.md_switch k.on nu])
  | .idle_on =>
    if k.g.curspl = 0 then .error (.halt .curspl)
    else .ok ((k.goto k.g ({ f with code := rest } :: below)).setIe true, [])
  | .idle_off => .ok ((k.goto k.g ({ f with code := rest } :: below)).setIe false, [])
  | .leave =>
    .ok ((k.goto { k.g with curspl := f.spl, in_interrupt := f.old_in } below).setIe true, [])
  | .dead => .error (.halt .came_back)
  | .prog | .service => .error .disabled

def ret (k : Kernel) (f : Frame) : List Frame → Except Stop (Kernel × List Event)
  | [] => .error (.halt .kmain_returned)
  | caller :: below => .ok (k.goto k.g (caller.resume :: below), [.ret k.on f k.g.curspl])

def step (k : Kernel) : Choice → Except Stop (Kernel × List Event)
  | .interrupt => if k.ie then .ok (k.interrupted, []) else .error .disabled
  | .go mem =>
    match k.stack k.on with
    | [] => .error .disabled
    | f :: below =>
      match f.code with
      | [] => ret k f below
      | i :: rest => exec k mem f below rest i
  | .call c =>
    match k.stack k.on with
    | [] => .error .disabled
    | f :: below =>
      if f.code.head? = some .prog ∧ c.api ∨ f.code.head? = some .service ∧ c.handler then
        .ok (k.goto k.g (k.enter c :: f :: below), [])
      else .error .disabled
  | .done =>
    match k.stack k.on with
    | [] => .error .disabled
    | f :: below =>
      if f.code.head? = some .prog ∨ f.code.head? = some .service then
        .ok (k.goto k.g ({ f with code := f.code.tail } :: below), [])
      else .error .disabled

/-! ## Boot -/

/-- What the machine starts with: the counts given to `sem_create`, and the first thread's current
directory with the references to it. -/
structure Config where
  initial_count : Nat → Int
  cwd : Option Nat
  vn_refcount : Nat → Int

def firstStack (t : Tid) : List Frame :=
  if t = 0 then [{ call := .boot, code := body .boot, callspl := SPL_HIGH, start := 0, spl := 0 }]
  else [{ call := .mi_threadstart, code := body .mi_threadstart, callspl := SPL_HIGH, start := 0, spl := 0 }]

def boot (c : Config) : Kernel where
  g :=
    { curspl := SPL_HIGH
      in_interrupt := false
      curthread := some 0
      runqueue := q_create 32 (by decide) fun _ => 0
      sleepers := array_create
      zombies := array_create
      numthreads := 1
      thread := fun _ => ⟨none, c.cwd⟩
      count := c.initial_count
      lock := fun _ => ⟨0, none⟩
      lbolt_counter := 0
      vn_refcount := c.vn_refcount
      nextthread := 1 }
  ie := false
  pcb_ininterrupt := fun _ => false
  on := 0
  stack := firstStack
  now := 1

def threads (c : Config) : Machine Kernel Choice Event Stop where
  init k := (∀ s, 0 ≤ c.initial_count s) ∧ k = boot c
  step := step

abbrev Reach (c : Config) (ok : Kernel → Choice → Prop) : Kernel → List Event → Prop :=
  (threads c).Reach ok

/-- The state after the choices, if they are possible and do not stop the machine. -/
def after (c : Config) (chs : List Choice) : Option (Kernel × List Event) :=
  match (threads c).run chs (boot c, []) with
  | .ok x => some x
  | .error _ => none

theorem reach_after {c : Config} {chs : List Choice} {x : Kernel × List Event} (h0 : ∀ s, 0 ≤ c.initial_count s)
    (h : after c chs = some x) : Reach c Machine.Any x.1 x.2 := by
  unfold after at h
  split at h
  · rename_i y hr
    cases h
    exact Machine.Reach.run (.init ⟨h0, rfl⟩) hr
  · cases h

def plainConfig : Config := ⟨fun _ => 0, none, fun _ => 0⟩

theorem plainConfig_counts (s : Nat) : 0 ≤ plainConfig.initial_count s := Int.le_refl 0

end Os161.Cpu
