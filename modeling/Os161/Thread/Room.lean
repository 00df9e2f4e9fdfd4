import Os161.Thread.Fork

/-! # Room in the tables of the threads

`thread_fork` makes room in the run queue, in `sleepers` and in `zombies` before it adds a thread, so that
switching and waking need no memory. Where that holds, and where it does not.
-/

namespace Os161

open Th

/-! ## Code that does not ask for memory -/

def Halt.memory : Halt → Bool
  | .queue .grow_nsize | .queue .grow_result | .switch_result _ | .wakeup_result | .wakeup_one_result => true
  | _ => false

def Steady {α : Type} (m : Th α) (g : Globals) (Q : α → Globals → Prop) : Prop :=
  (∃ a g', Q a g' ∧ ∀ h, m (g, h) = .ok (.ok a, (g', h))) ∨ ∃ p, p.memory = false ∧ ∀ h, m (g, h) = .error p

section Steady

variable {α β : Type} {g : Globals} {Q : α → Globals → Prop}

theorem Steady.bind {m : Th α} {f : α → Th β} {R : β → Globals → Prop} (hm : Steady m g Q)
    (hf : ∀ a g', Q a g' → Steady (f a) g' R) : Steady (m >>= f) g R := by
  rcases hm with ⟨a, g', hq, hrun⟩ | ⟨p, hp, hrun⟩
  · rcases hf a g' hq with ⟨b, g'', hr, hrun'⟩ | ⟨p, hp, hrun'⟩
    · exact .inl ⟨b, g'', hr, fun h => (Prog.bind_ok (hrun h)).trans (hrun' h)⟩
    · exact .inr ⟨p, hp, fun h => (Prog.bind_ok (hrun h)).trans (hrun' h)⟩
  · exact .inr ⟨p, hp, fun h => by rw [Prog.bind_run, hrun h]⟩

theorem Steady.imp {m : Th α} {R : α → Globals → Prop} (hm : Steady m g Q) (h : ∀ a g', Q a g' → R a g') :
    Steady m g R := by
  rcases hm with ⟨a, g', hq, hrun⟩ | hstop
  · exact .inl ⟨a, g', h a g' hq, hrun⟩
  · exact .inr hstop

theorem steady_pure {a : α} (h : Q a g) : Steady (pure a) g Q := .inl ⟨a, g, h, fun _ => rfl⟩

theorem steady_change {f : Globals → Globals} {Q : PUnit → Globals → Prop} (h : Q ⟨⟩ (f g)) :
    Steady (change f) g Q :=
  .inl ⟨⟨⟩, f g, h, fun _ => rfl⟩

theorem steady_ask_bind {f : Globals → α} {m : α → Th β} {R : β → Globals → Prop} (h : Steady (m (f g)) g R) :
    Steady (ask f >>= m) g R :=
  h

theorem steady_change_bind {f : Globals → Globals} {m : PUnit → Th β} {R : β → Globals → Prop}
    (h : Steady (m ⟨⟩) (f g) R) : Steady (change f >>= m) g R :=
  h

theorem steady_assert_bind {c : Globals → Prop} [DecidablePred c] {p : Halt} {m : PUnit → Th β}
    {R : β → Globals → Prop} (hp : p.memory = false) (h : c g → Steady (m ⟨⟩) g R) :
    Steady (assert c p >>= m) g R := by
  by_cases hc : c g
  · refine Steady.bind (Q := fun _ g' => g' = g) (.inl ⟨⟨⟩, g, rfl, fun _ => if_pos hc⟩) fun _ g' hg => ?_
    rw [hg]
    exact h hc
  · exact .inr ⟨p, hp, fun _ => by rw [Prog.bind_run, assert, if_neg hc]⟩

theorem steady_current_bind {m : Tid → Th β} {R : β → Globals → Prop}
    (h : ∀ cur, g.curthread = some cur → Steady (m cur) g R) : Steady (current >>= m) g R := by
  cases hc : g.curthread with
  | some cur =>
    have hrun : ∀ h, current (g, h) = .ok (.ok cur, (g, h)) := fun _ => by simp only [current, hc]
    refine Steady.bind (Q := fun x g' => x = cur ∧ g' = g) (.inl ⟨cur, g, ⟨rfl, rfl⟩, hrun⟩) fun x g' hx => ?_
    rw [hx.1, hx.2]
    exact h cur hc
  | none =>
    have hrun : ∀ h, current (g, h) = .error .null_curthread := fun _ => by simp only [current, hc]
    exact .inr ⟨.null_curthread, rfl, fun x => by rw [Prog.bind_run, hrun]⟩

theorem steady_must {m : Th PUnit} {p : Halt} {Q : PUnit → Globals → Prop} (hm : Steady m g Q) :
    Steady (must m p) g Q := by
  rcases hm with ⟨a, g', hq, hrun⟩ | ⟨q, hq, hrun⟩
  · exact .inl ⟨a, g', hq, fun h => by rw [must, hrun h]⟩
  · exact .inr ⟨q, hq, fun h => by rw [must, hrun h]⟩

end Steady

/-! ## The run queue -/

section RunQueue

variable {g : Globals} {a : Addr}

theorem make_runnable_steady {t : Tid} (hroom : g.runqueue.length + 1 < g.runqueue.size) :
    Steady (make_runnable t) g fun _ g' => g' = { g with runqueue := q_put g.runqueue t } := by
  refine steady_assert_bind rfl fun _ => .inl ⟨⟨⟩, _, rfl, fun h => ?_⟩
  simp only [onQueue, q_addtail_room hroom]

theorem wake_steady {p : Halt} {i : Nat} {t : Tid} (hi : i < g.sleepers.num)
    (hroom : g.runqueue.length + g.sleepers.num < g.runqueue.size) :
    Steady (must (make_runnable t) p) { g with sleepers := array_remove g.sleepers ⟨i, hi⟩ } fun _ g' =>
      g'.runqueue.length + g'.sleepers.num < g'.runqueue.size ∧ g'.runqueue.size = g.runqueue.size := by
  have hslot : g.runqueue.length + 1 < g.runqueue.size := by omega
  have hput : (q_put g.runqueue t).length = g.runqueue.length + 1 := (q_put_spec hslot).1
  refine (steady_must (make_runnable_steady (by exact hslot))).imp fun _ g' hg => ?_
  rw [hg]
  refine ⟨?_, rfl⟩
  show (q_put g.runqueue t).length + (g.sleepers.num - 1) < g.runqueue.size
  omega

theorem wakeup_loop_steady (fuel i : Nat) (hroom : g.runqueue.length + g.sleepers.num < g.runqueue.size) :
    Steady (wakeup_loop a fuel i) g fun _ g' => g'.runqueue.size = g.runqueue.size := by
  induction fuel generalizing g i with
  | zero => exact steady_pure rfl
  | succ fuel ih =>
    refine steady_ask_bind ?_
    by_cases hi : i < g.sleepers.num
    · simp only [id_eq, dif_pos hi]
      split
      · refine steady_change_bind ((wake_steady hi hroom).bind fun _ g' hg => ?_)
        rw [← hg.2]
        exact ih i hg.1
      · exact ih (i + 1) hroom
    · simp only [id_eq, dif_neg hi]
      exact steady_pure rfl

theorem wakeup_one_loop_steady (fuel i : Nat) (hroom : g.runqueue.length + g.sleepers.num < g.runqueue.size) :
    Steady (wakeup_one_loop a fuel i) g fun _ g' => g'.runqueue.size = g.runqueue.size := by
  induction fuel generalizing i with
  | zero => exact steady_pure rfl
  | succ fuel ih =>
    refine steady_ask_bind ?_
    by_cases hi : i < g.sleepers.num
    · simp only [id_eq, dif_pos hi]
      split
      · exact steady_change_bind ((wake_steady hi hroom).imp fun _ _ hg => hg.2)
      · exact ih (i + 1)
    · simp only [id_eq, dif_neg hi]
      exact steady_pure rfl

theorem thread_wakeup_steady (hroom : g.runqueue.length + g.sleepers.num < g.runqueue.size) :
    Steady (thread_wakeup a) g fun _ g' => g'.runqueue.size = g.runqueue.size :=
  steady_assert_bind rfl fun _ => steady_ask_bind (wakeup_loop_steady _ _ hroom)

theorem thread_wakeup_one_steady (hroom : g.runqueue.length + g.sleepers.num < g.runqueue.size) :
    Steady (thread_wakeup_one a) g fun _ g' => g'.runqueue.size = g.runqueue.size :=
  steady_assert_bind rfl fun _ => steady_ask_bind (wakeup_one_loop_steady _ _ hroom)

theorem mi_switch_ready_steady (hroom : ∀ cur, g.curthread = some cur → g.runqueue.length + 1 < g.runqueue.size) :
    Steady (mi_switch .S_READY) g fun _ g' => g'.runqueue.size = g.runqueue.size := by
  refine steady_assert_bind rfl fun _ => steady_ask_bind ?_
  cases hc : g.curthread with
  | none => exact steady_pure rfl
  | some cur =>
    refine steady_change_bind ((steady_must (make_runnable_steady (by exact hroom cur hc))).imp fun _ g' hg => ?_)
    rw [hg]
    rfl

end RunQueue

/-! ## The arrays -/

section Arrays

variable {g : Globals}

theorem mi_switch_sleep_steady (hroom : ∀ cur, g.curthread = some cur → g.sleepers.num < g.sleepers.max) :
    Steady (mi_switch .S_SLEEP) g fun _ g' => g'.sleepers.max = g.sleepers.max := by
  refine steady_assert_bind rfl fun _ => steady_ask_bind ?_
  cases hc : g.curthread with
  | none => exact steady_pure rfl
  | some cur =>
    refine steady_change_bind (steady_must ?_)
    obtain ⟨b, hb, hmax, -⟩ := array_add_room cur (hroom cur hc)
    exact .inl ⟨⟨⟩, { g with curthread := none, sleepers := b }, hmax, fun h => by
      simp only [mi_switch_stash, onSleepers, hb]⟩

theorem mi_switch_zomb_steady (hroom : ∀ cur, g.curthread = some cur → g.zombies.num < g.zombies.max) :
    Steady (mi_switch .S_ZOMB) g fun _ g' => g'.zombies.max = g.zombies.max := by
  refine steady_assert_bind rfl fun _ => steady_ask_bind ?_
  cases hc : g.curthread with
  | none => exact steady_pure rfl
  | some cur =>
    refine steady_change_bind (steady_must ?_)
    obtain ⟨b, hb, hmax, -⟩ := array_add_room cur (hroom cur hc)
    exact .inl ⟨⟨⟩, { g with curthread := none, zombies := b }, hmax, fun h => by
      simp only [mi_switch_stash, onZombies, hb]⟩

theorem thread_sleep_steady {a : Addr} (hroom : ∀ cur, g.curthread = some cur → g.sleepers.num < g.sleepers.max) :
    Steady (thread_sleep a) g fun _ g' => g'.sleepers.max = g.sleepers.max :=
  steady_assert_bind rfl fun _ => steady_current_bind fun _ _ => steady_change_bind (mi_switch_sleep_steady hroom)

theorem exit_switch_steady (hroom : ∀ cur, g.curthread = some cur → g.zombies.num < g.zombies.max) :
    Steady exit_switch g fun _ g' => g'.zombies.max = g.zombies.max :=
  steady_current_bind fun _ _ => steady_assert_bind rfl fun _ => steady_change_bind (mi_switch_zomb_steady hroom)

end Arrays

namespace Cpu

open Machine (Any)

/-! ## Waking and yielding -/

def Act.wakes : Act → Bool
  | .V_post _ | .lock_drop _ | .cv_wake_one _ _ | .cv_wake _ _ | .wakeup _ | .wakeup_one _ | .tick => true
  | _ => false

def Instr.readies : Instr → Bool
  | .switch => true
  | .act a => a.wakes
  | _ => false

section Ready

variable {k k' : Kernel} {ch : Choice} {es tr : List Event} {g : Globals}

theorem cv_check_steady {l : Nat} : Steady (cv_check l) g fun _ g' => g' = g := by
  refine steady_assert_bind rfl fun _ => ?_
  by_cases hc : (g.lock l).owner = g.curthread
  · exact .inl ⟨⟨⟩, g, rfl, fun _ => if_pos hc⟩
  · exact .inr ⟨.cv_owner, rfl, fun _ => if_neg hc⟩

theorem hardclock_tick_steady (hroom : g.runqueue.length + g.sleepers.num < g.runqueue.size) :
    Steady hardclock_tick g fun _ g' => g'.runqueue.size = g.runqueue.size := by
  refine steady_ask_bind ?_
  split
  · exact steady_change_bind (thread_wakeup_steady (by exact hroom))
  · exact steady_change rfl

theorem run_act_steady {t : Tid} {f : Frame} {a : Act} (ha : a.wakes = true)
    (hroom : g.runqueue.length + g.sleepers.num < g.runqueue.size) :
    Steady (run_act t f a) g fun _ g' => g'.runqueue.size = g.runqueue.size := by
  cases a with
  | V_post s =>
    refine Steady.bind (steady_change_bind (steady_assert_bind rfl fun _ => thread_wakeup_steady ?_))
      fun _ _ hg => steady_pure hg
    exact hroom
  | lock_drop l =>
    refine Steady.bind (steady_assert_bind rfl fun _ => steady_assert_bind rfl fun _ => steady_change_bind
      (thread_wakeup_steady ?_)) fun _ _ hg => steady_pure hg
    exact hroom
  | cv_wake_one c l =>
    refine cv_check_steady.bind fun _ g' hg => ?_
    subst hg
    exact steady_ask_bind ((thread_wakeup_one_steady hroom).bind fun _ _ hg => steady_ask_bind (steady_pure hg))
  | cv_wake c l =>
    refine cv_check_steady.bind fun _ g' hg => ?_
    subst hg
    exact steady_ask_bind ((thread_wakeup_steady hroom).bind fun _ _ hg => steady_ask_bind (steady_pure hg))
  | wakeup x => exact (thread_wakeup_steady hroom).bind fun _ _ hg => steady_pure hg
  | wakeup_one x => exact (thread_wakeup_one_steady hroom).bind fun _ _ hg => steady_pure hg
  | tick => exact (hardclock_tick_steady hroom).bind fun _ _ hg => steady_pure hg
  | _ => cases ha

theorem onGlobals_steady {α : Type} {m : Th α} {Q : α → Globals → Prop}
    {next : α → Globals → Except Stop (Kernel × List Event)} (hm : Steady m k.g Q) :
    (∃ x g', Q x g' ∧ ∀ mem, onGlobals k mem m next = next x g') ∨
      ∃ p, p.memory = false ∧ ∀ mem, onGlobals k mem m next = .error (.halt p) := by
  rcases hm with ⟨x, g', hq, hrun⟩ | ⟨p, hp, hrun⟩
  · exact .inl ⟨x, g', hq, fun mem => by rw [onGlobals, hrun]⟩
  · exact .inr ⟨p, hp, fun mem => by rw [onGlobals, hrun]⟩

theorem step_go {f : Frame} {bs : List Frame} {i : Instr} {rest : List Instr} (hs : k.stack k.on = f :: bs)
    (hc : f.code = i :: rest) (mem : Heap) : step k (.go mem) = exec k mem f bs rest i := by
  simp only [step, hs, hc]

theorem Relisted.room {g' : Globals} (h : Relisted k g' es) :
    (g'.numthreads ≤ k.g.numthreads ∧ k.g.runqueue.size ≤ g'.runqueue.size ∧
      k.g.sleepers.max ≤ g'.sleepers.max ∧ ∀ t, .forked t ∉ es) ∨
    g'.numthreads ≤ g'.runqueue.size ∧ g'.numthreads ≤ g'.sleepers.max := by
  cases h with
  | same h => exact .inl ⟨Nat.le_of_eq h.numthreads, by rw [h.runqueue], by rw [h.sleepers], by simp⟩
  | awake hcur h => subst h; exact .inl ⟨Nat.le_refl _, Nat.le_refl _, Nat.le_refl _, by simp⟩
  | woke h h₀ =>
    refine .inl ⟨?_, h₀.runqueue ▸ h.size, by rw [h.max, h₀.sleepers], by simp⟩
    rw [h.same]
    exact Nat.le_of_eq h₀.numthreads
  | wokeOne h => exact .inl ⟨by rw [h.same], h.size, by rw [h.max], by simp⟩
  | exorcised h => exact .inl ⟨by rw [h], by rw [h], by rw [h], by simp⟩
  | grown hnext h => exact .inl ⟨by rw [h.same], h.size, h.sleepers_max, by simp⟩
  | linked hnext h =>
    have hn : g'.numthreads = k.g.numthreads + 1 := by rw [h.same]
    exact .inr ⟨hn ▸ h.size, hn ▸ h.sleepers_max⟩
  | slept h => exact .inl ⟨by rw [h.same]; exact Nat.le_refl _, by rw [h.same]; exact Nat.le_refl _, h.max, by simp⟩
  | yielded h => exact .inl ⟨by rw [h.same], h.size, by rw [h.same], by simp⟩
  | exited hnext h => exact .inl ⟨by rw [h.same]; exact Nat.sub_le _ _, by rw [h.same], by rw [h.same], by simp⟩
  | @picked nu g₁ b hcur h hg =>
    have hnum : g₁.numthreads = k.g.numthreads := by rw [h.same]
    have hmax : g₁.sleepers = k.g.sleepers := by rw [h.same]
    subst hg
    exact .inl ⟨Nat.le_of_eq hnum, Nat.le_of_eq h.size.symm, by rw [hmax], by simp⟩

theorem reach_ring {c : Config} {ok : Kernel → Choice → Prop} (h : Reach c ok k tr) :
    k.g.numthreads ≤ k.g.runqueue.size := by
  refine Machine.Reach.invariant (I := fun k _ => k.g.numthreads ≤ k.g.runqueue.size) ?_ ?_ h
  · rintro _ ⟨-, rfl⟩
    show 1 ≤ 32
    omega
  · intro _ _ _ _ _ hr hk _ hs
    rcases (moves_relisted (reach_splInv hr) (reach_swInv hr) (step_moves hs)).room with hm | hm
    · omega
    · exact hm.1

theorem PlaceInv.room (h : PlaceInv k tr) : k.g.runqueue.length + k.g.sleepers.num ≤ k.g.numthreads ∧
    ∀ cur, k.g.curthread = some cur → k.g.runqueue.length + k.g.sleepers.num + 1 = k.g.numthreads := by
  have hnum := h.num
  rw [Globals.placed, List.length_append, List.length_append, Queue.length_toList, KArray.length_toList] at hnum
  refine ⟨by omega, fun cur hcur => ?_⟩
  rw [hcur, Option.toList_some, List.length_singleton] at hnum
  omega

/-- Where there are not as many threads as slots, an instruction that makes threads
runnable does the same whatever memory there is, and leaves the ring at its size. -/
theorem runqueue_room {c : Config} (h : Reach c Any k tr) (hspare : k.g.numthreads ≠ k.g.runqueue.size) {f : Frame}
    {bs : List Frame} {i : Instr} {rest : List Instr} (hs : k.stack k.on = f :: bs) (hc : f.code = i :: rest)
    (hi : i.readies = true) :
    ∃ out, (∀ mem, step k (.go mem) = out) ∧ (∀ p, out = .error (.halt p) → p.memory = false) ∧
      ∀ k' es, out = .ok (k', es) → k'.g.runqueue.size = k.g.runqueue.size := by
  obtain ⟨hroom, hcur⟩ := (reach_placeInv h).room
  have hring := reach_ring h
  cases i with
  | switch =>
    have hm := mi_switch_ready_steady (g := k.g) fun cur hc => by
      have := hcur cur hc
      omega
    rcases onGlobals_steady hm with ⟨x, g', hsize, hrun⟩ | ⟨p, hp, hrun⟩
    · refine ⟨_, fun mem => (step_go hs hc mem).trans (hrun mem), ?_, ?_⟩
      · intro p hp
        split at hp <;> cases hp
      · intro k' es hk
        split at hk <;> cases hk <;> exact hsize
    · refine ⟨_, fun mem => (step_go hs hc mem).trans (hrun mem), ?_, ?_⟩
      · rintro q ⟨⟩
        exact hp
      · rintro k' es ⟨⟩
  | act a =>
    have hm := run_act_steady (t := k.on) (f := { f with code := rest }) hi (g := k.g) (by omega)
    rcases onGlobals_steady hm with ⟨⟨f', es'⟩, g', hsize, hrun⟩ | ⟨p, hp, hrun⟩
    · refine ⟨_, fun mem => (step_go hs hc mem).trans (hrun mem), ?_, ?_⟩
      · rintro p ⟨⟩
      · rintro k' es ⟨⟩
        exact hsize
    · refine ⟨_, fun mem => (step_go hs hc mem).trans (hrun mem), ?_, ?_⟩
      · rintro q ⟨⟩
        exact hp
      · rintro k' es ⟨⟩
  | _ => cases hi

def forkChoices : List Choice :=
  [.call .thread_fork, .go [], .done, .go [], .done, .go [], .go [], .go [], .go [], .go [], .go []]

def haltsAt (k : Kernel) (ch : Choice) (p : Halt) : Bool :=
  match step k ch with
  | .error q => q = .halt p
  | .ok _ => false

theorem step_of_haltsAt {p : Halt} (h : haltsAt k ch p = true) : step k ch = .error (.halt p) := by
  unfold haltsAt at h
  split at h
  · rename_i q hq
    rw [hq, of_decide_eq_true h]
  · cases h

/-- The first thread forks 31 threads and yields: the ring of 32 slots holds 31. -/
theorem yield_needs_memory : ∃ k tr, Reach plainConfig Any k tr ∧ k.g.numthreads = 32 ∧ k.g.runqueue.size = 32 ∧
    step k (.go [false]) = .error (.halt (.switch_result .S_READY)) := by
  obtain ⟨k, tr, hreach, hcheck⟩ := Machine.exists_runOk (M := threads plainConfig) (s := boot plainConfig) Any
    ((List.replicate 31 forkChoices).flatten ++ [.call .thread_yield, .go []])
    (fun x => decide (x.1.g.numthreads = 32 ∧ x.1.g.runqueue.size = 32 ∧
      haltsAt x.1 (.go [false]) (.switch_result .S_READY) = true))
    ⟨plainConfig_counts, rfl⟩ (by decide +kernel)
  obtain ⟨hnum, hsize, hhalt⟩ := of_decide_eq_true hcheck
  exact ⟨k, tr, hreach, hnum, hsize, step_of_haltsAt hhalt⟩

theorem runqueue_room_two : ∃ k tr, Reach plainConfig Any k tr ∧ k.g.numthreads = 2 ∧
    ∃ out, ∀ mem, step k (.go mem) = out := by
  obtain ⟨k, tr, hreach, hcheck⟩ := Machine.exists_runOk (M := threads plainConfig) (s := boot plainConfig) Any
    (forkChoices ++ [.call .thread_yield, .go []])
    (fun x => decide (x.1.g.numthreads = 2 ∧ x.1.g.runqueue.size = 32 ∧
      (x.1.stack x.1.on).map Frame.code = [[.switch, .irq, .setspl], [.prog]]))
    ⟨plainConfig_counts, rfl⟩ (by decide +kernel)
  obtain ⟨hnum, hsize, hcode⟩ : k.g.numthreads = 2 ∧ k.g.runqueue.size = 32 ∧ _ := of_decide_eq_true hcheck
  obtain ⟨f, bs, hs, hc, -⟩ := List.map_eq_cons_iff.mp hcode
  obtain ⟨out, hout, -⟩ := runqueue_room hreach (by omega) hs hc rfl
  exact ⟨k, tr, hreach, hnum, out, hout⟩

/-! ## Sleeping and exiting -/

def Instr.sleeps (g : Globals) (f : Frame) : Instr → Bool
  | .loop x => x.waits g f
  | .sleep _ | .zz _ => true
  | _ => false

theorem reach_slots {c : Config} {ok : Kernel → Choice → Prop} (h : Reach c ok k tr) {t : Tid}
    (hfork : .forked t ∈ tr) : k.g.numthreads ≤ k.g.sleepers.max := by
  refine Machine.Reach.invariant (I := fun k tr => ∀ t, .forked t ∈ tr → k.g.numthreads ≤ k.g.sleepers.max)
    ?_ ?_ h t hfork
  · intro _ _ t ht
    cases ht
  · intro k k' _ tr es hr hk _ hs t ht
    rcases (moves_relisted (reach_splInv hr) (reach_swInv hr) (step_moves hs)).room with ⟨hnum, -, hmax, hes⟩ | hm
    · rcases List.mem_append.mp ht with ht | ht
      · exact absurd ((mem_listed rfl).mpr ht) (hes t)
      · have := hk t ht
        omega
    · exact hm.2

theorem exec_steady {f : Frame} {bs : List Frame} {i : Instr} {rest : List Instr} {m : Th PUnit} {Q : Globals → Prop}
    {next : Globals → Kernel × List Event} (hs : k.stack k.on = f :: bs) (hc : f.code = i :: rest)
    (hm : Steady m k.g fun _ g' => Q g') (hnext : ∀ g, (next g).1.g = g)
    (hexec : ∀ mem, exec k mem f bs rest i = onGlobals k mem m fun _ g => .ok (next g)) :
    ∃ out, (∀ mem, step k (.go mem) = out) ∧ (∀ p, out = .error (.halt p) → p.memory = false) ∧
      ∀ k' es, out = .ok (k', es) → Q k'.g := by
  rcases onGlobals_steady hm with ⟨x, g', hq, hrun⟩ | ⟨p, hp, hrun⟩
  · refine ⟨_, fun mem => (step_go hs hc mem).trans ((hexec mem).trans (hrun mem)), nofun, ?_⟩
    intro k' es hk
    have hk' : next g' = (k', es) := Except.ok.inj hk
    have hg := hnext g'
    rw [hk'] at hg
    rwa [show k'.g = g' from hg]
  · refine ⟨_, fun mem => (step_go hs hc mem).trans ((hexec mem).trans (hrun mem)), ?_, nofun⟩
    rintro q ⟨⟩
    exact hp

def exitChoices : List Choice := [.call .thread_exit, .go [], .done, .go [], .done]

def relayChoices : List Choice := List.flatten [forkChoices, exitChoices, [.go [], .go [], .go [], .go []]]

end Ready

end Cpu

end Os161
