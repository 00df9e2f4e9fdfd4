import Os161.Thread.Specs

/-! # Waking threads

What `thread_wakeup` and `thread_wakeup_one` do to the lists is in `Specs.lean`. Here are the calls as a
whole: they come back, and `thread_hassleepers` says whether they find a thread.
-/

namespace Os161

open Th

def hassleepers_loop (addr : Addr) : Nat → Nat → Th Nat
  | 0, _ => pure 0
  | fuel + 1, i => do
    let g ← ask id
    if hi : i < g.sleepers.num then
      let t := array_getguy g.sleepers ⟨i, hi⟩
      if (g.thread t).t_sleepaddr = some addr then pure 1
      else hassleepers_loop addr fuel (i + 1)
    else pure 0

def thread_hassleepers (addr : Addr) : Th Nat := do
  assert (0 < ·.curspl) .curspl
  let n ← ask (array_getnum ·.sleepers)
  hassleepers_loop addr n 0

section Calls

variable {g : Globals} {h : Heap} {a : Addr}

theorem assert_bind_run {β : Type} {c : Globals → Prop} [DecidablePred c] {p : Halt} {m : PUnit → Th β} (hc : c g) :
    (assert c p >>= m) (g, h) = m ⟨⟩ (g, h) := by
  refine Prog.bind_ok ?_
  rw [assert, if_pos hc]

theorem ask_bind_run {α β : Type} {f : Globals → α} {m : α → Th β} : (ask f >>= m) (g, h) = m (f g) (g, h) := rfl

theorem change_bind_run {β : Type} {f : Globals → Globals} {m : PUnit → Th β} :
    (change f >>= m) (g, h) = m ⟨⟩ (f g, h) := rfl

theorem make_runnable_run {n : Nat} (t : Tid) (hspl : 0 < g.curspl) (hroom : g.runqueue.Room (n + 1) h) :
    ∃ q h', make_runnable t (g, h) = .ok (.ok ⟨⟩, ({ g with runqueue := q }, h')) ∧ q.Room n h' := by
  obtain ⟨q, h', hrun, hroom'⟩ := q_addtail_run hroom t
  refine ⟨q, h', ?_, hroom'⟩
  rw [make_runnable, assert_bind_run hspl]
  simp only [onQueue, hrun]

theorem wake_run {i : Nat} (hi : i < g.sleepers.num) (t : Tid) (hspl : 0 < g.curspl)
    (hroom : g.runqueue.Room g.sleepers.num h) :
    ∃ q h', make_runnable t ({ g with sleepers := array_remove g.sleepers ⟨i, hi⟩ }, h) =
      .ok (.ok ⟨⟩, ({ g with sleepers := array_remove g.sleepers ⟨i, hi⟩, runqueue := q }, h')) ∧
      q.Room (g.sleepers.num - 1) h' := by
  have hnum : g.sleepers.num = g.sleepers.num - 1 + 1 := by omega
  rw [hnum] at hroom
  exact make_runnable_run (g := { g with sleepers := array_remove g.sleepers ⟨i, hi⟩ }) t hspl hroom

theorem wakeup_loop_run (fuel i : Nat) (hspl : 0 < g.curspl) (hroom : g.runqueue.Room g.sleepers.num h) :
    ∃ s, wakeup_loop a fuel i (g, h) = .ok (.ok ⟨⟩, s) := by
  induction fuel generalizing g h i with
  | zero => exact ⟨_, rfl⟩
  | succ fuel ih =>
    simp only [wakeup_loop, ask_bind_run, id_eq]
    by_cases hi : i < g.sleepers.num
    · simp only [dif_pos hi, array_getguy]
      by_cases haddr : (g.thread (g.sleepers.v i)).t_sleepaddr = some a
      · simp only [haddr, ↓reduceIte]
        obtain ⟨q, h', hrun, hroom'⟩ := wake_run hi (g.sleepers.v i) hspl hroom
        rw [change_bind_run, Prog.bind_ok (must_eq_ok.mpr hrun)]
        exact ih i hspl hroom'
      · simp only [haddr, ↓reduceIte]
        exact ih (i + 1) hspl hroom
    · rw [dif_neg hi]
      exact ⟨_, rfl⟩

theorem wakeup_one_loop_run (fuel i : Nat) (hspl : 0 < g.curspl) (hroom : g.runqueue.Room g.sleepers.num h) :
    ∃ s, wakeup_one_loop a fuel i (g, h) = .ok (.ok ⟨⟩, s) := by
  induction fuel generalizing i with
  | zero => exact ⟨_, rfl⟩
  | succ fuel ih =>
    simp only [wakeup_one_loop, ask_bind_run, id_eq]
    by_cases hi : i < g.sleepers.num
    · simp only [dif_pos hi, array_getguy]
      by_cases haddr : (g.thread (g.sleepers.v i)).t_sleepaddr = some a
      · simp only [haddr, ↓reduceIte]
        obtain ⟨q, h', hrun, -⟩ := wake_run hi (g.sleepers.v i) hspl hroom
        exact ⟨_, change_bind_run.trans (must_eq_ok.mpr hrun)⟩
      · simp only [haddr, ↓reduceIte]
        exact ih (i + 1)
    · rw [dif_neg hi]
      exact ⟨_, rfl⟩

theorem thread_wakeup_run (hspl : 0 < g.curspl) (hroom : g.runqueue.Room g.sleepers.num h) :
    ∃ s, thread_wakeup a (g, h) = .ok (.ok ⟨⟩, s) := by
  rw [thread_wakeup, assert_bind_run hspl]
  exact wakeup_loop_run _ 0 hspl hroom

theorem thread_wakeup_one_run (hspl : 0 < g.curspl) (hroom : g.runqueue.Room g.sleepers.num h) :
    ∃ s, thread_wakeup_one a (g, h) = .ok (.ok ⟨⟩, s) := by
  rw [thread_wakeup_one, assert_bind_run hspl]
  exact wakeup_one_loop_run _ 0 hspl hroom

theorem hassleepers_loop_run (fuel : Nat) {i : Nat} (hf : g.sleepers.num ≤ i + fuel) :
    ∃ n, hassleepers_loop a fuel i (g, h) = .ok (.ok n, (g, h)) ∧
      (n ≠ 0 ↔ ∃ t ∈ g.sleepers.toList.drop i, g.sleepsOn a t = true) := by
  have hend : ∀ j, g.sleepers.num ≤ j → g.sleepers.toList.drop j = [] := fun j hj =>
    List.drop_eq_nil_of_le (by simpa using hj)
  induction fuel generalizing i with
  | zero => exact ⟨0, rfl, by simp [hend i (by omega)]⟩
  | succ fuel ih =>
    simp only [hassleepers_loop, ask_bind_run, id_eq]
    by_cases hi : i < g.sleepers.num
    · simp only [dif_pos hi, array_getguy, g.sleepers.drop_toList hi, List.mem_cons, exists_eq_or_imp]
      by_cases haddr : (g.thread (g.sleepers.v i)).t_sleepaddr = some a
      · simp only [haddr, ↓reduceIte]
        exact ⟨1, rfl, by simp [Globals.sleepsOn, haddr]⟩
      · simp only [haddr, ↓reduceIte]
        obtain ⟨n, hrun, hn⟩ := ih (i := i + 1) (by omega)
        exact ⟨n, hrun, hn.trans (by simp [Globals.sleepsOn, haddr])⟩
    · rw [dif_neg hi]
      exact ⟨0, rfl, by simp [hend i (by omega)]⟩

/-- `thread_wakeup` moves the threads on the address to the end of the run queue, `thread_wakeup_one` the
first of them, and nothing else changes. -/
theorem wakeups_move_sleepers (g : Globals) (h : Heap) (a : Addr) (hspl : 0 < g.curspl) :
    (∀ r s, thread_wakeup a (g, h) = .ok (.ok r, s) → Woke a g s.1) ∧
    (∀ r s, thread_wakeup_one a (g, h) = .ok (.ok r, s) → WokeOne a g s.1) ∧
    (g.runqueue.Room g.sleepers.num h →
      (∃ s, thread_wakeup a (g, h) = .ok (.ok ⟨⟩, s)) ∧ ∃ s, thread_wakeup_one a (g, h) = .ok (.ok ⟨⟩, s)) ∧
    ∃ n, thread_hassleepers a (g, h) = .ok (.ok n, (g, h)) ∧
      (n ≠ 0 ↔ ∃ t ∈ g.sleepers.toList, (g.thread t).t_sleepaddr = some a) := by
  refine ⟨fun r s hr => (thread_wakeup_spec hr).2, fun r s hr => (thread_wakeup_one_spec hr).2,
    fun hroom => ⟨thread_wakeup_run hspl hroom, thread_wakeup_one_run hspl hroom⟩, ?_⟩
  obtain ⟨n, hrun, hn⟩ := hassleepers_loop_run (g := g) (h := h) (a := a) (i := 0) g.sleepers.num (by omega)
  refine ⟨n, ?_, by simpa [Globals.sleepsOn] using hn⟩
  rw [thread_hassleepers, assert_bind_run hspl]
  exact hrun

end Calls

def threeSleepers : Globals :=
  { (Cpu.boot ⟨fun _ => 0, none, fun _ => 0⟩).g with
    sleepers := ⟨3, 6, fun i => i + 1, by decide⟩
    numthreads := 4
    thread := fun t => ⟨if t = 2 then some (.sem 0) else some .lbolt, none⟩
    nextthread := 4 }

theorem wakeups_move_three_sleepers :
    0 < threeSleepers.curspl ∧
    (∃ s, thread_wakeup .lbolt (threeSleepers, []) = .ok (.ok ⟨⟩, s) ∧ s.1.sleepers.toList = [2] ∧
      s.1.runqueue.toList = [1, 3]) ∧
    (∃ s, thread_wakeup_one .lbolt (threeSleepers, []) = .ok (.ok ⟨⟩, s) ∧ s.1.sleepers.toList = [2, 3] ∧
      s.1.runqueue.toList = [1]) ∧
    ∃ n, thread_hassleepers .lbolt (threeSleepers, []) = .ok (.ok n, (threeSleepers, [])) ∧ n ≠ 0 := by
  obtain ⟨hall, hone, hruns, n, hn, hiff⟩ := wakeups_move_sleepers threeSleepers [] .lbolt (by decide)
  obtain ⟨⟨s, hs⟩, s', hs'⟩ := hruns (.inl (by decide))
  refine ⟨by decide, ⟨s, hs, ?_, ?_⟩, ⟨s', hs', ?_, ?_⟩, n, hn, hiff.mpr ⟨1, by decide, by decide⟩⟩
  · rw [(hall _ _ hs).sleepers]
    decide
  · rw [(hall _ _ hs).runqueue]
    decide
  · rw [(hone _ _ hs').sleepers]
    decide
  · rw [(hone _ _ hs').runqueue]
    decide

end Os161
