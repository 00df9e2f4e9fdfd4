import Os161.Thread.Machine

/-! # What each piece of the thread system does -/

namespace Os161

open Th

/-! ## Runs that end with a value -/

section Basic

variable {s t : Globals × Heap} {p : Halt} {x : PUnit}

theorem ask_eq_ok {α : Type} {f : Globals → α} {a : α} :
    ask f s = .ok (.ok a, t) ↔ f s.1 = a ∧ t = s := by
  rw [ask]
  constructor
  · rintro ⟨⟩; exact ⟨rfl, rfl⟩
  · rintro ⟨rfl, rfl⟩; rfl

theorem change_eq_ok {f : Globals → Globals} :
    change f s = .ok (.ok x, t) ↔ t = (f s.1, s.2) := by
  rw [change]
  constructor
  · rintro ⟨⟩; rfl
  · rintro rfl; rfl

theorem assert_eq_ok {c : Globals → Prop} [DecidablePred c] :
    assert c p s = .ok (.ok x, t) ↔ c s.1 ∧ t = s := by
  rw [assert]
  split
  · rename_i h
    constructor
    · rintro ⟨⟩; exact ⟨h, rfl⟩
    · rintro ⟨-, rfl⟩; rfl
  · simp_all

theorem must_eq_ok {m : Th PUnit} : must m p s = .ok (.ok x, t) ↔ m s = .ok (.ok x, t) := by
  rw [must]
  split <;> rename_i h <;> simp [h]

theorem current_eq_ok {cur : Tid} :
    current s = .ok (.ok cur, t) ↔ s.1.curthread = some cur ∧ t = s := by
  rw [current]
  split <;> rename_i h <;> simp [h, eq_comm]

theorem onQueue_eq_ok {m : Queue Tid → Prog QPanic Errno Heap (Queue Tid)} :
    onQueue m s = .ok (.ok x, t) ↔
      ∃ q h, m s.1.runqueue s.2 = .ok (.ok q, h) ∧ t = ({ s.1 with runqueue := q }, h) := by
  rw [onQueue]
  split <;> rename_i hm <;> simp [hm, eq_comm]

theorem onSleepers_eq_ok {m : KArray Tid → Alloc (Except Errno (KArray Tid))} :
    onSleepers m s = .ok (.ok x, t) ↔
      ∃ a h, m s.1.sleepers s.2 = (.ok a, h) ∧ t = ({ s.1 with sleepers := a }, h) := by
  rw [onSleepers]
  split <;> rename_i hm <;> simp [hm, eq_comm]

theorem onZombies_eq_ok {m : KArray Tid → Alloc (Except Errno (KArray Tid))} :
    onZombies m s = .ok (.ok x, t) ↔
      ∃ a h, m s.1.zombies s.2 = (.ok a, h) ∧ t = ({ s.1 with zombies := a }, h) := by
  rw [onZombies]
  split <;> rename_i hm <;> simp [hm, eq_comm]

/-! An error keeps the state in which it came. -/

theorem ask_ne_error {α : Type} {f : Globals → α} {e : Errno} : ask f s = .ok (.error e, t) ↔ False := by
  simp [ask]

theorem change_ne_error {f : Globals → Globals} {e : Errno} : change f s = .ok (.error e, t) ↔ False := by
  simp [change]

theorem assert_ne_error {c : Globals → Prop} [DecidablePred c] {e : Errno} :
    assert c p s = .ok (.error e, t) ↔ False := by
  rw [assert]
  split <;> simp

theorem onQueue_eq_error {m : Queue Tid → Prog QPanic Errno Heap (Queue Tid)} {e : Errno} :
    onQueue m s = .ok (.error e, t) ↔ ∃ h, m s.1.runqueue s.2 = .ok (.error e, h) ∧ t = (s.1, h) := by
  rw [onQueue]
  split <;> rename_i hm <;> simp [hm, eq_comm]

theorem onSleepers_eq_error {m : KArray Tid → Alloc (Except Errno (KArray Tid))} {e : Errno} :
    onSleepers m s = .ok (.error e, t) ↔ ∃ h, m s.1.sleepers s.2 = (.error e, h) ∧ t = (s.1, h) := by
  rw [onSleepers]
  split <;> rename_i hm <;> simp [hm, eq_comm]

theorem onZombies_eq_error {m : KArray Tid → Alloc (Except Errno (KArray Tid))} {e : Errno} :
    onZombies m s = .ok (.error e, t) ↔ ∃ h, m s.1.zombies s.2 = (.error e, h) ∧ t = (s.1, h) := by
  rw [onZombies]
  split <;> rename_i hm <;> simp [hm, eq_comm]

end Basic

section Pieces

variable {g g' : Globals} {h h' : Heap} {x : PUnit} {a : Addr}

/-! ## Running and switching -/

theorem make_runnable_spec {t : Tid} (hr : make_runnable t (g, h) = .ok (.ok x, (g', h'))) :
    0 < g.curspl ∧ ∃ q, g' = { g with runqueue := q } ∧ q.toList = g.runqueue.toList ++ [t] ∧
      g.runqueue.size ≤ q.size := by
  simp only [make_runnable, Prog.bind_eq_ok, assert_eq_ok, onQueue_eq_ok] at hr
  obtain ⟨-, -, ⟨hspl, rfl⟩, q, h₁, hq, heq⟩ := hr
  cases heq
  exact ⟨hspl, q, rfl, q_addtail_spec hq⟩

theorem scheduler_next_spec {t : Tid} (hr : scheduler_next (g, h) = .ok (.ok t, (g', h'))) :
    ∃ q, g' = { g with runqueue := q, curthread := some t } ∧ g.runqueue.toList = t :: q.toList ∧
      q.size = g.runqueue.size := by
  rw [scheduler_next] at hr
  split at hr
  · rename_i next q hq
    cases hr
    have := q_remhead_spec hq
    exact ⟨q, rfl, this⟩
  · cases hr

theorem mi_switch_ready_spec (hr : mi_switch .S_READY (g, h) = .ok (.ok x, (g', h'))) :
    0 < g.curspl ∧ ((g.curthread = none ∧ g' = g) ∨ ∃ cur q, g.curthread = some cur ∧
      g' = { g with curthread := none, runqueue := q } ∧ q.toList = g.runqueue.toList ++ [cur] ∧
      g.runqueue.size ≤ q.size) := by
  simp only [mi_switch, Prog.bind_eq_ok, assert_eq_ok, ask_eq_ok] at hr
  obtain ⟨-, -, ⟨hspl, rfl⟩, c, -, ⟨rfl, rfl⟩, hr⟩ := hr
  refine ⟨hspl, ?_⟩
  cases hc : g.curthread with
  | none =>
    simp only [hc, Prog.pure_eq_ok] at hr
    exact .inl ⟨rfl, (Prod.mk.inj hr.2).1⟩
  | some cur =>
    simp only [hc, Prog.bind_eq_ok, change_eq_ok, must_eq_ok] at hr
    obtain ⟨-, -, rfl, hr⟩ := hr
    obtain ⟨-, q, rfl, hq⟩ := make_runnable_spec hr
    exact .inr ⟨cur, q, rfl, rfl, hq⟩

theorem mi_switch_sleep_spec (hr : mi_switch .S_SLEEP (g, h) = .ok (.ok x, (g', h'))) :
    0 < g.curspl ∧ ∀ cur, g.curthread = some cur → ∃ s, g' = { g with curthread := none, sleepers := s } ∧
      s.toList = g.sleepers.toList ++ [cur] ∧ g.sleepers.max ≤ s.max := by
  simp only [mi_switch, Prog.bind_eq_ok, assert_eq_ok, ask_eq_ok] at hr
  obtain ⟨-, -, ⟨hspl, rfl⟩, c, -, ⟨rfl, rfl⟩, hr⟩ := hr
  refine ⟨hspl, fun cur hc => ?_⟩
  simp only [hc, Prog.bind_eq_ok, change_eq_ok, must_eq_ok, mi_switch_stash, onSleepers_eq_ok] at hr
  obtain ⟨-, -, rfl, s, h₁, hs, heq⟩ := hr
  cases heq
  exact ⟨s, rfl, array_add_cases hs⟩

theorem mi_switch_zomb_spec (hr : mi_switch .S_ZOMB (g, h) = .ok (.ok x, (g', h'))) :
    0 < g.curspl ∧ ∀ cur, g.curthread = some cur → ∃ z, g' = { g with curthread := none, zombies := z } ∧
      z.toList = g.zombies.toList ++ [cur] ∧ g.zombies.max ≤ z.max := by
  simp only [mi_switch, Prog.bind_eq_ok, assert_eq_ok, ask_eq_ok] at hr
  obtain ⟨-, -, ⟨hspl, rfl⟩, c, -, ⟨rfl, rfl⟩, hr⟩ := hr
  refine ⟨hspl, fun cur hc => ?_⟩
  simp only [hc, Prog.bind_eq_ok, change_eq_ok, must_eq_ok, mi_switch_stash, onZombies_eq_ok] at hr
  obtain ⟨-, -, rfl, z, h₁, hz, heq⟩ := hr
  cases heq
  exact ⟨z, rfl, array_add_cases hz⟩

theorem thread_sleep_spec (hr : thread_sleep a (g, h) = .ok (.ok x, (g', h'))) :
    0 < g.curspl ∧ ∃ cur s, g.curthread = some cur ∧
      g' = { set_sleepaddr cur (some a) g with curthread := none, sleepers := s } ∧
      s.toList = g.sleepers.toList ++ [cur] ∧ g.sleepers.max ≤ s.max := by
  simp only [thread_sleep, Prog.bind_eq_ok, assert_eq_ok, current_eq_ok, change_eq_ok] at hr
  obtain ⟨-, -, ⟨-, rfl⟩, cur, -, ⟨hc, rfl⟩, -, -, rfl, hr⟩ := hr
  obtain ⟨hspl, hs⟩ := mi_switch_sleep_spec hr
  obtain ⟨s, rfl, hlist⟩ := hs cur hc
  exact ⟨hspl, cur, s, hc, rfl, hlist⟩

theorem thread_sleep_end_spec (hr : thread_sleep_end (g, h) = .ok (.ok x, (g', h'))) :
    ∃ cur, g.curthread = some cur ∧ g' = set_sleepaddr cur none g := by
  simp only [thread_sleep_end, Prog.bind_eq_ok, current_eq_ok, change_eq_ok] at hr
  obtain ⟨cur, -, ⟨hc, rfl⟩, heq⟩ := hr
  cases heq
  exact ⟨cur, hc, rfl⟩

theorem exit_switch_spec (hr : exit_switch (g, h) = .ok (.ok x, (g', h'))) :
    0 < g.curspl ∧ 0 < g.numthreads ∧ ∃ cur z, g.curthread = some cur ∧
      g' = { g with numthreads := g.numthreads - 1, curthread := none, zombies := z } ∧
      z.toList = g.zombies.toList ++ [cur] ∧ g.zombies.max ≤ z.max := by
  simp only [exit_switch, Prog.bind_eq_ok, assert_eq_ok, current_eq_ok, change_eq_ok] at hr
  obtain ⟨cur, -, ⟨hc, rfl⟩, -, -, ⟨hn, rfl⟩, -, -, rfl, hr⟩ := hr
  obtain ⟨hspl, hz⟩ := mi_switch_zomb_spec hr
  obtain ⟨z, rfl, hlist⟩ := hz cur hc
  exact ⟨hspl, hn, cur, z, hc, rfl, hlist⟩

/-! ## Waking -/

def Globals.sleepsOn (g : Globals) (a : Addr) (t : Tid) : Bool := (g.thread t).t_sleepaddr = some a

def Globals.sleepersOn (g : Globals) (a : Addr) : List Tid := g.sleepers.toList.filter (g.sleepsOn a)

structure Woke (a : Addr) (g g' : Globals) : Prop where
  same : g' = { g with sleepers := g'.sleepers, runqueue := g'.runqueue }
  sleepers : g'.sleepers.toList = g.sleepers.toList.filter fun t => !g.sleepsOn a t
  runqueue : g'.runqueue.toList = g.runqueue.toList ++ g.sleepersOn a
  max : g'.sleepers.max = g.sleepers.max
  size : g.runqueue.size ≤ g'.runqueue.size

structure WokeOne (a : Addr) (g g' : Globals) : Prop where
  same : g' = { g with sleepers := g'.sleepers, runqueue := g'.runqueue }
  sleepers : g'.sleepers.toList = g.sleepers.toList.eraseP (g.sleepsOn a)
  runqueue : g'.runqueue.toList = g.runqueue.toList ++ (g.sleepersOn a).take 1
  max : g'.sleepers.max = g.sleepers.max
  size : g.runqueue.size ≤ g'.runqueue.size

theorem KArray.drop_toList {α : Type} (s : KArray α) {i : Nat} (hi : i < s.num) :
    s.toList.drop i = s.v i :: s.toList.drop (i + 1) := by
  rw [List.drop_eq_getElem_cons (by simpa using hi)]
  congr 1
  simp [KArray.toList]

theorem wakeup_loop_spec {fuel i : Nat} (hf : g.sleepers.num ≤ i + fuel)
    (hr : wakeup_loop a fuel i (g, h) = .ok (.ok x, (g', h'))) :
    g' = { g with sleepers := g'.sleepers, runqueue := g'.runqueue } ∧
    g'.sleepers.toList = g.sleepers.toList.take i ++
      (g.sleepers.toList.drop i).filter (fun t => !g.sleepsOn a t) ∧
    g'.runqueue.toList = g.runqueue.toList ++ (g.sleepers.toList.drop i).filter (g.sleepsOn a) ∧
    g'.sleepers.max = g.sleepers.max ∧ g.runqueue.size ≤ g'.runqueue.size := by
  have hend : ∀ j, g.sleepers.num ≤ j → g.sleepers.toList.drop j = [] ∧
      g.sleepers.toList.take j = g.sleepers.toList := fun j hj =>
    ⟨List.drop_eq_nil_of_le (by simpa using hj), List.take_of_length_le (by simpa using hj)⟩
  induction fuel generalizing i g h with
  | zero =>
    rw [wakeup_loop, Prog.pure_eq_ok] at hr
    obtain ⟨-, heq⟩ := hr
    cases heq
    simp [hend i (by omega)]
  | succ fuel ih =>
    simp only [wakeup_loop, Prog.bind_eq_ok, ask_eq_ok, id_eq] at hr
    obtain ⟨_, _, ⟨rfl, rfl⟩, hr⟩ := hr
    by_cases hi : i < g.sleepers.num
    · have hdrop := g.sleepers.drop_toList hi
      simp only [dif_pos hi, array_getguy] at hr
      by_cases haddr : (g.thread (g.sleepers.v i)).t_sleepaddr = some a
      · have hon : g.sleepsOn a (g.sleepers.v i) = true := by simpa [Globals.sleepsOn] using haddr
        simp only [haddr, ↓reduceIte] at hr
        simp only [Prog.bind_eq_ok, change_eq_ok, must_eq_ok] at hr
        obtain ⟨_, _, rfl, _, ⟨g₁, h₁⟩, hm, hr⟩ := hr
        obtain ⟨-, q, rfl, hq, hsize⟩ := make_runnable_spec hm
        have hrem := array_remove_toList g.sleepers ⟨i, hi⟩
        obtain ⟨hsame, hs, hrq, hmax, hsz⟩ := ih (by simp only [array_remove]; omega) hr (by
          intro j hj
          constructor
          · exact List.drop_eq_nil_of_le (by simpa using hj)
          · exact List.take_of_length_le (by simpa using hj))
        have hlen : i < g.sleepers.toList.length := by simpa using hi
        have htake : (g.sleepers.toList.eraseIdx i).take i = g.sleepers.toList.take i := by
          rw [List.eraseIdx_eq_take_drop_succ, List.take_append_of_le_length (by simp; omega), List.take_take,
            Nat.min_self]
        have hdr : (g.sleepers.toList.eraseIdx i).drop i = g.sleepers.toList.drop (i + 1) := by
          rw [List.eraseIdx_eq_take_drop_succ, List.drop_append_of_le_length (by simp; omega)]
          simp
        dsimp only at hs hrq hmax hsz
        rw [hrem, htake, hdr] at hs
        rw [hrem, hdr, hq] at hrq
        refine ⟨hsame, ?_, ?_, hmax, Nat.le_trans hsize hsz⟩
        · rw [hs, hdrop, List.filter_cons_of_neg (by simp [hon])]
          rfl
        · rw [hrq, hdrop, List.filter_cons_of_pos hon, List.append_assoc]
          rfl
      · have hon : g.sleepsOn a (g.sleepers.v i) = false := by simpa [Globals.sleepsOn] using haddr
        simp only [haddr, ↓reduceIte] at hr
        obtain ⟨hsame, hs, hrq, hrest⟩ := ih (by omega) hr hend
        refine ⟨hsame, ?_, ?_, hrest⟩
        · rw [hs, hdrop, List.filter_cons_of_pos (by simp [hon]), List.take_add_one]
          have : g.sleepers.toList[i]? = some (g.sleepers.v i) := by
            rw [KArray.getElem?_toList, if_pos hi]
          simp [this]
        · rw [hrq, hdrop, List.filter_cons_of_neg (by simp [hon])]
    · rw [dif_neg hi, Prog.pure_eq_ok] at hr
      obtain ⟨-, heq⟩ := hr
      cases heq
      simp [hend i (by omega)]

theorem thread_wakeup_spec (hr : thread_wakeup a (g, h) = .ok (.ok x, (g', h'))) :
    0 < g.curspl ∧ Woke a g g' := by
  simp only [thread_wakeup, Prog.bind_eq_ok, assert_eq_ok, ask_eq_ok] at hr
  obtain ⟨-, -, ⟨hspl, rfl⟩, -, -, ⟨rfl, rfl⟩, hr⟩ := hr
  obtain ⟨hsame, hs, hq, hmax, hsize⟩ := wakeup_loop_spec (by simp [array_getnum]) hr
  exact ⟨hspl, hsame, by simpa using hs, by simpa [Globals.sleepersOn] using hq, hmax, hsize⟩

theorem WokeOne.none {i : Nat} (hi : g.sleepers.num ≤ i)
    (hpre : ∀ t ∈ g.sleepers.toList.take i, g.sleepsOn a t = false) : WokeOne a g g := by
  rw [List.take_of_length_le (by simpa using hi)] at hpre
  have hnone : g.sleepersOn a = [] := by
    rw [Globals.sleepersOn, List.filter_eq_nil_iff]
    intro t ht; simp [hpre t ht]
  exact ⟨rfl, (List.eraseP_of_forall_not (by intro t ht; simp [hpre t ht])).symm, by simp [hnone], rfl,
    Nat.le_refl _⟩

theorem wakeup_one_loop_spec {fuel i : Nat} (hf : g.sleepers.num ≤ i + fuel)
    (hpre : ∀ t ∈ g.sleepers.toList.take i, g.sleepsOn a t = false)
    (hr : wakeup_one_loop a fuel i (g, h) = .ok (.ok x, (g', h'))) : WokeOne a g g' := by
  induction fuel generalizing i with
  | zero =>
    rw [wakeup_one_loop, Prog.pure_eq_ok] at hr
    obtain ⟨-, heq⟩ := hr
    cases heq
    exact .none (by omega) hpre
  | succ fuel ih =>
    simp only [wakeup_one_loop, Prog.bind_eq_ok, ask_eq_ok, id_eq] at hr
    obtain ⟨_, _, ⟨rfl, rfl⟩, hr⟩ := hr
    by_cases hi : i < g.sleepers.num
    · have hdrop := g.sleepers.drop_toList hi
      simp only [dif_pos hi, array_getguy] at hr
      by_cases haddr : (g.thread (g.sleepers.v i)).t_sleepaddr = some a
      · have hon : g.sleepsOn a (g.sleepers.v i) = true := by simpa [Globals.sleepsOn] using haddr
        simp only [haddr, ↓reduceIte] at hr
        simp only [Prog.bind_eq_ok, change_eq_ok, must_eq_ok] at hr
        obtain ⟨-, -, rfl, hm⟩ := hr
        obtain ⟨-, q, rfl, hq, hsize⟩ := make_runnable_spec hm
        have hsplit : g.sleepers.toList = g.sleepers.toList.take i ++ g.sleepers.v i ::
            g.sleepers.toList.drop (i + 1) := by
          rw [← hdrop, List.take_append_drop]
        have hpre' : (g.sleepers.toList.take i).filter (g.sleepsOn a) = [] := by
          rw [List.filter_eq_nil_iff]
          intro t ht; simp [hpre t ht]
        refine ⟨rfl, ?_, ?_, rfl, hsize⟩
        · have hne : ∀ t ∈ g.sleepers.toList.take i, ¬ g.sleepsOn a t = true := by
            intro t ht; simp [hpre t ht]
          show (array_remove g.sleepers ⟨i, hi⟩).toList = _
          rw [array_remove_toList, List.eraseIdx_eq_take_drop_succ]
          conv_rhs => rw [hsplit]
          rw [List.eraseP_append_right _ hne, List.eraseP_cons_of_pos hon]
        · show q.toList = _
          rw [hq, Globals.sleepersOn]
          conv_rhs => rw [hsplit]
          rw [List.filter_append, hpre', List.filter_cons_of_pos hon]
          rfl
      · have hon : g.sleepsOn a (g.sleepers.v i) = false := by simpa [Globals.sleepsOn] using haddr
        simp only [haddr, ↓reduceIte] at hr
        refine ih (by omega) ?_ hr
        intro t ht
        rw [List.take_add_one, KArray.getElem?_toList, if_pos hi] at ht
        rcases List.mem_append.mp ht with ht | ht
        · exact hpre t ht
        · rw [Option.toList_some, List.mem_singleton] at ht
          rw [ht, hon]
    · rw [dif_neg hi, Prog.pure_eq_ok] at hr
      obtain ⟨-, heq⟩ := hr
      cases heq
      exact .none (by omega) hpre

theorem thread_wakeup_one_spec (hr : thread_wakeup_one a (g, h) = .ok (.ok x, (g', h'))) :
    0 < g.curspl ∧ WokeOne a g g' := by
  simp only [thread_wakeup_one, Prog.bind_eq_ok, assert_eq_ok, ask_eq_ok] at hr
  obtain ⟨-, -, ⟨hspl, rfl⟩, -, -, ⟨rfl, rfl⟩, hr⟩ := hr
  exact ⟨hspl, wakeup_one_loop_spec (by simp [array_getnum]) (by simp) hr⟩

/-! ## Making and ending threads -/

structure Grown (g g' : Globals) : Prop where
  same : g' = { g with sleepers := g'.sleepers, zombies := g'.zombies, runqueue := g'.runqueue }
  sleepers : g'.sleepers.toList = g.sleepers.toList
  zombies : g'.zombies.toList = g.zombies.toList
  runqueue : g'.runqueue.toList = g.runqueue.toList
  sleepers_max : g.sleepers.max ≤ g'.sleepers.max
  zombies_max : g'.zombies.max = g.zombies.max ∨
    g'.zombies.max = array_newmax (g.numthreads + 1) g.zombies.max (g.numthreads + 1)
  size : g.runqueue.size ≤ g'.runqueue.size

theorem Grown.refl (g : Globals) : Grown g g :=
  ⟨rfl, rfl, rfl, rfl, Nat.le_refl _, .inl rfl, Nat.le_refl _⟩

structure Linked (cwd : Option Nat) (g g' : Globals) : Prop where
  spl : 0 < g.curspl
  same : g' = { g with
    sleepers := g'.sleepers, zombies := g'.zombies, runqueue := g'.runqueue
    numthreads := g.numthreads + 1, nextthread := g.nextthread + 1
    thread := Function.update g.thread g.nextthread ⟨none, cwd⟩ }
  sleepers : g'.sleepers.toList = g.sleepers.toList
  zombies : g'.zombies.toList = g.zombies.toList
  runqueue : g'.runqueue.toList = g.runqueue.toList ++ [g.nextthread]
  sleepers_max : g.numthreads + 1 ≤ g'.sleepers.max
  zombies_max : g'.zombies.max = array_newmax (g.numthreads + 1) g.zombies.max (g.numthreads + 1)
  size : g.numthreads + 1 ≤ g'.runqueue.size

theorem preallocate_toList {α : Type} {s s' : KArray α} {n : Nat}
    (hr : array_preallocate s n h = (.ok s', h')) :
    s'.toList = s.toList ∧ s'.max = array_newmax n s.max n := by
  unfold array_preallocate at hr
  split at hr
  · cases hr
  cases hr
  exact ⟨rfl, rfl⟩

theorem fork_link_spec {cwd : Option Nat} {newguy : Tid}
    (hr : fork_link cwd (g, h) = .ok (.ok newguy, (g', h'))) : newguy = g.nextthread ∧ Linked cwd g g' := by
  simp only [fork_link, scheduler_preallocate, Prog.bind_eq_ok, ask_eq_ok, onSleepers_eq_ok, onZombies_eq_ok,
    assert_eq_ok, onQueue_eq_ok, change_eq_ok, Prog.pure_eq_ok] at hr
  obtain ⟨_, _, ⟨rfl, rfl⟩, _, _, ⟨s, _, hs, rfl⟩, _, _, ⟨z, _, hz, rfl⟩, _, _, ⟨_, _, ⟨hspl, rfl⟩, q, _, hq, rfl⟩,
    _, _, ⟨rfl, rfl⟩, _, ⟨g₁, h₁⟩, hm, _, _, rfl, rfl, heq⟩ := hr
  obtain ⟨-, q', rfl, hq', hsz'⟩ := make_runnable_spec hm
  cases heq
  obtain ⟨hql, -, hsz⟩ := q_preallocate_spec hq
  refine ⟨rfl, hspl, rfl, (preallocate_toList hs).1, (preallocate_toList hz).1, ?_, (preallocate_max hs).2.2.2,
    (preallocate_toList hz).2, Nat.le_trans hsz hsz'⟩
  rw [hq', hql]

theorem fork_link_error {cwd : Option Nat} {e : Errno} (hr : fork_link cwd (g, h) = .ok (.error e, (g', h'))) :
    Grown g g' := by
  simp only [fork_link, scheduler_preallocate, make_runnable, Prog.bind_eq_error, ask_eq_ok, ask_ne_error,
    onSleepers_eq_ok, onSleepers_eq_error, onZombies_eq_ok, onZombies_eq_error, assert_eq_ok, assert_ne_error,
    onQueue_eq_ok, onQueue_eq_error, change_ne_error, Prog.bind_eq_ok, Prog.pure_ne_error, false_or, or_false,
    and_false, exists_false] at hr
  obtain ⟨_, _, ⟨rfl, rfl⟩, hr⟩ := hr
  rcases hr with ⟨_, -, heq⟩ | ⟨_, _, ⟨s, _, hs, rfl⟩, hr⟩
  · cases heq; exact .refl g
  have hsl := (preallocate_toList hs).1
  have hsm := (preallocate_max hs).2.2.1
  rcases hr with ⟨_, -, heq⟩ | ⟨_, _, ⟨z, _, hz, rfl⟩, hr⟩
  · cases heq
    exact ⟨rfl, hsl, rfl, rfl, hsm, .inl rfl, Nat.le_refl _⟩
  have hzl := preallocate_toList hz
  rcases hr with ⟨_, _, ⟨-, rfl⟩, _, -, heq⟩ | ⟨_, _, ⟨_, _, ⟨-, rfl⟩, q, _, hq, rfl⟩, hr⟩
  · cases heq
    exact ⟨rfl, hsl, hzl.1, rfl, hsm, .inr hzl.2, Nat.le_refl _⟩
  have hql := q_preallocate_spec hq
  obtain ⟨_, _, ⟨rfl, rfl⟩, _, _, ⟨-, rfl⟩, _, -, heq⟩ := hr
  cases heq
  exact ⟨rfl, hsl, hzl.1, hql.1, hsm, .inr hzl.2, hql.2.1⟩

end Pieces

end Os161
