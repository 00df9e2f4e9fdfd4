import Os161.Thread.Waiters

/-! # Condition variables over every run -/

namespace Os161.Cpu

/-! ## The calls of `cv_wait` -/

def Frame.early (f : Frame) : Bool := decide (5 < f.code.length)

def Choice.uses (v : Nat) : Choice → Option Nat
  | .call (.cv_wait c l) | .call (.cv_signal c l) | .call (.cv_broadcast c l) => if c = v then some l else none
  | _ => none

def Orderly (v l : Nat) (k : Kernel) (ch : Choice) : Prop := Polite k ch ∧ ∀ m ∈ ch.uses v, m = l

instance (v l : Nat) (k : Kernel) (ch : Choice) : Decidable (Orderly v l k ch) :=
  inferInstanceAs (Decidable (_ ∧ _))

section Calls

variable {v l m : Nat} {k k' : Kernel} {ch : Choice} {es tr : List Event} {f x : Frame} {bs : List Frame} {t : Tid}
  {i : Instr} {rest : List Instr}

theorem Wf.early_next (hwf : Wf f) (hf : f.call = .cv_wait v m) (hc : f.code = i :: rest) :
    i = .act (.cv_check v m) ∧ f.early = true ∧ decide (5 < rest.length) = false ∨
      (∀ a, i ≠ .act a) ∧ decide (5 < rest.length) = f.early := by
  rw [Frame.early, hc]
  cases hwf.cv_stage hf hc with
  | check => exact .inl ⟨rfl, rfl, rfl⟩
  | nonint | splhigh | release | sleep | acquire | irq | setspl => exact .inr ⟨by simp, rfl⟩

theorem Wf.early_quiet (hwf : Wf f) (hf : f.call = .cv_wait v m) (h : f.early = true) : f.quiet := by
  intro i hi
  obtain ⟨rest, hc⟩ := List.head?_eq_some_iff.mp hi
  rw [Frame.early, hc] at h
  cases hwf.cv_stage hf hc with
  | nonint | splhigh | check => exact ⟨fun _ => rfl, by simp⟩
  | release | sleep | acquire | irq | setspl => cases h

theorem moves_cv_frames (hsp : SplInv k) (hm : Moves k ch k' es) (hx : x ∈ k'.stack t) (hcall : x.call = .cv_wait v m) :
    (∃ y ∈ k.stack t, y.call = x.call ∧ y.start = x.start ∧ y.early = x.early) ∨
      t = k.on ∧ (x.early = true ∧ x.start = k.now ∧ ch = .call (.cv_wait v m) ∨
        x.early = false ∧ ∃ y bs rest, k.stack k.on = y :: bs ∧ y.code = .act (.cv_check v m) :: rest ∧
          y.call = x.call ∧ y.start = x.start) := by
  rcases moves_frames hm hx with hold | ⟨rfl, hcomes⟩
  · exact .inl ⟨x, hold, rfl, rfl, rfl⟩
  cases hcomes with
  | old hold => exact .inl ⟨x, hold, rfl, rfl, rfl⟩
  | fresh hfresh =>
    cases hfresh with
    | @call f bs i rest c hs hc hcalls hi =>
      rw [enter_call] at hcall
      subst hcall
      have hfits := ((hsp.wf_top hs).checked hc).2
      rcases hi with ⟨-, rfl⟩ | rfl | rfl | rfl
      · exact .inr ⟨rfl, .inl ⟨rfl, rfl, rfl⟩⟩
      · cases hcalls
      · rcases hfits with ⟨-, hc'⟩ | ⟨-, hc'⟩ | ⟨v, l, -, hc' | hc'⟩ <;> cases hc'
      · cases hcalls
    | switch => cases hcall
    | asleep => cases hcall
    | interrupt hint => cases hint.symm.trans hcall
  | @resumed f c bs hs hc hxc =>
    have hmem : c ∈ k.stack k.on := by rw [hs]; simp
    have hwf := hsp.wf _ c hmem
    obtain ⟨habove, -⟩ := List.isChain_cons_cons.mp (hsp.chain_top hs)
    obtain ⟨i, rest, hci, hcalls⟩ := habove.caller fun hint => (hsp.wf_top hs).alive hint hc
    subst hxc
    refine .inl ⟨c, hmem, ?_⟩
    unfold Frame.resume at hcall ⊢
    rw [hci] at hcall ⊢
    dsimp only at hcall ⊢
    by_cases hstays : i.stays = true
    · rw [if_pos hstays]
      exact ⟨rfl, rfl, rfl⟩
    · rw [if_neg hstays] at hcall ⊢
      refine ⟨rfl, rfl, ?_⟩
      rcases hwf.early_next hcall hci with ⟨rfl, -⟩ | ⟨-, hearly⟩
      · cases hcalls
      · exact hearly.symm
  | @altered f bs hs halt =>
    have hwf := hsp.wf_top hs
    have hmem : f ∈ k.stack k.on := by rw [hs]; simp
    cases halt with
    | next hc hi spl =>
      rcases hwf.early_next hcall hc with ⟨rfl, -⟩ | ⟨-, hearly⟩
      · exact absurd rfl (hi _)
      · exact .inl ⟨f, hmem, rfl, rfl, hearly.symm⟩
    | turn n => exact .inl ⟨f, hmem, rfl, rfl, rfl⟩
    | @act _ a rest g' es hc ha =>
      obtain ⟨hcall', -, -, hstart, hcode, -⟩ := ha.frame
      have hcall' : x.call = f.call := hcall'
      have hf : f.call = .cv_wait v m := hcall'.symm.trans hcall
      rcases hwf.early_next hf hc with ⟨hi, -, hlate⟩ | ⟨hi, -⟩
      · obtain rfl : a = .cv_check v m := by simpa using hi
        refine .inr ⟨rfl, .inr ⟨?_, f, bs, rest, hs, hc, hcall'.symm, hstart.symm⟩⟩
        rcases hcode with hcode | ⟨-, hfork⟩
        · rw [Frame.early, hcode]
          exact hlate
        · cases hfork
      · exact absurd rfl (hi a)

theorem moves_cv_check (hsp : SplInv k) (hm : Moves k ch k' es) (hs : k.stack k.on = f :: bs)
    (hc : f.code = .act (.cv_check v m) :: rest) : es.filter (Event.onCv v) = [.wait k.on v m f.start] := by
  have hf : f.call = .cv_wait v m := ((hsp.wf_top hs).checked hc).2
  have hie : k.ie = false := by
    have hr := hsp.ready_top hs
    unfold Ready at hr
    rw [hf, hc] at hr
    exact hr.2.1
  have hkey : ∀ {y : Frame} {ys : List Frame} {j : Instr} {js : List Instr}, k.stack k.on = y :: ys →
      y.code = j :: js → j = .act (.cv_check v m) := by
    intro y ys j js hs' hc'
    cases hs.symm.trans hs'
    exact (List.cons.inj (hc'.symm.trans hc)).1
  cases hm with
  | interrupt h => cases h.symm.trans hie
  | ret hs' hc' =>
    cases hs.symm.trans hs'
    cases hc.symm.trans hc'
  | call hs' hc' hcalls =>
    obtain rfl := hkey hs' hc'
    cases hcalls
  | skip hs' hc' hi =>
    obtain rfl := hkey hs' hc'
    simp at hi
  | sleep hs' hc' hi =>
    obtain rfl := hkey hs' hc'
    simp at hi
  | @act y f' ys a rest' g' es' hs' hc' ha =>
    obtain rfl : a = .cv_check v m := by simpa using hkey hs' hc'
    cases hs.symm.trans hs'
    obtain ⟨-, -, -, -, rfl⟩ := ha
    rw [List.filter_append, effects_onCv, List.nil_append, List.filter_cons_of_pos (by simp [Event.onCv])]
    rfl
  | splhigh hs' hc' | irq hs' hc' | setspl hs' hc' | idle_on hs' hc' | idle_off hs' hc' | leave hs' hc'
  | pass hs' hc' | zz hs' hc' | unzz hs' hc' | switch hs' hc' | exit hs' hc' | schedule hs' hc' =>
    cases hkey hs' hc'

theorem moves_now (hm : Moves k ch k' es) : k'.now = k.now + 1 := by
  cases hm with
  | schedule =>
    unfold Kernel.md_switch
    split <;> rfl
  | _ => rfl

structure CvFrame (v l : Nat) (k : Kernel) (tr : List Event) (t : Tid) (f : Frame) : Prop where
  call : f.call = .cv_wait v l
  start : f.start < k.now
  early : f.early = true → inside l t tr = true → ∀ w ∈ waiters v tr, w.2 < f.start
  late : f.early = false → (t, f.start) ∈ waiters v tr ∨ Woken v t f.start tr

structure CvInv (v l : Nat) (k : Kernel) (tr : List Event) : Prop where
  frames : ∀ t, ∀ f ∈ k.stack t, ∀ m, f.call = .cv_wait v m → CvFrame v l k tr t f
  past : ∀ w ∈ waiters v tr, w.2 < k.now
  sorted : (waiters v tr).Pairwise fun x y => x.2 < y.2

theorem Recved.mem_waiters {es : List Event} (hr : Recved v k k' es) {w : Tid × Nat}
    (hw : w ∈ waiters v (es ++ tr)) : w ∈ waiters v tr ∨ ∃ m f bs rest, k.stack k.on = f :: bs ∧
      f.call = .cv_wait v m ∧ f.code = .act (.cv_check v m) :: rest ∧ (k.g.lock m).owner = some k.on ∧
      k'.stack k.on = { f with code := rest } :: bs ∧ w = (k.on, f.start) := by
  cases hr with
  | same | sleep => exact .inl hw
  | wait hs hf hc howner hs' =>
    simp only [List.singleton_append, waiters, if_pos] at hw
    rcases List.mem_append.mp hw with hw | hw
    · exact .inl hw
    · exact .inr ⟨_, _, _, _, hs, hf, hc, howner, hs', List.mem_singleton.mp hw⟩
  | signal =>
    simp only [List.singleton_append, waiters, if_pos] at hw
    exact .inl (List.mem_of_mem_tail hw)
  | broadcast =>
    simp only [List.singleton_append, waiters, if_pos] at hw
    cases hw

theorem CvInv.early_step (h : CvInv v l k tr) (hlock : LockInv k tr) (hsp : SplInv k)
    (hr : Recved v k k' (es.filter (Event.onCv v))) (hsync : Resynced k k'.g (es.filter Event.sync)) {y : Frame}
    (hy : y ∈ k.stack t) (hycall : y.call = .cv_wait v m) (hyearly : y.early = true) (hx : x ∈ k'.stack t)
    (hxcall : x.call = .cv_wait v m) (hxearly : x.early = true) (hin : inside l t (es ++ tr) = true) :
    ∀ w ∈ waiters v (es ++ tr), w.2 < y.start := by
  intro w hw
  rw [inside_of_quiet hsp hsync hy ((hsp.wf t y hy).early_quiet hycall hyearly)] at hin
  rw [← waiters_filter] at hw
  rcases hr.mem_waiters hw with hw | ⟨m', f, bs, rest, hs, hf, hc, howner, hs', rfl⟩
  · exact (h.frames t y hy m hycall).early hyearly hin w hw
  -- the new waiter holds the lock, so the thread is the same
  have hmem : f ∈ k.stack k.on := by rw [hs]; exact List.mem_cons_self
  obtain rfl : m' = l := by simpa [hf] using (h.frames k.on f hmem m' hf).call
  obtain rfl : k.on = t := Option.some.inj (howner.symm.trans ((hlock _ _).mp hin))
  rw [hs'] at hx
  rcases List.mem_cons.mp hx with rfl | hx
  · rcases (hsp.wf_top hs).early_next hf hc with ⟨-, -, hlate⟩ | ⟨hi, -⟩
    · cases hxearly.symm.trans hlate
    · exact absurd rfl (hi _)
  · have hquiet := (hsp.wf_below hs x hx).early_quiet hxcall hxearly
    have hhandler := handlerish_of_quiet (hsp.chain_top hs) (hsp.wf_below hs) hx hquiet
    rw [hf] at hhandler
    cases hhandler

theorem CvInv.past_step (h : CvInv v l k tr) (hr : Recved v k k' (es.filter (Event.onCv v))) :
    ∀ w ∈ waiters v (es ++ tr), w.2 < k.now := by
  intro w hw
  rw [← waiters_filter] at hw
  rcases hr.mem_waiters hw with hw | ⟨m', f, bs, rest, hs, hf, -, -, -, rfl⟩
  · exact h.past w hw
  · exact (h.frames k.on f (by rw [hs]; exact List.mem_cons_self) m' hf).start

theorem CvInv.sorted_step (h : CvInv v l k tr) (hlock : LockInv k tr) (hsp : SplInv k)
    (hr : Recved v k k' (es.filter (Event.onCv v))) : (waiters v (es ++ tr)).Pairwise fun x y => x.2 < y.2 := by
  rw [← waiters_filter]
  generalize es.filter (Event.onCv v) = es' at hr
  cases hr with
  | same | sleep => exact h.sorted
  | @wait m f bs rest hs hf hc howner hs' =>
    simp only [List.singleton_append, waiters, if_pos]
    have hF := h.frames k.on f (by rw [hs]; exact List.mem_cons_self) m hf
    obtain rfl : m = l := by simpa [hf] using hF.call
    have hearly : f.early = true := by
      rcases (hsp.wf_top hs).early_next hf hc with ⟨-, hearly, -⟩ | ⟨hi, -⟩
      · exact hearly
      · exact absurd rfl (hi _)
    refine List.pairwise_append.mpr ⟨h.sorted, List.pairwise_singleton _ _, ?_⟩
    intro w hw x hx
    rw [List.mem_singleton.mp hx]
    exact hF.early hearly ((hlock _ _).mpr howner) w hw
  | signal =>
    simp only [List.singleton_append, waiters, if_pos]
    exact h.sorted.tail
  | broadcast =>
    simp only [List.singleton_append, waiters, if_pos]
    exact .nil

theorem CvInv.step (h : CvInv v l k tr) (hwait : WaitInv v k tr) (hlock : LockInv k tr) (hsp : SplInv k)
    (hnodup : k.g.sleepers.toList.Nodup) (hr : Recved v k k' (es.filter (Event.onCv v)))
    (hsync : Resynced k k'.g (es.filter Event.sync)) (hm : Moves k ch k' es) (huses : ∀ m ∈ ch.uses v, m = l) :
    CvInv v l k' (es ++ tr) := by
  have hnow := moves_now hm
  refine ⟨?_, ?_, h.sorted_step hlock hsp hr⟩
  · intro t x hx m hcall
    rcases moves_cv_frames hsp hm hx hcall with ⟨y, hy, hycall, hstart, hyearly⟩ |
      ⟨rfl, ⟨hearly, hstart, rfl⟩ | ⟨hlate, y, bs, rest, hs, hc, hycall, hstart⟩⟩
    · have hF := h.frames t y hy m (hycall.trans hcall)
      refine ⟨hycall.symm.trans hF.call, ?_, ?_, ?_⟩
      · have := hF.start
        omega
      · intro hxearly hin
        rw [← hstart]
        exact h.early_step hlock hsp hr hsync hy (hycall.trans hcall) (hyearly.trans hxearly) hx hcall hxearly hin
      · intro hxlate
        rw [← hstart]
        rcases hF.late (hyearly.trans hxlate) with hw | hw
        · exact hr.waits hwait hnodup hw
        · exact .inr (hw.append es)
    · have hml : m = l := huses m (by simp [Choice.uses])
      refine ⟨hml ▸ hcall, by omega, fun _ _ => ?_, fun hlate => (by cases hearly.symm.trans hlate)⟩
      rw [hstart]
      exact h.past_step hr
    · have hF := h.frames k.on y (by rw [hs]; exact List.mem_cons_self) m (hycall.trans hcall)
      refine ⟨hycall.symm.trans hF.call, ?_, fun hearly => (by cases hearly.symm.trans hlate), fun _ => .inl ?_⟩
      · have := hF.start
        omega
      · rw [← waiters_filter, moves_cv_check hsp hm hs hc, ← hstart]
        simp [waiters]
  · intro w hw
    have := h.past_step hr w hw
    omega

theorem boot_cvInv {c : Config} : CvInv v l (boot c) [] := by
  refine ⟨?_, nofun, .nil⟩
  intro t f hf m hcall
  have hf : f ∈ firstStack t := hf
  unfold firstStack at hf
  split at hf
  · rw [List.mem_singleton.mp hf] at hcall
    cases hcall
  · rw [List.mem_singleton.mp hf] at hcall
    cases hcall

theorem reach_polite {c : Config} (h : Reach c (Orderly v l) k tr) : Reach c Polite k tr := h.mono fun _ _ hok => hok.1

theorem reach_cvInv {c : Config} (h : Reach c (Orderly v l) k tr) : CvInv v l k tr := by
  refine Machine.Reach.invariant (I := CvInv v l) ?_ ?_ h
  · rintro _ ⟨-, rfl⟩
    exact boot_cvInv
  · intro k k' ch tr es hr hk hok hs
    have hpol := reach_polite hr
    exact hk.step (reach_waitInv hpol) (reach_lockInv hr) (reach_splInv hr) (reach_placeInv hr).sleepers_nodup
      (reach_recved hpol hs) (moves_resynced (reach_splInv hr) (reach_swInv hr) (step_moves hs)) (step_moves hs) hok.2

theorem enqueued_cur (hsp : SplInv k) (hsw : SwInv k) (ht : t ∈ k.enqueued v) :
    k.g.curthread = some t ∧ k.ie = false := by
  unfold Kernel.enqueued at ht
  split at ht
  · rename_i hpend
    rw [List.mem_singleton.mp ht]
    refine ⟨?_, ?_⟩
    · cases hs : k.stack k.on with
      | nil =>
        rw [hs] at hpend
        cases hpend
      | cons f bs =>
        refine hsw.curthread hsp hs ?_
        rw [hs, pendingOn, Bool.or_eq_true, Bool.and_eq_true] at hpend
        rcases hpend with hpend | ⟨hrel, -⟩
        · obtain ⟨l, hf⟩ := pending_call hpend
          rw [hf]
          rfl
        · cases hf : f.call <;> simp_all [Call.releases, Call.handlerish]
    · by_contra hie
      have hnone := enqueued_of_ie (v := v) hsp (by simpa using hie)
      rw [Kernel.enqueued, if_pos hpend] at hnone
      cases hnone
  · cases ht

theorem CvInv.returns (h : CvInv v l k tr) (hwait : WaitInv v k tr) (hp : PlaceInv k tr) (hsp : SplInv k)
    (hsw : SwInv k) (hm : Moves k ch k' es) {n : Nat} (he : .ret t f n ∈ es) (hf : f.call = .cv_wait v m) :
    m = l ∧ Woken v t f.start tr := by
  cases hm with
  | @ret _ c bs hs hc =>
    simp only [List.mem_singleton, Event.ret.injEq] at he
    obtain ⟨rfl, rfl, -⟩ := he
    have hF := h.frames k.on f (by rw [hs]; exact List.mem_cons_self) m hf
    refine ⟨by simpa [hf] using hF.call, ?_⟩
    rcases hF.late (by rw [Frame.early, hc]; rfl) with hw | hw
    · -- the thread runs, so it does not sleep, and it is not on its way
      have hmem : k.on ∈ (waiters v tr).map Prod.fst := List.mem_map_of_mem hw
      unfold WaitInv at hwait
      rw [hwait, enqueued_top hs, pendingOn, pending_nil hc, hf] at hmem
      have hsleeps : k.on ∈ k.g.sleepersOn (.cv v) := by simpa [Call.releases] using hmem
      have hcur := hsw.curthread hsp hs (by rw [hf]; rfl)
      exact absurd (List.mem_filter.mp hsleeps).1 (hp.cur_not_mem hcur).2
    · exact hw
  | act hs hc ha => cases ha.events _ he
  | pass => cases effects_ofAct _ he
  | _ => simp at he

theorem Recved.leaves (hr : Recved v k k' (es.filter (Event.onCv v))) (hnodup : k.g.sleepers.toList.Nodup)
    (ht : t ∈ k.g.sleepersOn (.cv v)) (hnot : t ∉ k'.g.sleepersOn (.cv v)) : ∃ e ∈ es, t ∈ e.wakes v := by
  generalize hes : es.filter (Event.onCv v) = es' at hr
  have hmem : ∀ {e : Event}, es' = [e] → e ∈ es := by
    rintro e rfl
    exact (List.mem_filter.mp (hes ▸ List.mem_singleton_self e)).1
  cases hr with
  | same hon | wait _ _ _ _ _ hon =>
    rw [hon] at hnot
    exact absurd ht hnot
  | sleep hon =>
    rw [hon] at hnot
    exact absurd (List.mem_append_left _ ht) hnot
  | signal hw henq =>
    refine ⟨_, hmem rfl, ?_⟩
    rw [Event.wakes, if_pos rfl, hw.removed hnodup]
    rw [hw.sleepersOn] at hnot
    cases hon : k.g.sleepersOn (.cv v) with
    | nil =>
      rw [hon] at ht
      cases ht
    | cons u us =>
      rw [hon] at ht hnot
      rcases List.mem_cons.mp ht with rfl | ht
      · exact List.mem_singleton_self _
      · exact absurd ht hnot
  | broadcast hw henq =>
    refine ⟨_, hmem rfl, ?_⟩
    rw [Event.wakes, if_pos rfl, hw.removed]
    exact ht

end Calls

/-! ## The theorem -/

/-- The waiters are in the order of their calls, and leave by a signal, which takes the
first, or by a broadcast, which takes all. `cv_wait` returns to a thread that was taken, with the lock. -/
theorem cvs_lose_no_signal {c : Config} {v l : Nat} {k : Kernel} {tr : List Event} (h : Reach c (Orderly v l) k tr) :
    (waiters v tr).Pairwise (fun x y => x.2 < y.2) ∧
      (∀ w ∈ waiters v tr, w.1 ∈ k.g.sleepersOn (.cv v) ∨ k.g.curthread = some w.1 ∧ k.ie = false) ∧
      ∀ ch k' es, step k ch = .ok (k', es) →
        (∀ t m start, .wait t v m start ∈ es → m = l ∧ inside l t tr = true) ∧
        (∀ m rs, .signal v m rs ∈ es → rs = ((waiters v tr).take 1).map Prod.fst ∧
          k'.g.sleepersOn (.cv v) = (k.g.sleepersOn (.cv v)).tail) ∧
        (∀ m rs, .broadcast v m rs ∈ es → rs = (waiters v tr).map Prod.fst ∧ k'.g.sleepersOn (.cv v) = []) ∧
        (∀ t ∈ k.g.sleepersOn (.cv v), t ∉ k'.g.sleepersOn (.cv v) → ∃ e ∈ es, t ∈ e.wakes v) ∧
        ∀ t f n m, .ret t f n ∈ es → f.call = .cv_wait v m → m = l ∧ inside l t tr = true ∧ Woken v t f.start tr := by
  have hpol := reach_polite h
  have hcv := reach_cvInv h
  have hwait := reach_waitInv (v := v) hpol
  have hnodup := (reach_placeInv h).sleepers_nodup
  refine ⟨hcv.sorted, ?_, ?_⟩
  · intro w hw
    have hmem : w.1 ∈ (waiters v tr).map Prod.fst := List.mem_map_of_mem hw
    rw [hwait] at hmem
    rcases List.mem_append.mp hmem with hmem | hmem
    · exact .inl hmem
    · exact .inr (enqueued_cur (reach_splInv h) (reach_swInv h) hmem)
  intro ch k' es hs
  have hr := reach_recved (v := v) hpol hs
  have hfilter : ∀ {e : Event}, e ∈ es → e.onCv v = true → e ∈ es.filter (Event.onCv v) := fun he hon =>
    List.mem_filter.mpr ⟨he, hon⟩
  refine ⟨?_, ?_, ?_, ?_, ?_⟩
  · intro t m start he
    have he := hfilter he (by simp [Event.onCv])
    generalize es.filter (Event.onCv v) = es' at hr he
    cases hr with
    | @wait m' f bs rest hs hf hc howner =>
      simp only [List.mem_singleton, Event.wait.injEq, true_and] at he
      obtain ⟨rfl, rfl, -⟩ := he
      have hF := hcv.frames k.on f (by rw [hs]; exact List.mem_cons_self) m hf
      obtain rfl : m = l := by simpa [hf] using hF.call
      exact ⟨rfl, (reach_lockInv h _ _).mpr howner⟩
    | _ => simp at he
  · intro m rs he
    have he := hfilter he (by simp [Event.onCv])
    generalize es.filter (Event.onCv v) = es' at hr he
    cases hr with
    | signal hw henq =>
      simp only [List.mem_singleton, Event.signal.injEq, true_and] at he
      rw [he.2]
      exact ⟨hwait.signal hnodup hw henq, hw.sleepersOn⟩
    | _ => simp at he
  · intro m rs he
    have he := hfilter he (by simp [Event.onCv])
    generalize es.filter (Event.onCv v) = es' at hr he
    cases hr with
    | broadcast hw henq =>
      simp only [List.mem_singleton, Event.broadcast.injEq, true_and] at he
      rw [he.2]
      exact ⟨hwait.broadcast hw henq, hw.none_left⟩
    | _ => simp at he
  · intro t ht hnot
    exact hr.leaves hnodup ht hnot
  · intro t f n m he hf
    obtain ⟨rfl, hwoken⟩ := hcv.returns hwait (reach_placeInv h) (reach_splInv h) (reach_swInv h) (step_moves hs) he hf
    have hknows := (reach_knowInv h).returns (step_moves hs) he
    unfold Knows at hknows
    rw [hf] at hknows
    exact ⟨rfl, hknows, hwoken⟩

/-- The first thread waits, and the second one is about to signal. -/
theorem cvs_lose_no_signal_two : ∃ k tr, Reach plainConfig (Orderly 0 0) k tr ∧ waiters 0 tr = [(0, 19)] ∧
    (0 ∈ k.g.sleepersOn (.cv 0) ∨ k.g.curthread = some 0 ∧ k.ie = false) ∧
    ∃ k', step k (.go []) = .ok (k', [.effect 1 (.cv_signal 0 0), .signal 0 0 [0]]) ∧
      [0] = ((waiters 0 tr).take 1).map Prod.fst ∧ k'.g.sleepersOn (.cv 0) = (k.g.sleepersOn (.cv 0)).tail := by
  let go (n : Nat) : List Choice := List.replicate n (.go [])
  let chs : List Choice := List.flatten
    [[.call .thread_fork, .go [], .done, .go [], .done], go 6, [.call (.lock_acquire 0)], go 6,
      [.call (.cv_wait 0 0)], go 13, [.call (.lock_acquire 0)], go 6, [.call (.cv_signal 0 0)], go 1]
  obtain ⟨k, tr, hreach, hcheck⟩ := Machine.exists_runOk (M := threads plainConfig) (Orderly 0 0) chs
    (fun x => waiters 0 x.2 = [(0, 19)] ∧
      ((step x.1 (.go [])).toOption.map Prod.snd) = some [.effect 1 (.cv_signal 0 0), .signal 0 0 [0]])
    ⟨plainConfig_counts, rfl⟩ (by decide +kernel)
  simp only [decide_eq_true_eq] at hcheck
  obtain ⟨hwaiters, hsignal⟩ := hcheck
  obtain ⟨-, hsleeps, hsteps⟩ := cvs_lose_no_signal hreach
  refine ⟨k, tr, hreach, hwaiters, hsleeps (0, 19) (by rw [hwaiters]; exact List.mem_singleton_self _), ?_⟩
  cases hstep : step k (.go []) with
  | error e =>
    rw [hstep] at hsignal
    cases hsignal
  | ok r =>
    obtain ⟨k', es⟩ := r
    rw [hstep] at hsignal
    obtain rfl : es = _ := Option.some.inj hsignal
    obtain ⟨hrs, htail⟩ := (hsteps _ _ _ hstep).2.1 0 [0] (by simp)
    exact ⟨k', rfl, hrs, htail⟩

end Os161.Cpu
