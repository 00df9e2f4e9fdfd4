import Os161.Thread.Locks

/-! # Waiters

The threads that have called `cv_wait` and that nobody has signalled, over every run.
-/

namespace Os161

/-! ## The sleepers on an address -/

section Lists

variable {α : Type} {p : α → Bool} {l : List α}

theorem filter_eraseP (p : α → Bool) (l : List α) : (l.eraseP p).filter p = (l.filter p).tail := by
  induction l with
  | nil => rfl
  | cons x l ih =>
    by_cases hx : p x = true
    · rw [List.eraseP_cons_of_pos hx, List.filter_cons_of_pos hx, List.tail_cons]
    · rw [List.eraseP_cons_of_neg hx, List.filter_cons_of_neg hx, List.filter_cons_of_neg hx, ih]

theorem filter_eraseP_of_ne {q : α → Bool} (h : ∀ x, p x = true → q x = false) (l : List α) :
    (l.eraseP p).filter q = l.filter q := by
  induction l with
  | nil => rfl
  | cons x l ih =>
    by_cases hx : p x = true
    · rw [List.eraseP_cons_of_pos hx, List.filter_cons_of_neg (by simp [h x hx])]
    · rw [List.eraseP_cons_of_neg hx, List.filter_cons, List.filter_cons, ih]

theorem filter_not_mem_eraseP [DecidableEq α] (hl : l.Nodup) :
    l.filter (fun x => x ∉ l.eraseP p) = (l.filter p).take 1 := by
  induction l with
  | nil => rfl
  | cons x l ih =>
    obtain ⟨hx, hl⟩ := List.nodup_cons.mp hl
    by_cases hp : p x = true
    · rw [List.eraseP_cons_of_pos hp, List.filter_cons_of_pos hp, List.filter_cons_of_pos (by simpa using hx)]
      have hnone : l.filter (fun y => decide (y ∉ l)) = [] := List.filter_eq_nil_iff.mpr (by simp)
      rw [hnone]
      rfl
    · rw [List.eraseP_cons_of_neg hp, List.filter_cons_of_neg hp, List.filter_cons_of_neg (by simp), ← ih hl]
      refine List.filter_congr fun y hy => ?_
      have hne : y ≠ x := by
        rintro rfl
        exact hx hy
      simp [hne]

end Lists

section Woke

variable {g g' : Globals} {a b : Addr}

theorem sleepsOn_congr (h : g'.thread = g.thread) : g'.sleepsOn b = g.sleepsOn b := by
  funext t
  rw [Globals.sleepsOn, Globals.sleepsOn, h]

theorem not_sleepsOn (hne : b ≠ a) (t : Tid) (h : g.sleepsOn a t = true) : g.sleepsOn b t = false := by
  simp only [Globals.sleepsOn, decide_eq_true_eq, decide_eq_false_iff_not] at h ⊢
  rw [h]
  simpa using hne.symm

theorem Woke.sleepersOn_of_ne (h : Woke a g g') (hne : b ≠ a) : g'.sleepersOn b = g.sleepersOn b := by
  have hthread : g'.thread = g.thread := by rw [h.same]
  rw [Globals.sleepersOn, Globals.sleepersOn, sleepsOn_congr hthread, h.sleepers, List.filter_filter]
  refine List.filter_congr fun t _ => ?_
  cases hb : g.sleepsOn b t with
  | false => rfl
  | true => rw [not_sleepsOn (Ne.symm hne) t hb]; rfl

theorem Woke.removed (h : Woke a g g') : Cpu.removed g g' = g.sleepersOn a := by
  refine List.filter_congr fun t ht => ?_
  rw [h.sleepers]
  simp [ht]

theorem WokeOne.sleepersOn_of_ne (h : WokeOne a g g') (hne : b ≠ a) : g'.sleepersOn b = g.sleepersOn b := by
  have hthread : g'.thread = g.thread := by rw [h.same]
  rw [Globals.sleepersOn, Globals.sleepersOn, sleepsOn_congr hthread, h.sleepers]
  exact filter_eraseP_of_ne (not_sleepsOn hne) _

theorem WokeOne.sleepersOn (h : WokeOne a g g') : g'.sleepersOn a = (g.sleepersOn a).tail := by
  have hthread : g'.thread = g.thread := by rw [h.same]
  rw [Globals.sleepersOn, Globals.sleepersOn, sleepsOn_congr hthread, h.sleepers]
  exact filter_eraseP _ _

theorem WokeOne.removed (h : WokeOne a g g') (hnodup : g.sleepers.toList.Nodup) :
    Cpu.removed g g' = (g.sleepersOn a).take 1 := by
  rw [Cpu.removed, h.sleepers]
  exact filter_not_mem_eraseP hnodup

theorem sleepersOn_eq (g : Globals) (b : Addr) :
    g.sleepersOn b = (g.asleep.filter fun p => p.2 = some b).map Prod.fst := by
  rw [Globals.asleep, List.filter_map, List.map_map, Globals.sleepersOn]
  exact (List.map_id' _).symm

end Woke

namespace Cpu

/-! ## The waiters -/

def waiters (v : Nat) : List Event → List (Tid × Nat)
  | [] => []
  | .wait t c _ start :: tr => if c = v then waiters v tr ++ [(t, start)] else waiters v tr
  | .signal c _ _ :: tr => if c = v then (waiters v tr).tail else waiters v tr
  | .broadcast c _ _ :: tr => if c = v then [] else waiters v tr
  | _ :: tr => waiters v tr

def Event.wakes (v : Nat) : Event → List Tid
  | .signal c _ removed | .broadcast c _ removed => if c = v then removed else []
  | _ => []

def Woken (v : Nat) (t : Tid) (start : Nat) (tr : List Event) : Prop :=
  ∃ tr₁ e tr₂, tr = tr₁ ++ e :: tr₂ ∧ (t, start) ∈ waiters v tr₂ ∧ t ∈ e.wakes v

def Event.onCv (v : Nat) : Event → Bool
  | .wait _ c _ _ | .signal c _ _ | .broadcast c _ _ => c = v
  | _ => false

theorem waiters_cons {v : Nat} {e : Event} (he : e.onCv v = false) (tr : List Event) :
    waiters v (e :: tr) = waiters v tr := by
  cases e with
  | wait t c l s | signal c l r | broadcast c l r =>
    simp only [Event.onCv, decide_eq_false_iff_not] at he
    rw [waiters, if_neg he]
  | _ => rfl

theorem waiters_filter (v : Nat) (es tr : List Event) :
    waiters v (es.filter (Event.onCv v) ++ tr) = waiters v (es ++ tr) := by
  induction es with
  | nil => rfl
  | cons e es ih =>
    cases he : e.onCv v with
    | false => rw [List.filter_cons_of_neg (by simp [he]), List.cons_append, waiters_cons he, ih]
    | true =>
      rw [List.filter_cons_of_pos he, List.cons_append, List.cons_append]
      cases e with
      | wait t c l s | signal c l r | broadcast c l r => simp only [waiters, ih]
      | _ => cases he

def Frame.pending (v : Nat) (f : Frame) : Bool :=
  match f.call, f.code with
  | .cv_wait c _, .call (.lock_release _) :: _ => c = v
  | .cv_wait c _, .sleep _ :: _ => c = v
  | _, _ => false

inductive CvStage (v l : Nat) : Instr → List Instr → Prop where
  | nonint : CvStage v l .nonint [.splhigh, .act (.cv_check v l), .call (.lock_release l), .sleep (.cv v),
      .call (.lock_acquire l), .irq, .setspl]
  | splhigh : CvStage v l .splhigh [.act (.cv_check v l), .call (.lock_release l), .sleep (.cv v),
      .call (.lock_acquire l), .irq, .setspl]
  | check : CvStage v l (.act (.cv_check v l)) [.call (.lock_release l), .sleep (.cv v), .call (.lock_acquire l),
      .irq, .setspl]
  | release : CvStage v l (.call (.lock_release l)) [.sleep (.cv v), .call (.lock_acquire l), .irq, .setspl]
  | sleep : CvStage v l (.sleep (.cv v)) [.call (.lock_acquire l), .irq, .setspl]
  | acquire : CvStage v l (.call (.lock_acquire l)) [.irq, .setspl]
  | irq : CvStage v l .irq [.setspl]
  | setspl : CvStage v l .setspl []

def Call.releases : Call → Bool
  | .lock_release _ => true
  | _ => false

def pendingOn (v : Nat) : List Frame → Bool
  | [] => false
  | f :: bs => f.pending v || (f.call.releases && bs.head?.any (Frame.pending v))

section Pending

variable {v : Nat} {f f' g : Frame} {bs : List Frame} {i : Instr} {rest : List Instr}

theorem Wf.cv_stage {l : Nat} (hwf : Wf f) (hf : f.call = .cv_wait v l) (hc : f.code = i :: rest) :
    CvStage v l i rest := by
  have hsuf := hwf.code
  rw [hf, hc] at hsuf
  simp only [body, List.suffix_cons_iff, List.cons.injEq, List.suffix_nil] at hsuf
  rcases hsuf with ⟨rfl, rfl⟩ | ⟨rfl, rfl⟩ | ⟨rfl, rfl⟩ | ⟨rfl, rfl⟩ | ⟨rfl, rfl⟩ | ⟨rfl, rfl⟩ | ⟨rfl, rfl⟩ |
    ⟨rfl, rfl⟩ | hsuf
  · exact .nonint
  · exact .splhigh
  · exact .check
  · exact .release
  · exact .sleep
  · exact .acquire
  · exact .irq
  · exact .setspl
  · cases hsuf

theorem pending_call (h : f.pending v = true) : ∃ l, f.call = .cv_wait v l := by
  unfold Frame.pending at h
  split at h
  · rename_i hcall _
    rw [hcall, of_decide_eq_true h]
    exact ⟨_, rfl⟩
  · rename_i hcall _
    rw [hcall, of_decide_eq_true h]
    exact ⟨_, rfl⟩
  · cases h

theorem not_pending (h : ∀ l, f.call ≠ .cv_wait v l) : f.pending v = false := by
  by_contra hne
  obtain ⟨l, hl⟩ := pending_call (by simpa using hne)
  exact h l hl

theorem not_pendingOn (hcv : ∀ l, f.call ≠ .cv_wait v l) (hrel : f.call.releases = false) :
    pendingOn v (f :: bs) = false := by
  rw [pendingOn, not_pending hcv, hrel]
  rfl

theorem Wf.pending (hwf : Wf f) (h : f.pending v = true) : ∃ l, f.call = .cv_wait v l ∧
    (f.code = [.call (.lock_release l), .sleep (.cv v), .call (.lock_acquire l), .irq, .setspl] ∨
      f.code = [.sleep (.cv v), .call (.lock_acquire l), .irq, .setspl]) := by
  obtain ⟨l, hf⟩ := pending_call h
  refine ⟨l, hf, ?_⟩
  rw [Frame.pending, hf] at h
  cases hc : f.code with
  | nil =>
    rw [hc] at h
    cases h
  | cons i rest =>
    rw [hc] at h
    cases hwf.cv_stage hf hc with
    | release => exact .inl rfl
    | sleep => exact .inr rfl
    | nonint | splhigh | check | acquire | irq | setspl => cases h

theorem Wf.pending_hot (hwf : Wf f) (h : f.pending v = true) : modeOf f.call f.code = .hot := by
  obtain ⟨l, hf, hc | hc⟩ := hwf.pending h
  · rw [hf, hc]
    rfl
  · rw [hf, hc]
    rfl

theorem pendingOn_off (hch : (f :: bs).IsChain Above) (hwf : ∀ b ∈ f :: bs, Wf b) {s : Nat} {ie : Bool}
    (hr : Ready f s ie) (h : pendingOn v (f :: bs) = true) : ie = false := by
  unfold Ready at hr
  rw [pendingOn, Bool.or_eq_true, Bool.and_eq_true] at h
  rcases h with h | ⟨hrel, h⟩
  · rw [(hwf f List.mem_cons_self).pending_hot h] at hr
    exact hr.2.1
  · cases bs with
    | nil => cases h
    | cons g bs =>
      have hkind : f.call.kind = .bracket ∧ f.call ≠ .mips_interrupt := by
        cases hf : f.call <;> simp_all [Call.releases, Call.kind]
      obtain ⟨habove, -⟩ := List.isChain_cons_cons.mp hch
      unfold Above at habove
      rw [if_neg hkind.2] at habove
      have hg := habove.2.2 (by simp [hkind.1])
      unfold Ready at hg
      rw [(hwf g (by simp)).pending_hot h] at hg
      have hhigh : f.callspl = SPL_HIGH := hg.1
      have hsplhigh : ¬ SPL_HIGH = 0 := by decide
      have hm : modeOf f.call f.code = .low ∨ modeOf f.call f.code = .hot ∨ modeOf f.call f.code = .win := by
        unfold modeOf
        rw [hkind.1]
        cases f.code with
        | nil => exact .inl rfl
        | cons i rest => cases i <;> simp
      rcases hm with hm | hm | hm
      · rw [hm] at hr
        rw [hr.2, hhigh, decide_eq_false hsplhigh]
      · rw [hm] at hr
        exact hr.2.1
      · rw [hm] at hr
        rw [hr.2.1, hr.2.2, hhigh, decide_eq_false hsplhigh]

theorem pendingOn_next (hwf : Wf f) (hc : f.code = i :: rest) (hcall : f'.call = f.call) (hcode : f'.code = rest)
    (hi : ∀ l, i ≠ .act (.cv_check v l)) (hcalls : ∀ c, i ≠ .call c) (hsleep : ∀ a, i ≠ .sleep a) :
    pendingOn v (f' :: bs) = pendingOn v (f :: bs) := by
  suffices hpending : f'.pending v = f.pending v by rw [pendingOn, pendingOn, hpending, hcall]
  by_cases hf : ∃ l, f.call = .cv_wait v l
  · obtain ⟨l, hf⟩ := hf
    rw [Frame.pending, Frame.pending, hcall, hcode, hf, hc]
    cases hwf.cv_stage hf hc with
    | check => exact absurd rfl (hi l)
    | release | acquire => exact absurd rfl (hcalls _)
    | sleep => exact absurd rfl (hsleep _)
    | nonint | splhigh | irq | setspl => rfl
  · rw [not_pending (f := f) (by simpa using hf), not_pending (by rw [hcall]; simpa using hf)]

end Pending

def Kernel.enqueued (k : Kernel) (v : Nat) : List Tid := if pendingOn v (k.stack k.on) then [k.on] else []

inductive Recved (v : Nat) (k k' : Kernel) : List Event → Prop where
  | same (hon : k'.g.sleepersOn (.cv v) = k.g.sleepersOn (.cv v)) (h : k'.enqueued v = k.enqueued v) : Recved v k k' []
  | wait {l : Nat} {f : Frame} {bs : List Frame} {rest : List Instr} (hs : k.stack k.on = f :: bs)
      (hf : f.call = .cv_wait v l) (hc : f.code = .act (.cv_check v l) :: rest)
      (howner : (k.g.lock l).owner = some k.on) (hs' : k'.stack k.on = { f with code := rest } :: bs)
      (hon : k'.g.sleepersOn (.cv v) = k.g.sleepersOn (.cv v)) (h : k.enqueued v = []) (h' : k'.enqueued v = [k.on]) :
      Recved v k k' [.wait k.on v l f.start]
  | sleep (hon : k'.g.sleepersOn (.cv v) = k.g.sleepersOn (.cv v) ++ [k.on]) (h : k.enqueued v = [k.on])
      (h' : k'.enqueued v = []) : Recved v k k' []
  | signal {l : Nat} (hw : WokeOne (.cv v) k.g k'.g) (h : k.enqueued v = []) (h' : k'.enqueued v = []) :
      Recved v k k' [.signal v l (removed k.g k'.g)]
  | broadcast {l : Nat} (hw : Woke (.cv v) k.g k'.g) (h : k.enqueued v = []) (h' : k'.enqueued v = []) :
      Recved v k k' [.broadcast v l (removed k.g k'.g)]

section Steps

variable {v : Nat} {k k' : Kernel} {ch : Choice} {es tr : List Event} {f f' : Frame} {bs : List Frame} {i : Instr}
  {rest : List Instr} {g' : Globals}

theorem enqueued_goto (k : Kernel) (g : Globals) (fs : List Frame) :
    (k.goto g fs).enqueued v = if pendingOn v fs then [k.on] else [] := by
  unfold Kernel.enqueued
  show (if pendingOn v (Function.update k.stack k.on fs k.on) then _ else _) = _
  rw [Function.update_self]
  rfl

theorem enqueued_setIe (k : Kernel) (ie : Bool) : (k.setIe ie).enqueued v = k.enqueued v := rfl

theorem enqueued_top (hs : k.stack k.on = f :: bs) :
    k.enqueued v = if pendingOn v (f :: bs) then [k.on] else [] := by
  rw [Kernel.enqueued, hs]

theorem enqueued_nil (hs : k.stack k.on = f :: bs) (hcv : ∀ l, f.call ≠ .cv_wait v l)
    (hrel : f.call.releases = false) : k.enqueued v = [] := by
  rw [enqueued_top hs, not_pendingOn hcv hrel]
  rfl

theorem enqueued_goto_nil {fs : List Frame} (hcv : ∀ l, f.call ≠ .cv_wait v l) (hrel : f.call.releases = false) :
    (k.goto g' (f :: fs)).enqueued v = [] := by
  rw [enqueued_goto, not_pendingOn hcv hrel]
  rfl

theorem effects_onCv (t : Tid) (f : Frame) : (effects t f).filter (Event.onCv v) = [] := by
  unfold effects
  split <;> rfl

theorem sleepersOn_of_asleep {g : Globals} {a : Addr} (h : g'.asleep = g.asleep) :
    g'.sleepersOn a = g.sleepersOn a := by
  rw [sleepersOn_eq, sleepersOn_eq, h]

theorem ActSpec.cv_same (hp : PlaceInv k tr) (hpol : PoliteInv k) {a : Act} (hs : k.stack k.on = f :: bs)
    (hc : f.code = .act a :: rest) (h : ActSpec k.g k.on { f with code := rest } g' f' es a)
    (ha : ∀ l, a ≠ .cv_check v l ∧ a ≠ .cv_wake_one v l ∧ a ≠ .cv_wake v l) :
    g'.sleepersOn (.cv v) = k.g.sleepersOn (.cv v) ∧ es.filter (Event.onCv v) = [] := by
  have hbare : ∀ {x : Addr}, (Instr.act a).bare = some x → .cv v ≠ x := by
    rintro x hx rfl
    cases hpol k.on f (by rw [hs]; exact List.mem_cons_self) _ _ _ hc hx
  cases a with
  | V_post s =>
    obtain ⟨-, -, hw, -, rfl⟩ := h
    exact ⟨hw.sleepersOn_of_ne nofun, rfl⟩
  | lock_drop l =>
    obtain ⟨-, -, -, hw, -, rfl⟩ := h
    exact ⟨hw.sleepersOn_of_ne nofun, rfl⟩
  | lock_read l | read_numthreads | fork_create | fork_return =>
    obtain ⟨rfl, -, rfl⟩ := h
    exact ⟨rfl, rfl⟩
  | cv_check c l =>
    obtain ⟨-, -, rfl, -, rfl⟩ := h
    have hne : c ≠ v := by
      rintro rfl
      exact (ha l).1 rfl
    exact ⟨rfl, List.filter_cons_of_neg (by simpa [Event.onCv] using hne)⟩
  | cv_wake_one c l =>
    obtain ⟨-, -, -, hw, -, rfl⟩ := h
    have hne : c ≠ v := by
      rintro rfl
      exact (ha l).2.1 rfl
    exact ⟨hw.sleepersOn_of_ne (by simpa using hne.symm), List.filter_cons_of_neg (by simpa [Event.onCv] using hne)⟩
  | cv_wake c l =>
    obtain ⟨-, -, -, hw, -, rfl⟩ := h
    have hne : c ≠ v := by
      rintro rfl
      exact (ha l).2.2 rfl
    exact ⟨hw.sleepersOn_of_ne (by simpa using hne.symm), List.filter_cons_of_neg (by simpa [Event.onCv] using hne)⟩
  | wakeup x =>
    obtain ⟨-, hw, -, rfl⟩ := h
    exact ⟨hw.sleepersOn_of_ne (hbare rfl), rfl⟩
  | wakeup_one x =>
    obtain ⟨-, hw, -, rfl⟩ := h
    exact ⟨hw.sleepersOn_of_ne (hbare rfl), rfl⟩
  | exorcise =>
    obtain ⟨-, hg, -, -, -, rfl⟩ := h
    refine ⟨by rw [hg]; rfl, ?_⟩
    rw [List.filter_eq_nil_iff]
    simp [Event.onCv]
  | tick =>
    obtain ⟨⟨n, rfl⟩ | ⟨-, hw⟩, -, rfl⟩ := h
    · exact ⟨rfl, rfl⟩
    · exact ⟨hw.sleepersOn_of_ne nofun, rfl⟩
  | fork_incref =>
    obtain ⟨⟨cur, -, ⟨-, rfl, -⟩ | ⟨v, -, rfl, -⟩⟩, rfl⟩ := h
    · exact ⟨rfl, rfl⟩
    · exact ⟨rfl, rfl⟩
  | fork_link =>
    obtain ⟨hl, -, rfl⟩ | ⟨hg, -, rfl⟩ := h
    · refine ⟨sleepersOn_of_asleep (hl.asleep fun hmem => ?_), rfl⟩
      exact Nat.lt_irrefl _ (hp.lt_next (List.mem_append_right _ hmem))
    · exact ⟨sleepersOn_of_asleep hg.asleep, rfl⟩
  | fork_fail =>
    obtain ⟨⟨-, rfl, -⟩ | ⟨v, -, -, rfl, -⟩, rfl⟩ := h
    · exact ⟨rfl, rfl⟩
    · exact ⟨rfl, rfl⟩
  | exit_cwd =>
    obtain ⟨⟨cur, -, rfl | ⟨v, -, rfl⟩⟩, -, rfl⟩ := h
    · exact ⟨rfl, rfl⟩
    · refine ⟨sleepersOn_of_asleep (asleep_congr rfl fun t _ => ?_), rfl⟩
      by_cases ht : t = cur
      · subst ht
        simp
      · simp [ht]

theorem ActSpec.recved (hp : PlaceInv k tr) (hsp : SplInv k) (hsw : SwInv k) (hpol : PoliteInv k) {a : Act}
    (hs : k.stack k.on = f :: bs) (hc : f.code = .act a :: rest)
    (h : ActSpec k.g k.on { f with code := rest } g' f' es a) :
    Recved v k (k.goto g' (f' :: bs)) ((effects k.on f' ++ es).filter (Event.onCv v)) := by
  have hwf := hsp.wf_top hs
  have hhome : f.call = a.home := (hwf.checked hc).2
  rw [List.filter_append, effects_onCv, List.nil_append]
  by_cases hcheck : ∃ l, a = .cv_check v l
  · obtain ⟨l, rfl⟩ := hcheck
    obtain ⟨-, howner, rfl, rfl, rfl⟩ := h
    have hf : f.call = .cv_wait v l := hhome
    obtain ⟨⟩ := hwf.cv_stage hf hc
    rw [List.filter_cons_of_pos (by simp [Event.onCv])]
    show Recved v k _ [.wait k.on v l f.start]
    refine .wait hs hf hc (howner.trans ?_) (Function.update_self ..) rfl ?_ ?_
    · exact hsw.curthread hsp hs (by rw [hf]; rfl)
    · rw [enqueued_top hs, pendingOn, Frame.pending, hf, hc]
      rfl
    · rw [enqueued_goto, pendingOn, Frame.pending, hf]
      simp
  by_cases hone : ∃ l, a = .cv_wake_one v l
  · obtain ⟨l, rfl⟩ := hone
    obtain ⟨-, -, -, hw, rfl, rfl⟩ := h
    have hf : f.call = .cv_signal v l := hhome
    rw [List.filter_cons_of_pos (by simp [Event.onCv])]
    refine .signal hw (enqueued_nil hs ?_ ?_) (enqueued_goto_nil ?_ ?_)
    all_goals simp [hf, Call.releases]
  by_cases hall : ∃ l, a = .cv_wake v l
  · obtain ⟨l, rfl⟩ := hall
    obtain ⟨-, -, -, hw, rfl, rfl⟩ := h
    have hf : f.call = .cv_broadcast v l := hhome
    rw [List.filter_cons_of_pos (by simp [Event.onCv])]
    refine .broadcast hw (enqueued_nil hs ?_ ?_) (enqueued_goto_nil ?_ ?_)
    all_goals simp [hf, Call.releases]
  obtain ⟨hon, hes⟩ := h.cv_same (v := v) hp hpol hs hc fun l =>
    ⟨fun ha => hcheck ⟨l, ha⟩, fun ha => hone ⟨l, ha⟩, fun ha => hall ⟨l, ha⟩⟩
  rw [hes]
  refine .same hon ?_
  obtain ⟨hcall, -, -, -, hcode, -⟩ := h.frame
  have hcall : f'.call = f.call := hcall
  rw [enqueued_goto, enqueued_top hs]
  rcases hcode with hcode | ⟨-, hfork⟩
  · rw [pendingOn_next hwf hc hcall hcode (fun l hi => hcheck ⟨l, by simpa using hi⟩) (by simp) (by simp)]
  · have hf : f.call = .thread_fork := hhome.trans hfork
    rw [not_pendingOn (f := f) (by simp [hf]) (by rw [hf]; rfl),
      not_pendingOn (by simp [hcall, hf]) (by rw [hcall, hf]; rfl)]

theorem pending_nil (hc : f.code = []) : f.pending v = false := by
  unfold Frame.pending
  rw [hc]
  cases f.call <;> rfl

theorem enter_not_pending (k : Kernel) (c : Call) : (k.enter c).pending v = false := by
  unfold Frame.pending
  rw [enter_call, enter_code]
  cases c <;> rfl

theorem Wf.not_releases {c : Call} (hwf : Wf f) (hc : f.code = i :: rest) (hcalls : i.calls c = true) :
    f.call.releases = false := by
  cases hf : f.call with
  | lock_release l =>
    have hsuf := hwf.code
    rw [hf, hc] at hsuf
    simp only [body, List.suffix_cons_iff, List.cons.injEq, List.suffix_nil] at hsuf
    rcases hsuf with ⟨rfl, -⟩ | ⟨rfl, -⟩ | ⟨rfl, -⟩ | ⟨rfl, -⟩ | hsuf
    · cases hcalls
    · cases hcalls
    · cases hcalls
    · cases hcalls
    · cases hsuf
  | _ => rfl

theorem pendingOn_resume {c : Frame} (hsp : SplInv k) (hs : k.stack k.on = f :: c :: bs) (hc : f.code = []) :
    pendingOn v (c.resume :: bs) = pendingOn v (f :: c :: bs) := by
  have hwf := hsp.wf_below hs c List.mem_cons_self
  obtain ⟨habove, -⟩ := List.isChain_cons_cons.mp (hsp.chain_top hs)
  obtain ⟨i, rest, hci, hcalls⟩ := habove.caller fun hint => (hsp.wf_top hs).alive hint hc
  have hcall : c.resume.call = c.call := by
    unfold Frame.resume
    rw [hci]
    dsimp only
    split <;> rfl
  rw [pendingOn, pendingOn, hcall, hwf.not_releases hci hcalls, pending_nil hc, Bool.false_and, Bool.or_false,
    Bool.false_or, List.head?_cons, Option.any_some]
  by_cases hcv : ∃ l, c.call = .cv_wait v l
  · obtain ⟨l, hcv⟩ := hcv
    rw [Frame.pending, Frame.pending, hcall, hcv, Frame.resume, hci]
    cases hwf.cv_stage hcv hci with
    | release =>
      have hf : .lock_release l = f.call := by simpa [Instr.calls] using hcalls
      simp [Instr.stays, ← hf, Call.releases]
    | sleep =>
      have hf : f.call = .thread_sleep (.cv v) := by simpa [Instr.calls] using hcalls
      simp [Instr.stays, hf, Call.releases]
    | acquire =>
      have hf : .lock_acquire l = f.call := by simpa [Instr.calls] using hcalls
      simp [Instr.stays, ← hf, Call.releases]
    | nonint | splhigh | check | irq | setspl => cases hcalls
  · rw [not_pending (f := c) (by simpa using hcv), not_pending (by rw [hcall]; simpa using hcv), Bool.and_false]

theorem pendingOn_call {c : Call} (hwf : Wf f) (hc : f.code = i :: rest) (hcalls : i.calls c = true)
    (hi : ∀ a, i ≠ .sleep a) : pendingOn v (k.enter c :: f :: bs) = pendingOn v (f :: bs) := by
  rw [pendingOn, pendingOn, enter_not_pending, hwf.not_releases hc hcalls, Bool.false_and, Bool.or_false,
    Bool.false_or, enter_call, List.head?_cons, Option.any_some]
  by_cases hpending : f.pending v = true
  · obtain ⟨l, -, hcode | hcode⟩ := hwf.pending hpending
    · rw [hcode] at hc
      obtain ⟨rfl, -⟩ := List.cons.inj hc
      have hrel : .lock_release l = c := by simpa [Instr.calls] using hcalls
      rw [← hrel, hpending]
      rfl
    · rw [hcode] at hc
      exact absurd (List.cons.inj hc).1.symm (hi _)
  · rw [Bool.not_eq_true] at hpending
    rw [hpending, Bool.and_false]

theorem enqueued_of_ie (hsp : SplInv k) (hie : k.ie = true) : k.enqueued v = [] := by
  unfold Kernel.enqueued
  rw [if_neg]
  intro hpend
  cases hs : k.stack k.on with
  | nil =>
    rw [hs] at hpend
    cases hpend
  | cons f bs =>
    rw [hs] at hpend
    have hwf : ∀ b ∈ f :: bs, Wf b := fun b hb => hsp.wf k.on b (by rw [hs]; exact hb)
    cases hie.symm.trans (pendingOn_off (hsp.chain_top hs) hwf (hsp.ready_top hs) hpend)

theorem pendingOn_below (hsp : SplInv k) (hs : k.stack k.on = f :: bs) (hf : f.call = .mips_interrupt) :
    pendingOn v bs = false := by
  cases bs with
  | nil => rfl
  | cons g bs =>
    obtain ⟨habove, hch⟩ := List.isChain_cons_cons.mp (hsp.chain_top hs)
    unfold Above at habove
    rw [if_pos hf] at habove
    by_contra hne
    cases pendingOn_off hch (hsp.wf_below hs) habove (by simpa using hne)

theorem Slept.sleepersOn {g : Globals} {a : Addr} {cur : Tid} (h : Slept a cur g g')
    (hcur : cur ∉ g.sleepers.toList) (b : Addr) :
    g'.sleepersOn b = g.sleepersOn b ++ if a = b then [cur] else [] := by
  rw [sleepersOn_eq, sleepersOn_eq, h.asleep hcur, List.filter_append, List.map_append]
  by_cases hab : a = b
  · simp [hab]
  · simp [hab]

theorem moves_recved (hp : PlaceInv k tr) (hsp : SplInv k) (hsw : SwInv k) (hpol : PoliteInv k)
    (hoff : ∀ t, t ≠ k.on → pendingOn v (k.stack t) = false) (hm : Moves k ch k' es) :
    Recved v k k' (es.filter (Event.onCv v)) := by
  have hnext : ∀ {f f' : Frame} {bs : List Frame} {i : Instr} {rest : List Instr} {g : Globals} {ie : Bool},
      k.stack k.on = f :: bs → f.code = i :: rest → f'.call = f.call → f'.code = rest →
      (∀ l, i ≠ .act (.cv_check v l)) → (∀ c, i ≠ .call c) → (∀ a, i ≠ .sleep a) →
      g.sleepersOn (.cv v) = k.g.sleepersOn (.cv v) → Recved v k ((k.goto g (f' :: bs)).setIe ie) [] := by
    intro f f' bs i rest g ie hs hc hcall hcode hi hcalls hsleep hon
    refine .same hon ?_
    rw [enqueued_setIe, enqueued_goto, enqueued_top hs, pendingOn_next (hsp.wf_top hs) hc hcall hcode hi hcalls hsleep]
  -- the thread leaves the processor
  have hswitch : ∀ {f : Frame} {bs fs : List Frame} {g : Globals}, k.stack k.on = f :: bs →
      (∀ l, f.call ≠ .cv_wait v l) → f.call.releases = false → g.sleepersOn (.cv v) = k.g.sleepersOn (.cv v) →
      Recved v k (k.goto g (k.enter .mi_switch :: fs)) [] := by
    intro f bs fs g hs hcv hrel hon
    refine .same hon ?_
    rw [enqueued_goto_nil (by simp) rfl, enqueued_nil hs hcv hrel]
  cases hm with
  | interrupt hie =>
    refine .same rfl ?_
    rw [enqueued_of_ie hsp hie, Kernel.interrupted, enqueued_setIe]
    exact enqueued_goto_nil (by simp) rfl
  | ret hs hc =>
    refine .same rfl ?_
    rw [enqueued_goto, pendingOn_resume hsp hs hc, enqueued_top hs]
  | call hs hc hcalls hi =>
    refine .same rfl ?_
    rw [enqueued_goto, enqueued_top hs, pendingOn_call (hsp.wf_top hs) hc hcalls]
    rintro a rfl
    simp at hi
  | skip hs hc hi =>
    rw [← goto_setIe]
    refine hnext hs hc rfl rfl ?_ ?_ ?_ rfl
    all_goals
      rintro x rfl
      simp at hi
  | splhigh hs hc | irq hs hc | idle_on hs hc | idle_off hs hc =>
    exact hnext hs hc rfl rfl (by simp) (by simp) (by simp) rfl
  | setspl hs hc =>
    rw [← goto_setIe]
    exact hnext hs hc rfl rfl (by simp) (by simp) (by simp) rfl
  | leave hs hc =>
    have hf : _ = Call.mips_interrupt := ((hsp.wf_top hs).checked hc).2
    refine .same rfl ?_
    rw [enqueued_nil hs (by simp [hf]) (by rw [hf]; rfl), enqueued_setIe, enqueued_goto,
      pendingOn_below hsp hs hf]
    rfl
  | act hs hc ha => exact ha.recved hp hsp hsw hpol hs hc
  | @pass f bs x rest g' mem mem' u hs hc hw hpass =>
    rw [effects_onCv, ← goto_setIe]
    refine hnext hs hc rfl rfl (by simp) (by simp) (by simp) ?_
    have hpass := pass_spec hpass
    cases x with
    | P s => rw [hpass.2]; rfl
    | lock_acquire l => rw [hpass.2]; rfl
    | clocksleep => rw [show g' = k.g from hpass]
  | @sleep f f' bs i rest a cur g' hs hc hi hg =>
    obtain rfl := hsw.cur _ hg.curthread
    have hon := hg.sleepersOn (hp.cur_not_mem hg.curthread).2 (.cv v)
    have hfits := ((hsp.wf_top hs).checked hc).2
    rcases hi with ⟨x, rfl, -, rfl, -⟩ | ⟨rfl, -⟩
    · rw [if_neg (by cases x <;> simp [Loop.addr]), List.append_nil] at hon
      have hf : (∀ l, f.call ≠ .cv_wait v l) ∧ f.call.releases = false := by
        cases x with
        | P s => rw [show f.call = .P s from hfits]; exact ⟨by simp, rfl⟩
        | lock_acquire l => rw [show f.call = .lock_acquire l from hfits]; exact ⟨by simp, rfl⟩
        | clocksleep => obtain ⟨n, hn⟩ := hfits; rw [hn]; exact ⟨by simp, rfl⟩
      exact hswitch hs hf.1 hf.2 hon
    · obtain ⟨c, l, hf, rfl⟩ := hfits
      by_cases hcv : c = v
      · subst hcv
        rw [if_pos rfl] at hon
        refine .sleep hon ?_ (enqueued_goto_nil (by simp) rfl)
        rw [enqueued_top hs, pendingOn, Frame.pending, hf, hc]
        simp
      · rw [if_neg (by simpa using hcv), List.append_nil] at hon
        exact hswitch hs (by simp [hf, hcv]) (by rw [hf]; rfl) hon
  | @zz f bs rest a cur g' hs hc hg =>
    obtain rfl := hsw.cur _ hg.curthread
    have hon := hg.sleepersOn (hp.cur_not_mem hg.curthread).2 (.cv v)
    have hf : f.call = .thread_sleep a := ((hsp.wf_top hs).checked hc).2
    have hprim := hpol k.on f (by rw [hs]; exact List.mem_cons_self) _ _ _ hc rfl
    rw [if_neg (by rintro rfl; cases hprim), List.append_nil] at hon
    exact hswitch hs (by simp [hf]) (by rw [hf]; rfl) hon
  | @unzz f bs rest cur hs hc hcur =>
    rw [← goto_setIe]
    refine hnext hs hc rfl rfl (by simp) (by simp) (by simp) (sleepersOn_of_asleep (asleep_congr rfl fun t ht => ?_))
    rw [set_sleepaddr_of_ne]
    rintro rfl
    exact (hp.cur_not_mem hcur).2 ht
  | switch hs hc hg =>
    have hf : _ = Call.thread_yield := ((hsp.wf_top hs).checked hc).2
    exact hswitch hs (by simp [hf]) (by rw [hf]; rfl) (sleepersOn_of_asleep hg.asleep)
  | exit hs hc hg =>
    have hf : _ = Call.thread_exit := ((hsp.wf_top hs).checked hc).2
    exact hswitch hs (by simp [hf]) (by rw [hf]; rfl) (sleepersOn_of_asleep hg.asleep)
  | @schedule f bs rest nu g' hs hc hg =>
    have hf : f.call = .mi_switch := ((hsp.wf_top hs).checked hc).2
    refine .same ?_ ?_
    · obtain ⟨b, hb⟩ := md_switch_g (k.goto g' ({ f with code := rest } :: bs)) nu
      rw [hb]
      exact sleepersOn_of_asleep hg.asleep
    · rw [enqueued_nil hs (by simp [hf]) (by rw [hf]; rfl), Kernel.enqueued, md_switch_stack, md_switch_on, if_neg]
      show ¬ pendingOn v (Function.update k.stack k.on _ nu) = true
      by_cases hnu : nu = k.on
      · rw [hnu, Function.update_self, not_pendingOn (by simp [hf]) (by rw [hf]; rfl)]
        simp
      · rw [Function.update_of_ne hnu, hoff nu hnu]
        simp

/-! ## The waiters sleep -/

def OffInv (v : Nat) (k : Kernel) : Prop := ∀ t, t ≠ k.on → pendingOn v (k.stack t) = false

theorem OffInv.step (h : OffInv v k) (hsp : SplInv k) (hm : Moves k ch k' es) : OffInv v k' := by
  intro t ht
  have hstack : ∀ {fs : List Frame}, t ≠ k.on → pendingOn v (Function.update k.stack k.on fs t) = false := by
    intro fs ht
    rw [Function.update_of_ne ht]
    exact h t ht
  cases hm with
  | @schedule f bs rest nu g' hs hc hg =>
    rw [md_switch_on] at ht
    rw [md_switch_stack]
    by_cases hold : t = k.on
    · have hf : f.call = .mi_switch := ((hsp.wf_top hs).checked hc).2
      subst hold
      show pendingOn v (Function.update k.stack k.on _ k.on) = false
      rw [Function.update_self]
      exact not_pendingOn (by simp [hf]) (by rw [hf]; rfl)
    · exact hstack hold
  | _ => exact hstack ht

theorem reach_offInv {c : Config} {ok : Kernel → Choice → Prop} (h : Reach c ok k tr) : OffInv v k := by
  refine Machine.Reach.invariant (I := fun k _ => OffInv v k) ?_ ?_ h
  · rintro _ ⟨-, rfl⟩ t ht
    show pendingOn v (firstStack t) = false
    unfold firstStack
    split <;> rfl
  · intro k k' ch tr es hr hk _ hs
    exact hk.step (reach_splInv hr) (step_moves hs)

def WaitInv (v : Nat) (k : Kernel) (tr : List Event) : Prop :=
  (waiters v tr).map Prod.fst = k.g.sleepersOn (.cv v) ++ k.enqueued v

theorem WaitInv.step (h : WaitInv v k tr) (hr : Recved v k k' (es.filter (Event.onCv v))) :
    WaitInv v k' (es ++ tr) := by
  unfold WaitInv at h ⊢
  rw [← waiters_filter]
  generalize es.filter (Event.onCv v) = es' at hr
  cases hr with
  | same hon henq => rwa [hon, henq]
  | wait hs hf hc howner hs' hon henq henq' =>
    rw [henq, List.append_nil] at h
    simp [waiters, h, hon, henq']
  | sleep hon henq henq' => simpa [hon, henq, henq'] using h
  | signal hw henq henq' =>
    rw [henq, List.append_nil] at h
    simp [waiters, List.map_tail, h, hw.sleepersOn, henq']
  | broadcast hw henq henq' => simp [waiters, hw.none_left, henq']

theorem WaitInv.signal (h : WaitInv v k tr) (hnodup : k.g.sleepers.toList.Nodup) (hw : WokeOne (.cv v) k.g g')
    (henq : k.enqueued v = []) : removed k.g g' = ((waiters v tr).take 1).map Prod.fst := by
  unfold WaitInv at h
  rw [henq, List.append_nil] at h
  rw [hw.removed hnodup, ← h, List.map_take]

theorem WaitInv.broadcast (h : WaitInv v k tr) (hw : Woke (.cv v) k.g g') (henq : k.enqueued v = []) :
    removed k.g g' = (waiters v tr).map Prod.fst := by
  unfold WaitInv at h
  rw [henq, List.append_nil] at h
  rw [hw.removed, h]

theorem PlaceInv.sleepers_nodup (h : PlaceInv k tr) : k.g.sleepers.toList.Nodup :=
  (List.nodup_append.mp h.nodup).2.1

theorem reach_recved {c : Config} (h : Reach c Polite k tr) (hs : step k ch = .ok (k', es)) :
    Recved v k k' (es.filter (Event.onCv v)) :=
  moves_recved (reach_placeInv h) (reach_splInv h) (reach_swInv h) (reach_politeInv h) (reach_offInv h) (step_moves hs)

theorem reach_waitInv {c : Config} (h : Reach c Polite k tr) : WaitInv v k tr := by
  refine Machine.Reach.invariant (I := WaitInv v) ?_ ?_ h
  · rintro _ ⟨-, rfl⟩
    rfl
  · intro k k' ch tr es hr hk _ hs
    exact hk.step (reach_recved hr hs)

/-! ## Nobody is forgotten -/

theorem Woken.append {t : Tid} {start : Nat} (h : Woken v t start tr) (es : List Event) :
    Woken v t start (es ++ tr) := by
  obtain ⟨tr₁, e, tr₂, rfl, hw, ht⟩ := h
  exact ⟨es ++ tr₁, e, tr₂, (List.append_assoc ..).symm, hw, ht⟩

theorem woken_of_filter {t : Tid} {start : Nat} {e : Event} (hes : es.filter (Event.onCv v) = [e])
    (hw : (t, start) ∈ waiters v tr) (ht : t ∈ e.wakes v) : Woken v t start (es ++ tr) := by
  obtain ⟨es₁, es₂, rfl, -, -, hes₂⟩ := List.filter_eq_cons_iff.mp hes
  refine ⟨es₁, e, es₂ ++ tr, by simp, ?_, ht⟩
  rw [← waiters_filter, hes₂]
  exact hw

theorem Recved.waits (h : WaitInv v k tr) (hnodup : k.g.sleepers.toList.Nodup)
    (hr : Recved v k k' (es.filter (Event.onCv v))) {t : Tid} {start : Nat} (hw : (t, start) ∈ waiters v tr) :
    (t, start) ∈ waiters v (es ++ tr) ∨ Woken v t start (es ++ tr) := by
  rw [← waiters_filter]
  generalize hes : es.filter (Event.onCv v) = es' at hr
  cases hr with
  | same | sleep => exact .inl hw
  | wait =>
    simp only [List.singleton_append, waiters, if_pos]
    exact .inl (List.mem_append_left _ hw)
  | @signal l hone henq =>
    simp only [List.singleton_append, waiters, if_pos]
    have hremoved := h.signal hnodup hone henq
    cases hws : waiters v tr with
    | nil =>
      rw [hws] at hw
      cases hw
    | cons w ws =>
      have hmem := hw
      rw [hws] at hmem hremoved
      rcases List.mem_cons.mp hmem with rfl | hmem
      · refine .inr (woken_of_filter hes hw ?_)
        rw [Event.wakes, if_pos rfl, hremoved]
        exact List.mem_singleton_self _
      · exact .inl hmem
  | broadcast hall henq =>
    refine .inr (woken_of_filter hes hw ?_)
    rw [Event.wakes, if_pos rfl, h.broadcast hall henq]
    exact List.mem_map_of_mem hw

end Steps

end Cpu

end Os161
