import Os161.Thread.Places

/-! # `thread_fork`, and where all threads are

A `thread_fork` that fails takes back what it has done. With that, the places of the threads in every run.
-/

namespace Os161.Cpu

open Machine (Any)

/-! ## Forks that fail -/

structure ForkOk (f : Frame) : Prop where
  before_incref : .act .fork_incref ∈ f.code → f.cwd = none ∧ f.result = none
  before_link : .act .fork_link ∈ f.code → f.result = none
  after_return : .act .fork_return ∉ f.code → f.code ≠ [] → f.result ≠ none
  after_fail : .act .fork_fail ∉ f.code → f.result ≠ none → f.cwd = none

theorem ForkOk.next {f : Frame} (h : ForkOk f) {i : Instr} {rest : List Instr} (hc : f.code = i :: rest)
    (hi : ∀ a, i ≠ .act a) (spl : Nat) : ForkOk { f with code := rest, spl := spl } where
  before_incref hmem := h.before_incref (by rw [hc]; exact List.mem_cons_of_mem _ hmem)
  before_link hmem := h.before_link (by rw [hc]; exact List.mem_cons_of_mem _ hmem)
  after_return hmem _ := by
    refine h.after_return ?_ (by rw [hc]; simp)
    rw [hc, List.mem_cons, not_or]
    exact ⟨(hi _).symm, hmem⟩
  after_fail hmem := by
    refine h.after_fail ?_
    rw [hc, List.mem_cons, not_or]
    exact ⟨(hi _).symm, hmem⟩

theorem fork_rest {f : Frame} (hwf : Wf f) (hf : f.call = .thread_fork) {a : Act} {rest : List Instr}
    (hc : f.code = .act a :: rest) :
    (a, rest) ∈ [(Act.fork_create, (body .thread_fork).drop 1), (.fork_incref, (body .thread_fork).drop 3),
      (.fork_link, (body .thread_fork).drop 6), (.fork_return, (body .thread_fork).drop 9),
      (.fork_fail, (body .thread_fork).drop 11)] := by
  have hsuf := hwf.code
  rw [hf, hc] at hsuf
  simp only [body, List.suffix_cons_iff, List.cons.injEq, List.suffix_nil, reduceCtorEq, false_and, false_or,
    or_false, Instr.act.injEq] at hsuf
  rcases hsuf with ⟨rfl, rfl⟩ | ⟨rfl, rfl⟩ | ⟨rfl, rfl⟩ | ⟨rfl, rfl⟩ | ⟨rfl, rfl⟩ <;> simp [body]

def Frame.forkRef (f : Frame) (v : Nat) : Int := if f.cwd = some v then 1 else 0

structure ForkStep (g : Globals) (f : Frame) (g' : Globals) (f' : Frame) (es : List Event) : Prop where
  refs : ∀ v, g'.vn_refcount v - f'.forkRef v = g.vn_refcount v - f.forkRef v
  lists : (∀ t, .forked t ∉ es) → g'.runqueue.toList = g.runqueue.toList ∧
    g'.sleepers.toList = g.sleepers.toList ∧ g'.zombies.toList = g.zombies.toList ∧ g'.numthreads = g.numthreads
  linked : ∀ t, .forked t ∈ es → f'.result = none ∧ .act .fork_create ∉ f'.code ∧ .act .fork_link ∉ f'.code

theorem ForkStep.same {g g' : Globals} {f f' : Frame} {es : List Event} (hr : g'.vn_refcount = g.vn_refcount)
    (hcwd : f'.cwd = f.cwd) (hq : g'.runqueue.toList = g.runqueue.toList)
    (hs : g'.sleepers.toList = g.sleepers.toList) (hz : g'.zombies.toList = g.zombies.toList)
    (hn : g'.numthreads = g.numthreads) (hes : ∀ t, .forked t ∉ es) : ForkStep g f g' f' es where
  refs v := by rw [hr, Frame.forkRef, Frame.forkRef, hcwd]
  lists _ := ⟨hq, hs, hz, hn⟩
  linked t ht := absurd ht (hes t)

theorem not_forked_effects {t : Tid} {f : Frame} {es : List Event} (hes : ∀ u, .forked u ∉ es) (u : Tid) :
    .forked u ∉ effects t f ++ es := by
  rw [List.mem_append, not_or]
  refine ⟨?_, hes u⟩
  unfold effects
  split <;> simp

theorem fork_act {g g' : Globals} {t : Tid} {f f' : Frame} {a : Act} {rest : List Instr} {es : List Event}
    (hwf : Wf f) (hf : f.call = .thread_fork) (h : ForkOk f) (hc : f.code = .act a :: rest)
    (ha : ActSpec g t { f with code := rest } g' f' es a) :
    ForkOk f' ∧ ForkStep g f g' f' (effects t f' ++ es) := by
  have hrest := fork_rest hwf hf hc
  simp only [body, List.drop_succ_cons, List.drop_zero, List.mem_cons, Prod.mk.injEq, List.not_mem_nil,
    or_false] at hrest
  rcases hrest with ⟨rfl, rfl⟩ | ⟨rfl, rfl⟩ | ⟨rfl, rfl⟩ | ⟨rfl, rfl⟩ | ⟨rfl, rfl⟩
  · obtain ⟨hcwd, hres⟩ := h.before_incref (by rw [hc]; simp)
    obtain ⟨rfl, rfl | ⟨e, rfl⟩, rfl⟩ := ha
    · exact ⟨⟨by simp [hcwd, hres], by simp [hres], by simp, by simp⟩,
        .same rfl rfl rfl rfl rfl rfl (not_forked_effects (by simp))⟩
    · exact ⟨⟨by simp, by simp, by simp, by simp [hcwd]⟩,
        .same rfl rfl rfl rfl rfl rfl (not_forked_effects (by simp))⟩
  · obtain ⟨hcwd, hres⟩ := h.before_incref (by rw [hc]; simp)
    obtain ⟨⟨cur, -, ⟨-, rfl, rfl⟩ | ⟨v, -, rfl, rfl⟩⟩, rfl⟩ := ha
    · exact ⟨⟨by simp, by simp [hres], by simp, by simp⟩,
        .same rfl rfl rfl rfl rfl rfl (not_forked_effects (by simp))⟩
    · refine ⟨⟨by simp, by simp [hres], by simp, by simp⟩, ?_, fun _ => ⟨rfl, rfl, rfl, rfl⟩,
        fun u hu => absurd hu (not_forked_effects (by simp) u)⟩
      intro w
      by_cases hw : v = w
      · subst hw
        simp [set_refcount, Frame.forkRef, hcwd]
      · simp [set_refcount, Frame.forkRef, hcwd, hw, Function.update_of_ne (Ne.symm hw)]
  · have hres := h.before_link (by rw [hc]; simp)
    obtain ⟨hl, rfl, rfl⟩ | ⟨hg, ⟨e, rfl⟩, rfl⟩ := ha
    · refine ⟨⟨by simp, by simp, by simp, by simp⟩, ?_, fun hno => absurd ?_ (hno g.nextthread), fun u _ => ?_⟩
      · intro v
        rw [hl.same]
        rfl
      · simp
      · exact ⟨hres, by simp, by simp⟩
    · exact ⟨⟨by simp, by simp, by simp, by simp⟩,
        .same (by rw [hg.same]) rfl hg.runqueue hg.sleepers hg.zombies (by rw [hg.same])
          (not_forked_effects (by simp))⟩
  · obtain ⟨rfl, rfl, rfl⟩ := ha
    split
    · rename_i hres
      exact ⟨⟨by simp, by simp, by simp, fun _ hne => absurd hres hne⟩,
        .same rfl rfl rfl rfl rfl rfl (not_forked_effects (by simp))⟩
    · rename_i hres
      exact ⟨⟨by simp, by simp, fun _ _ => hres, by simp⟩,
        .same rfl rfl rfl rfl rfl rfl (not_forked_effects (by simp))⟩
  · have hres := h.after_return (by rw [hc]; simp) (by rw [hc]; simp)
    obtain ⟨⟨hcwd, rfl, rfl⟩ | ⟨v, hcwd, -, rfl, rfl⟩, rfl⟩ := ha
    · exact ⟨⟨by simp, by simp, fun _ _ => hres, fun _ _ => hcwd⟩,
        .same rfl rfl rfl rfl rfl rfl (not_forked_effects (by simp))⟩
    · have hcwd : f.cwd = some v := hcwd
      refine ⟨⟨by simp, by simp, fun _ _ => hres, fun _ _ => rfl⟩, ?_, fun _ => ⟨rfl, rfl, rfl, rfl⟩,
        fun u hu => absurd hu (not_forked_effects (by simp) u)⟩
      intro w
      by_cases hw : v = w
      · subst hw
        simp [set_refcount, Frame.forkRef, hcwd]
      · simp [set_refcount, Frame.forkRef, hcwd, hw, Function.update_of_ne (Ne.symm hw)]

section Forks

variable {k k' : Kernel} {ch : Choice} {es tr : List Event} {f : Frame} {bs : List Frame}

theorem ForkOk.resume (h : ForkOk f) {i : Instr} {rest : List Instr} {c : Call} (hc : f.code = i :: rest)
    (hcalls : i.calls c = true) : ForkOk f.resume := by
  rw [Frame.resume, hc]
  dsimp only
  split
  · exact h
  · refine h.next hc ?_ f.spl
    rintro a rfl
    cases hcalls

theorem enter_fork (k : Kernel) : ForkOk (k.enter .thread_fork) :=
  ⟨by simp [Kernel.enter], by simp [Kernel.enter], by simp [Kernel.enter, body], by simp [Kernel.enter]⟩

theorem moves_forkOk (hsp : SplInv k) (h : ∀ t, ∀ f ∈ k.stack t, f.call = .thread_fork → ForkOk f)
    (hm : Moves k ch k' es) (t : Tid) : ∀ f ∈ k'.stack t, f.call = .thread_fork → ForkOk f := by
  intro x hx hcall
  rcases moves_frames hm hx with hold | ⟨rfl, hcomes⟩
  · exact h t x hold hcall
  cases hcomes with
  | old hmem => exact h _ x hmem hcall
  | fresh hfresh =>
    cases hfresh with
    | call hs hc hcalls hi =>
      rw [enter_call] at hcall
      rw [hcall]
      exact enter_fork k
    | switch => cases hcall
    | asleep a => cases hcall
    | interrupt hint => rw [hint] at hcall; cases hcall
  | @resumed f c bs hs hc hx =>
    obtain ⟨habove, -⟩ := List.isChain_cons_cons.mp (hsp.chain_top hs)
    obtain ⟨i, rest, hci, hcalls⟩ := habove.caller fun hint => (hsp.wf_top hs).alive hint hc
    have hcc : c.resume.call = c.call := by
      rw [Frame.resume, hci]
      dsimp only
      split <;> rfl
    rw [hx] at hcall ⊢
    refine (h k.on c (by rw [hs]; simp) (hcc ▸ hcall)).resume hci hcalls
  | @altered f bs hs halt =>
    have hf : f.call = .thread_fork → ForkOk f := h k.on f (by rw [hs]; exact List.mem_cons_self)
    cases halt with
    | next hc hi spl => exact (hf hcall).next hc hi spl
    | turn n => exact ⟨(hf hcall).1, (hf hcall).2, (hf hcall).3, (hf hcall).4⟩
    | act hc ha =>
      have hcall' : f.call = .thread_fork := ha.frame.1 ▸ hcall
      exact (fork_act (hsp.wf_top hs) hcall' (hf hcall') hc ha).1

theorem reach_forkOk {c : Config} {ok : Kernel → Choice → Prop} (h : Reach c ok k tr) :
    ∀ t, ∀ f ∈ k.stack t, f.call = .thread_fork → ForkOk f := by
  refine Machine.Reach.invariant (I := fun k _ => ∀ t, ∀ f ∈ k.stack t, f.call = .thread_fork → ForkOk f) ?_ ?_ h
  · rintro _ ⟨-, rfl⟩ t f hf hcall
    have hf : f ∈ firstStack t := hf
    unfold firstStack at hf
    split at hf <;> rw [List.mem_singleton] at hf <;> subst hf <;> cases hcall
  · intro _ _ _ _ _ hr hk _ hs
    exact moves_forkOk (reach_splInv hr) hk (step_moves hs)

theorem moves_fork (hsp : SplInv k) (hok : ForkOk f) (hs : k.stack k.on = f :: bs) (hf : f.call = .thread_fork)
    (hne : f.code ≠ []) (hm : Moves k ch k' es) :
    ∃ above f', k'.stack k.on = above ++ f' :: bs ∧ f'.call = .thread_fork ∧ f'.start = f.start ∧
      ForkStep k.g f k'.g f' es := by
  have hfits : ∀ {i rest}, f.code = i :: rest → i.fits f.call := fun hc => ((hsp.wf_top hs).checked hc).2
  have hsame : ∀ (f' : Frame) (g : Globals), f'.cwd = f.cwd → g.vn_refcount = k.g.vn_refcount →
      g.runqueue = k.g.runqueue → g.sleepers = k.g.sleepers → g.zombies = k.g.zombies →
      g.numthreads = k.g.numthreads → ForkStep k.g f g f' [] := by
    intro f' g hcwd hr hq hsl hz hn
    exact .same hr hcwd (by rw [hq]) (by rw [hsl]) (by rw [hz]) hn (by simp)
  have hstack : ∀ fs, Function.update k.stack k.on fs k.on = fs := fun fs => Function.update_self ..
  cases hm with
  | interrupt =>
    exact ⟨[_], f, (hstack _).trans (congrArg (List.cons _) hs), hf, rfl, hsame f _ rfl rfl rfl rfl rfl rfl⟩
  | ret hs' hc =>
    rw [hs] at hs'
    cases hs'
    exact absurd hc hne
  | call hs' hc =>
    cases hs.symm.trans hs'
    exact ⟨[_], f, hstack _, hf, rfl, hsame f _ rfl rfl rfl rfl rfl rfl⟩
  | skip hs' hc | splhigh hs' hc | irq hs' hc | setspl hs' hc | idle_on hs' hc | idle_off hs' hc =>
    cases hs.symm.trans hs'
    exact ⟨[], _, hstack _, hf, rfl, hsame _ _ rfl rfl rfl rfl rfl rfl⟩
  | act hs' hc ha =>
    cases hs.symm.trans hs'
    obtain ⟨hcall, -, -, hstart, -⟩ := ha.frame
    exact ⟨[], _, hstack _, hcall.trans hf, hstart, (fork_act (hsp.wf_top hs) hf hok hc ha).2⟩
  | leave hs' hc | zz hs' hc hg | switch hs' hc hg | exit hs' hc hg | schedule hs' hc hg =>
    cases hs.symm.trans hs'
    have := hfits hc
    rw [hf] at this
    cases this
  | unzz hs' hc =>
    cases hs.symm.trans hs'
    obtain ⟨a, ha⟩ := hfits hc
    rw [hf] at ha
    cases ha
  | @pass f₁ bs₁ x rest g' mem mem' u hs' hc hw hp =>
    cases hs.symm.trans hs'
    have := hfits hc
    rw [hf] at this
    cases x <;> simp [Instr.fits] at this
  | @sleep f₁ f' bs₁ i rest a cur g' hs' hc hi hg =>
    cases hs.symm.trans hs'
    have := hfits hc
    rw [hf] at this
    rcases hi with ⟨x, rfl, -⟩ | ⟨rfl, -⟩
    · cases x <;> simp [Instr.fits] at this
    · simp [Instr.fits] at this

end Forks

/-! ## Every run -/

def Lives (tr : List Event) (t : Tid) : Prop := (t = 0 ∨ .forked t ∈ tr) ∧ .exited t ∉ tr

theorem mem_vital {tr : List Event} {t : Tid} :
    (.birth t ∈ tr.filterMap Event.vital ↔ .forked t ∈ tr) ∧
      (.death t ∈ tr.filterMap Event.vital ↔ .exited t ∈ tr) ∧
      (.burial t ∈ tr.filterMap Event.vital ↔ .destroyed t ∈ tr) := by
  have hvital : ∀ e e' : Event, e'.vital ≠ none → (e.vital = e'.vital ↔ e = e') := by
    intro e e' hv
    constructor
    · intro he
      cases e <;> cases e' <;> simp_all [Event.vital]
    · rintro rfl
      rfl
  have hmem : ∀ e' : Event, e'.vital ≠ none → ((∃ e ∈ tr, e.vital = e'.vital) ↔ e' ∈ tr) := by
    intro e' hv
    simp [hvital _ e' hv]
  simp only [List.mem_filterMap]
  exact ⟨hmem (.forked t) (by simp [Event.vital]), hmem (.exited t) (by simp [Event.vital]),
    hmem (.destroyed t) (by simp [Event.vital])⟩

theorem count_destroyed (tr : List Event) (t : Tid) :
    (tr.filterMap Event.vital).count (.burial t) = tr.count (.destroyed t) := by
  induction tr with
  | nil => rfl
  | cons e tr ih =>
    cases e <;> simp [Event.vital, List.filterMap_cons, List.count_cons, ih]

/-- The threads that live are in one place each, and `numthreads` counts them. A
`thread_fork` that makes no thread changes no list. -/
theorem one_place {c : Config} {k : Kernel} {tr : List Event} (h : Reach c Any k tr) :
    (k.g.placed.Nodup ∧ (∀ t, t ∈ k.g.placed ↔ Lives tr t) ∧ k.g.numthreads = k.g.placed.length) ∧
    (∀ t ∈ k.g.sleepers.toList, ∃ a, (k.g.thread t).t_sleepaddr = some a ∧ lastSleep tr t = some a) ∧
    (k.g.zombies.toList.Nodup ∧ (∀ t, t ∈ k.g.zombies.toList ↔ .exited t ∈ tr ∧ .destroyed t ∉ tr) ∧
      (∀ t, k.g.curthread = some t → t ∉ k.g.zombies.toList) ∧ ∀ t, tr.count (.destroyed t) ≤ 1) ∧
    (∀ f bs, k.stack k.on = f :: bs → f.call = .thread_fork → ∀ ch k' es, step k ch = .ok (k', es) →
      (.ret k.on f k.g.curspl ∈ es → f.result ≠ none → f.cwd = none) ∧
      (f.code ≠ [] → ∃ above f', k'.stack k.on = above ++ f' :: bs ∧ f'.call = .thread_fork ∧ f'.start = f.start ∧
        ForkStep k.g f k'.g f' es)) := by
  have hp := reach_placeInv h
  have hcount : ∀ t, k.g.zombies.toList.count t = if .exited t ∈ tr ∧ .destroyed t ∉ tr then 1 else 0 := by
    intro t
    have := hp.accounts.count_dead (hp.once t)
    simpa only [census, Multiset.coe_count, mem_vital] using this
  refine ⟨⟨hp.nodup, fun t => ?_, hp.num⟩, ?_, ⟨?_, ?_, ?_, ?_⟩, ?_⟩
  · have halive := hp.accounts.count_alive (hp.once t)
    simp only [census, Multiset.coe_count, Multiset.mem_singleton, mem_vital] at halive
    rw [← List.count_pos_iff, halive, Lives]
    split <;> simp_all
  · intro t ht
    exact reach_sleepInv h (t, (k.g.thread t).t_sleepaddr) (List.mem_map_of_mem ht)
  · rw [List.nodup_iff_count_le_one]
    intro t
    rw [hcount]
    split <;> omega
  · intro t
    rw [← List.count_pos_iff, hcount]
    split <;> simp_all
  · intro t hcur hz
    have hmem : t ∈ (census k.g).alive := by
      rw [census, Multiset.mem_coe, Globals.placed, hcur]
      simp
    exact hp.accounts.not_dead (hp.once t) hmem (by rwa [census, Multiset.mem_coe])
  · intro t
    rw [← count_destroyed]
    exact hp.accounts.buried_once (hp.once t)
  · intro f bs hs hf ch k' es hstep
    have hok := reach_forkOk h k.on f (by rw [hs]; exact List.mem_cons_self) hf
    refine ⟨fun hret hres => ?_, fun hne => moves_fork (reach_splInv h) hok hs hf hne (step_moves hstep)⟩
    have hc := ((step_moves hstep).of_ret hret).2.1
    exact hok.after_fail (by simp [hc]) hres

/-- A `thread_fork` that found no memory for the tables, about to return: the directory has its one reference
again. -/
theorem one_place_failed_fork : ∃ k tr, Reach ⟨fun _ => 0, some 0, fun _ => 1⟩ Any k tr ∧
    ((k.stack k.on).map fun f => (f.call, f.result)) = [(.thread_fork, some .ENOMEM), (.boot, none)] ∧
    k.g.vn_refcount 0 = 1 ∧ k.g.numthreads = 1 ∧ k.g.numthreads = k.g.placed.length := by
  let chs : List Choice := [.call .thread_fork, .go [], .done, .go [], .done, .go [], .go [false], .go [], .go [],
    .go [], .done, .go [], .done]
  obtain ⟨k, tr, hreach, hcheck⟩ := Machine.exists_runOk (M := threads ⟨fun _ => 0, some 0, fun _ => 1⟩)
    (s := boot ⟨fun _ => 0, some 0, fun _ => 1⟩) Any chs
    (fun x => ((x.1.stack x.1.on).map fun f => (f.call, f.result)) = [(.thread_fork, some .ENOMEM), (.boot, none)] ∧
      x.1.g.vn_refcount 0 = 1 ∧ x.1.g.numthreads = 1)
    ⟨fun _ => Int.le_refl 0, rfl⟩ (by decide +kernel)
  obtain ⟨hframes, href, hnum⟩ := of_decide_eq_true hcheck
  exact ⟨k, tr, hreach, hframes, href, hnum, (one_place hreach).1.2.2⟩

end Os161.Cpu
