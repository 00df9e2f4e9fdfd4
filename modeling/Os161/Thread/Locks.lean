import Os161.Thread.Semaphores

/-! # Locks over every run -/

namespace Os161.Cpu

/-! ## Who is inside -/

def Event.enters (l : Nat) (t : Tid) : Event → Option Bool
  | .effect u (.lock_acquire l') => if u = t ∧ l' = l then some true else none
  | .effect u (.lock_release l') => if u = t ∧ l' = l then some false else none
  | _ => none

def inside (l : Nat) (t : Tid) : List Event → Bool
  | [] => false
  | e :: tr => (e.enters l t).getD (inside l t tr)

section Inside

variable {k k' : Kernel} {ch : Choice} {es tr : List Event} {l : Nat} {t : Tid}

theorem enters_eq_none {e : Event} (he : e.sync = false) : e.enters l t = none := by
  cases e with
  | effect u c =>
    cases c with
    | lock_acquire l' | lock_release l' => cases he
    | _ => rfl
  | _ => rfl

theorem inside_filter (es tr : List Event) : inside l t (es.filter Event.sync ++ tr) = inside l t (es ++ tr) := by
  induction es with
  | nil => rfl
  | cons e es ih =>
    cases he : e.sync with
    | true =>
      rw [List.filter_cons_of_pos he, List.cons_append, List.cons_append, inside, inside, ih]
    | false =>
      rw [List.filter_cons_of_neg (by simp [he]), List.cons_append, inside, enters_eq_none he, ih]
      rfl

theorem inside_acquire (u : Tid) (l' : Nat) :
    inside l t ([.effect u (.lock_acquire l')] ++ tr) = if u = t ∧ l' = l then true else inside l t tr := by
  simp only [List.singleton_append, inside, Event.enters]
  split <;> rfl

theorem inside_release (u : Tid) (l' : Nat) :
    inside l t ([.effect u (.lock_release l')] ++ tr) = if u = t ∧ l' = l then false else inside l t tr := by
  simp only [List.singleton_append, inside, Event.enters]
  split <;> rfl

def LockInv (k : Kernel) (tr : List Event) : Prop :=
  ∀ l t, inside l t tr = true ↔ (k.g.lock l).owner = some t

theorem LockInv.step (h : LockInv k tr) (hsync : Resynced k k'.g (es.filter Event.sync)) :
    LockInv k' (es ++ tr) := by
  intro l t
  rw [← inside_filter]
  have hlt := h l t
  generalize es.filter Event.sync = es' at hsync
  cases hsync with
  | same hcount hlock => rwa [hlock]
  | P hpos hg => rwa [hg]
  | V hpos hw => rwa [hw.same]
  | @acquire l' hnext hfree hg =>
    rw [inside_acquire, hg]
    by_cases hl : l' = l
    · subst hl
      rw [hfree] at hlt
      by_cases ht : k.on = t
      · simp [ht, set_lock]
      · simpa [ht, set_lock] using hlt
    · simpa [hl, set_lock, Function.update_of_ne (Ne.symm hl)] using hlt
  | @release l' hnext hheld hw =>
    rw [inside_release, hw.same]
    by_cases hl : l' = l
    · subst hl
      rw [hheld] at hlt
      by_cases ht : k.on = t
      · simp [ht, set_lock]
      · simpa [ht, set_lock] using hlt
    · simpa [hl, set_lock, Function.update_of_ne (Ne.symm hl)] using hlt

theorem reach_lockInv {c : Config} {ok : Kernel → Choice → Prop} (h : Reach c ok k tr) : LockInv k tr := by
  refine Machine.Reach.invariant (I := LockInv) ?_ ?_ h
  · rintro _ ⟨-, rfl⟩ l t
    exact ⟨nofun, nofun⟩
  · intro k k' ch tr es hr hk _ hs
    exact hk.step (moves_resynced (reach_splInv hr) (reach_swInv hr) (step_moves hs))

end Inside

/-! ## Calls that have only their `splx` left -/

def Frame.settled (f : Frame) : Prop := f.code <:+ [.irq, .setspl]

def Frame.quiet (f : Frame) : Prop := ∀ i ∈ f.code.head?, (∀ c, i.calls c = false) ∧ ∀ l, i ≠ .act (.lock_drop l)

def Call.locks : Call → Option Nat
  | .lock_acquire l | .lock_release l | .lock_do_i_hold l | .cv_wait _ l => some l
  | _ => none

section Settled

variable {k k' : Kernel} {ch : Choice} {es tr : List Event} {l : Nat} {t : Tid} {f x : Frame} {bs : List Frame}
  {i : Instr} {rest : List Instr}

theorem settled_cons (hc : f.code = i :: rest) (h : f.settled) : i = .irq ∨ i = .setspl := by
  unfold Frame.settled at h
  rw [hc] at h
  simp only [List.suffix_cons_iff, List.cons.injEq, List.suffix_nil] at h
  rcases h with ⟨rfl, -⟩ | ⟨rfl, -⟩ | h
  · exact .inl rfl
  · exact .inr rfl
  · cases h

theorem Frame.settled.quiet (h : f.settled) : f.quiet := by
  intro i hi
  obtain ⟨rest, hc⟩ := List.head?_eq_some_iff.mp hi
  rcases settled_cons hc h with rfl | rfl
  · exact ⟨fun _ => rfl, nofun⟩
  · exact ⟨fun _ => rfl, nofun⟩

theorem handlerish_of_quiet (hch : (f :: bs).IsChain Above) (hwf : ∀ b ∈ bs, Wf b) (hx : x ∈ bs) (h : x.quiet) :
    f.call.handlerish = true := by
  induction bs generalizing f with
  | nil => cases hx
  | cons b bs ih =>
    obtain ⟨habove, hch⟩ := List.isChain_cons_cons.mp hch
    rcases List.mem_cons.mp hx with rfl | hx
    · by_cases hint : f.call = .mips_interrupt
      · rw [hint]
        rfl
      · obtain ⟨i, rest, hc, hcalls⟩ := habove.caller hint
        cases hcalls.symm.trans ((h i (by rw [hc]; rfl)).1 f.call)
    · have hb := ih hch (fun c hc => hwf c (List.mem_cons_of_mem _ hc)) hx
      exact habove.handlerish (hwf b List.mem_cons_self) hb

theorem SplInv.next_of_quiet (hsp : SplInv k) (hx : x ∈ k.stack k.on) (h : x.quiet) (hnext : k.next = some i) :
    ((∀ c, i.calls c = false) ∧ ∀ l, i ≠ .act (.lock_drop l)) ∨ ∃ c, i.fits c ∧ c.handlerish = true := by
  cases hs : k.stack k.on with
  | nil =>
    rw [hs] at hx
    cases hx
  | cons f bs =>
    have hhead : f.code.head? = some i := by simpa [Kernel.next, hs] using hnext
    obtain ⟨rest, hc⟩ := List.head?_eq_some_iff.mp hhead
    rw [hs] at hx
    rcases List.mem_cons.mp hx with rfl | hx
    · exact .inl (h i hhead)
    · have hf := handlerish_of_quiet (hsp.chain_top hs) (hsp.wf_below hs) hx h
      exact .inr ⟨f.call, ((hsp.wf_top hs).checked hc).2, hf⟩

theorem inside_of_quiet (hsp : SplInv k) (hsync : Resynced k k'.g (es.filter Event.sync)) (hx : x ∈ k.stack t)
    (h : x.quiet) : inside l t (es ++ tr) = inside l t tr := by
  rw [← inside_filter]
  generalize es.filter Event.sync = es' at hsync
  cases hsync with
  | same | P | V => rfl
  | @acquire l' hnext hfree hg =>
    rw [inside_acquire, if_neg]
    rintro ⟨rfl, rfl⟩
    rcases hsp.next_of_quiet hx h hnext with ⟨hcalls, -⟩ | ⟨c, rfl, hc⟩
    · have := hcalls (.thread_sleep (.lock l'))
      simp [Instr.calls, Loop.addr] at this
    · cases hc
  | @release l' hnext hheld hw =>
    rw [inside_release, if_neg]
    rintro ⟨rfl, rfl⟩
    rcases hsp.next_of_quiet hx h hnext with ⟨-, hne⟩ | ⟨c, rfl, hc⟩
    · exact hne l' rfl
    · cases hc

inductive Settles (k : Kernel) (es : List Event) (x : Frame) : Prop where
  | other (h : x.call.locks = none)
  | kept {f : Frame} (hf : f ∈ k.stack k.on) (h : f.settled) (hcall : x.call = f.call) (hval : x.val = f.val)
  | worked (h : es = [.effect k.on x.call]) (hsync : x.call.sync = true)
  | read {l : Nat} (hcall : x.call = .lock_do_i_hold l) (hcur : k.g.curthread = some k.on) (h : es = [])
      (hval : x.val = decide ((k.g.lock l).locked ≠ 0 ∧ (k.g.lock l).owner = k.g.curthread))
  | waited {f : Frame} {v l : Nat} (hcall : x.call = .cv_wait v l) (hf : f ∈ k.stack k.on) (h : f.settled)
      (hlock : f.call = .lock_acquire l)

theorem Wf.last (hwf : Wf f) (hc : f.code = i :: rest) (h : rest <:+ [.irq, .setspl]) :
    f.call.locks = none ∨ (i = .irq ∨ i = .setspl) ∧ f.settled ∨
      (∃ l, f.call = .lock_acquire l ∧ i = .loop (.lock_acquire l)) ∨
      (∃ l, f.call = .lock_release l ∧ i = .act (.lock_drop l)) ∨
      (∃ l, f.call = .lock_do_i_hold l ∧ i = .act (.lock_read l)) ∨
      ∃ v l, f.call = .cv_wait v l ∧ i = .call (.lock_acquire l) := by
  have hsuf := hwf.code
  unfold Frame.settled
  rw [hc] at hsuf ⊢
  cases hf : f.call with
  | lock_acquire l | lock_release l | lock_do_i_hold l | cv_wait v l =>
    rw [hf] at hsuf
    simp only [body, List.suffix_cons_iff, List.cons.injEq, List.suffix_nil] at hsuf h ⊢
    grind
  | _ => exact .inl rfl

theorem enter_settled {c : Call} (h : (k.enter c).settled) : (k.enter c).call.locks = none := by
  unfold Frame.settled at h
  have hlen := h.length_le
  rw [enter_code] at hlen
  rw [enter_call]
  cases c with
  | lock_acquire l | lock_release l | lock_do_i_hold l | cv_wait v l => simp [body] at hlen
  | _ => rfl

theorem Settles.same (hx : x ∈ k.stack k.on) (h : x.settled) : Settles k es x := .kept hx h rfl rfl

theorem settles_next (hsp : SplInv k) (hs : k.stack k.on = f :: bs) (hc : f.code = i :: rest)
    (hi : ∀ y, i ≠ .loop y) (hact : ∀ a, i ≠ .act a) (hcall : ∀ c, i ≠ .call c) (hx : x.call = f.call)
    (hcode : x.code = rest) (hval : x.val = f.val) (h : x.settled) : Settles k es x := by
  rcases (hsp.wf_top hs).last hc (by rw [← hcode]; exact h) with
    hnone | ⟨-, hf⟩ | ⟨l, -, rfl⟩ | ⟨l, -, rfl⟩ | ⟨l, -, rfl⟩ | ⟨v, l, -, rfl⟩
  · exact .other (by rw [hx]; exact hnone)
  · exact .kept (by rw [hs]; exact List.mem_cons_self) hf hx hval
  · exact absurd rfl (hi _)
  · exact absurd rfl (hact _)
  · exact absurd rfl (hact _)
  · exact absurd rfl (hcall _)

theorem settles_resume {c : Frame} (hsp : SplInv k) (hs : k.stack k.on = f :: c :: bs) (hc : f.code = [])
    (h : c.resume.settled) : Settles k es c.resume := by
  have hmem : c ∈ k.stack k.on := by rw [hs]; simp
  obtain ⟨habove, -⟩ := List.isChain_cons_cons.mp (hsp.chain_top hs)
  obtain ⟨i, rest, hci, hcalls⟩ := habove.caller fun hint => (hsp.wf_top hs).alive hint hc
  unfold Frame.resume at h ⊢
  rw [hci] at h ⊢
  dsimp only at h ⊢
  by_cases hstays : i.stays = true
  · rw [if_pos hstays] at h ⊢
    exact .same hmem h
  · rw [if_neg hstays] at h ⊢
    rcases (hsp.wf _ c hmem).last hci h with
      hnone | ⟨-, hset⟩ | ⟨l, -, rfl⟩ | ⟨l, -, rfl⟩ | ⟨l, -, rfl⟩ | ⟨v, l, hcall, rfl⟩
    · exact .other hnone
    · cases hcalls.symm.trans ((hset.quiet i (by rw [hci]; rfl)).1 f.call)
    · exact absurd rfl hstays
    · cases hcalls
    · cases hcalls
    · have hlock : .lock_acquire l = f.call := by simpa [Instr.calls] using hcalls
      refine .waited hcall (f := f) (by rw [hs]; simp) ?_ hlock.symm
      unfold Frame.settled
      rw [hc]
      exact List.nil_suffix

theorem ActSpec.settles (hsp : SplInv k) (hsw : SwInv k) {a : Act} {g' : Globals} (hs : k.stack k.on = f :: bs)
    (hc : f.code = .act a :: rest) (ha : ActSpec k.g k.on { f with code := rest } g' x es a) (h : x.settled) :
    Settles k ((effects k.on x ++ es).filter Event.sync) x := by
  have hwf := hsp.wf_top hs
  have hhome : f.call = a.home := (hwf.checked hc).2
  obtain ⟨hcall, -, -, -, hcode, -⟩ := ha.frame
  have hcall : x.call = f.call := hcall
  rw [List.filter_append, ha.events_sync, List.append_nil]
  by_cases hlocks : x.call.locks = none
  · exact .other hlocks
  have hcode : x.code = rest := by
    rcases hcode with hcode | ⟨-, hfork⟩
    · exact hcode
    · rw [hcall, hhome, hfork] at hlocks
      exact absurd rfl hlocks
  rcases hwf.last hc (by rw [← hcode]; exact h) with
    hnone | ⟨hi, -⟩ | ⟨l, -, hi⟩ | ⟨l, hf, hi⟩ | ⟨l, hf, hi⟩ | ⟨v, l, -, hi⟩
  · rw [hcall] at hlocks
    exact absurd hnone hlocks
  · rcases hi with hi | hi <;> cases hi
  · cases hi
  · refine .worked ?_ (by rw [hcall, hf]; rfl)
    rw [effects_eq hwf hc (.inr ⟨a, rfl⟩) (by rw [hf]; rfl) hcall hcode, hcall]
  · obtain rfl : a = .lock_read l := by simpa using hi
    refine .read (hcall.trans hf) (hsw.curthread hsp hs (by rw [hf]; rfl)) (effects_sync ?_) ?_
    · rw [hcall, hf]
      rfl
    · rw [ha.2.1]
  · cases hi

theorem moves_settles (hsp : SplInv k) (hsw : SwInv k) (hm : Moves k ch k' es) (hx : x ∈ k'.stack k.on)
    (h : x.settled) : Settles k (es.filter Event.sync) x := by
  have hbelow : ∀ {f : Frame} {bs : List Frame} {es : List Event}, k.stack k.on = f :: bs → x ∈ bs →
      Settles k es x := by
    intro f bs es hs hx
    exact .same (by rw [hs]; exact List.mem_cons_of_mem _ hx) h
  have htop : ∀ {f : Frame} {bs : List Frame} {es : List Event}, k.stack k.on = f :: bs → x = f →
      Settles k es x := by
    rintro f bs es hs rfl
    exact .same (by rw [hs]; exact List.mem_cons_self) h
  have hstack : ∀ {fs : List Frame}, x ∈ Function.update k.stack k.on fs k.on → x ∈ fs := by
    intro fs hx
    rwa [Function.update_self] at hx
  cases hm with
  | interrupt =>
    rcases List.mem_cons.mp (hstack hx) with rfl | hx
    · exact .other rfl
    · exact .same hx h
  | ret hs hc =>
    rcases List.mem_cons.mp (hstack hx) with rfl | hx
    · exact settles_resume hsp hs hc h
    · exact hbelow hs (List.mem_cons_of_mem _ hx)
  | call hs hc hcalls hi =>
    rcases List.mem_cons.mp (hstack hx) with rfl | hx
    · exact .other (enter_settled h)
    · exact .same (by rw [hs]; exact hx) h
  | skip hs hc hi =>
    rcases List.mem_cons.mp (hstack hx) with rfl | hx
    · refine settles_next hsp hs hc ?_ ?_ ?_ rfl rfl rfl h
      all_goals
        rintro y rfl
        simp at hi
    · exact hbelow hs hx
  | splhigh hs hc | irq hs hc | setspl hs hc | idle_on hs hc | idle_off hs hc | unzz hs hc =>
    rcases List.mem_cons.mp (hstack hx) with rfl | hx
    · exact settles_next hsp hs hc nofun nofun nofun rfl rfl rfl h
    · exact hbelow hs hx
  | leave hs hc => exact hbelow hs (hstack hx)
  | act hs hc ha =>
    rcases List.mem_cons.mp (hstack hx) with rfl | hx
    · exact ha.settles hsp hsw hs hc h
    · exact hbelow hs hx
  | @pass f bs y rest g' mem mem' u hs hc hw hp =>
    rcases List.mem_cons.mp (hstack hx) with rfl | hx
    · have hwf := hsp.wf_top hs
      rcases hwf.last hc h with hnone | ⟨hi, -⟩ | ⟨l, hf, -⟩ | ⟨l, -, hi⟩ | ⟨l, -, hi⟩ | ⟨v, l, -, hi⟩
      · exact .other hnone
      · rcases hi with hi | hi <;> cases hi
      · have hsync : f.call.sync = true := by rw [hf]; rfl
        have heff : (effects k.on { f with code := rest }).filter Event.sync = [.effect k.on f.call] :=
          effects_eq hwf hc (.inl ⟨y, rfl⟩) hsync rfl rfl
        exact .worked heff hsync
      · cases hi
      · cases hi
      · cases hi
    · exact hbelow hs hx
  | @sleep f f' bs i rest a cur g' hs hc hi hg =>
    rcases List.mem_cons.mp (hstack hx) with rfl | hx
    · exact .other rfl
    rcases List.mem_cons.mp hx with rfl | hx
    · exact .other rfl
    rcases List.mem_cons.mp hx with rfl | hx
    · rcases hi with ⟨y, rfl, -, -, rfl⟩ | ⟨-, rfl⟩
      · cases y with
        | P s | lock_acquire l => exact htop hs rfl
        | clocksleep =>
          obtain ⟨n, hn⟩ := ((hsp.wf_top hs).checked hc).2
          exact .other (by rw [Loop.turn, hn]; rfl)
      · exact htop hs rfl
    · exact hbelow hs hx
  | zz hs hc hg =>
    rcases List.mem_cons.mp (hstack hx) with rfl | hx
    · exact .other rfl
    rcases List.mem_cons.mp hx with rfl | hx
    · exact settles_next hsp hs hc nofun nofun nofun rfl rfl rfl h
    · exact hbelow hs hx
  | switch hs hc hg | exit hs hc hg =>
    rcases List.mem_cons.mp (hstack hx) with rfl | hx
    · exact .other rfl
    · exact .same (by rw [hs]; exact hx) h
  | schedule hs hc hg =>
    rw [md_switch_stack] at hx
    rcases List.mem_cons.mp (hstack hx) with rfl | hx
    · exact settles_next hsp hs hc nofun nofun nofun rfl rfl rfl h
    · exact hbelow hs hx

/-! ## What they return with -/

def Knows (tr : List Event) (t : Tid) (f : Frame) : Prop :=
  match f.call with
  | .lock_acquire l | .cv_wait _ l => inside l t tr = true
  | .lock_release l => inside l t tr = false
  | .lock_do_i_hold l => f.val = inside l t tr
  | _ => True

theorem knows_of_locks (h : f.call.locks = none) : Knows tr t f := by
  unfold Knows
  split <;> simp_all [Call.locks]

theorem Knows.congr {tr' : List Event} (h : Knows tr t f) (hin : ∀ l, inside l t tr' = inside l t tr)
    (hcall : x.call = f.call) (hval : x.val = f.val) : Knows tr' t x := by
  unfold Knows at h ⊢
  rw [hcall, hval]
  split at h
  all_goals simp_all

def KnowInv (k : Kernel) (tr : List Event) : Prop := ∀ t, ∀ f ∈ k.stack t, f.settled → Knows tr t f

theorem KnowInv.step (h : KnowInv k tr) (hlock : LockInv k tr) (hfree : FreeInv k) (hsp : SplInv k) (hsw : SwInv k)
    (hm : Moves k ch k' es) : KnowInv k' (es ++ tr) := by
  intro t x hx hset
  have hsync := moves_resynced hsp hsw hm
  have hkept : ∀ {f : Frame}, f ∈ k.stack t → f.settled → ∀ {y : Frame}, y.call = f.call → y.val = f.val →
      Knows (es ++ tr) t y := by
    intro f hf hset y hcall hval
    exact (h t f hf hset).congr (fun l => inside_of_quiet hsp hsync hf hset.quiet) hcall hval
  rcases moves_frames hm hx with hold | ⟨rfl, -⟩
  · exact hkept hold hset rfl rfl
  cases moves_settles hsp hsw hm hx hset with
  | other hnone => exact knows_of_locks hnone
  | kept hf hset' hcall hval => exact hkept hf hset' hcall hval
  | worked hes hcalls =>
    unfold Knows
    cases hcall : x.call with
    | lock_acquire l =>
      rw [hcall] at hes
      show inside l k.on (es ++ tr) = true
      rw [← inside_filter, hes, inside_acquire, if_pos ⟨rfl, rfl⟩]
    | lock_release l =>
      rw [hcall] at hes
      show inside l k.on (es ++ tr) = false
      rw [← inside_filter, hes, inside_release, if_pos ⟨rfl, rfl⟩]
    | P s | V s => trivial
    | _ =>
      rw [hcall] at hcalls
      cases hcalls
  | @read l hcall hcur hes hval =>
    unfold Knows
    rw [hcall]
    show x.val = inside l k.on (es ++ tr)
    rw [← inside_filter, hes, List.nil_append, hval, hcur, Bool.eq_iff_iff, decide_eq_true_eq, hlock l k.on]
    rcases hfree.lock l with hl | ⟨u, hl⟩
    · simp [hl]
    · simp [hl]
  | waited hcall hf hset' hacq =>
    have hknows := hkept hf hset' rfl rfl
    unfold Knows at hknows ⊢
    rw [hacq] at hknows
    rw [hcall]
    exact hknows

theorem boot_knowInv {c : Config} {tr : List Event} : KnowInv (boot c) tr := by
  intro t f hf hset
  have hf : f ∈ firstStack t := hf
  unfold firstStack at hf
  split at hf
  · rw [List.mem_singleton.mp hf]
    trivial
  · rw [List.mem_singleton.mp hf]
    trivial

theorem reach_knowInv {c : Config} {ok : Kernel → Choice → Prop} (h : Reach c ok k tr) : KnowInv k tr := by
  refine Machine.Reach.invariant (I := KnowInv) ?_ ?_ h
  · rintro _ ⟨-, rfl⟩
    exact boot_knowInv
  · intro k k' ch tr es hr hk _ hs
    exact hk.step (reach_lockInv hr) (reach_freeInv hr) (reach_splInv hr) (reach_swInv hr) (step_moves hs)

theorem KnowInv.returns (h : KnowInv k tr) (hm : Moves k ch k' es) {n : Nat} (he : .ret t f n ∈ es) :
    Knows tr t f := by
  cases hm with
  | ret hs hc =>
    simp only [List.mem_singleton, Event.ret.injEq] at he
    obtain ⟨rfl, rfl, -⟩ := he
    refine h _ f (by rw [hs]; exact List.mem_cons_self) ?_
    unfold Frame.settled
    rw [hc]
    exact List.nil_suffix
  | act hs hc ha =>
    cases ha.events _ he
  | pass => cases effects_ofAct _ he
  | _ => simp at he

end Settled

/-! ## The theorem -/

/-- At most one thread is inside, and it is the owner. `lock_acquire` and `cv_wait` return inside,
`lock_do_i_hold` tells who is, and nobody sleeps on a free lock. -/
theorem locks_exclude {c : Config} {k : Kernel} {tr : List Event} (h : Reach c Polite k tr) (l : Nat) :
    ((k.g.lock l).locked = 1 ↔ (k.g.lock l).owner ≠ none) ∧
      (∀ t, inside l t tr = true → (k.g.lock l).owner = some t ∧ ∀ u, inside l u tr = true → u = t) ∧
      (∀ ch k' es, step k ch = .ok (k', es) → ∀ t f n, .ret t f n ∈ es →
        (f.call = .lock_acquire l ∨ (∃ v, f.call = .cv_wait v l) → inside l t tr = true) ∧
        (f.call = .lock_release l → inside l t tr = false) ∧
        (f.call = .lock_do_i_hold l → f.val = inside l t tr)) ∧
      (∀ ch, step k ch ≠ .error (.halt .acquire_locked) ∧ step k ch ≠ .error (.halt .acquire_owner)) ∧
      ((k.g.lock l).locked = 0 → ∀ t ∈ k.g.sleepers.toList, (k.g.thread t).t_sleepaddr ≠ some (.lock l)) := by
  have hlock := reach_lockInv h
  refine ⟨?_, ?_, ?_, fun ch => ⟨reach_no_pass_halt h rfl, reach_no_pass_halt h rfl⟩, ?_⟩
  · rcases (reach_freeInv h).lock l with hl | ⟨t, hl⟩
    · simp [hl]
    · simp [hl]
  · intro t ht
    have howner := (hlock l t).mp ht
    refine ⟨howner, fun u hu => ?_⟩
    exact Option.some.inj (((hlock l u).mp hu).symm.trans howner)
  · intro ch k' es hs t f n he
    have hknows := (reach_knowInv h).returns (step_moves hs) he
    unfold Knows at hknows
    refine ⟨?_, ?_, ?_⟩
    · rintro (hcall | ⟨v, hcall⟩)
      · rwa [hcall] at hknows
      · rwa [hcall] at hknows
    · intro hcall
      rwa [hcall] at hknows
    · intro hcall
      rwa [hcall] at hknows
  · intro hfree t ht haddr
    have hon : t ∈ k.g.sleepersOn (.lock l) := List.mem_filter.mpr ⟨ht, by simpa [Globals.sleepsOn] using haddr⟩
    have htaken : (k.g.lock l).locked = 1 := reach_guardInv h t _ hon
    rw [hfree] at htaken
    cases htaken

/-- The first thread takes a lock, the second one goes to sleep on it, and the first asks whether it holds it. -/
theorem locks_exclude_two : ∃ k tr, Reach plainConfig Polite k tr ∧ k.g.sleepersOn (.lock 0) = [1] ∧
    (k.g.lock 0).owner = some 0 ∧ (k.g.lock 0).locked = 1 ∧ (∀ u, inside 0 u tr = true → u = 0) ∧
    ∃ k' f, step k (.go []) = .ok (k', [.ret 0 f SPL_HIGH]) ∧ f.call = .lock_do_i_hold 0 ∧ f.val = inside 0 0 tr := by
  let go (n : Nat) : List Choice := List.replicate n (.go [])
  let chs : List Choice := List.flatten
    [[.call .thread_fork, .go [], .done, .go [], .done], go 6, [.call (.lock_acquire 0)], go 6,
      [.call .thread_yield], go 5, [.call (.lock_acquire 0)], go 9, [.call (.lock_do_i_hold 0)], go 4]
  let holder : Frame := ⟨.lock_do_i_hold 0, [], SPL_HIGH, 35, SPL_HIGH, false, true, 0, none, none⟩
  obtain ⟨k, tr, hreach, hcheck⟩ := Machine.exists_runOk (M := threads plainConfig) Polite chs
    (fun x => x.1.g.sleepersOn (.lock 0) = [1] ∧ inside 0 0 x.2 = true ∧
      ((step x.1 (.go [])).toOption.map Prod.snd) = some [.ret 0 holder SPL_HIGH])
    ⟨plainConfig_counts, rfl⟩ (by decide +kernel)
  simp only [decide_eq_true_eq] at hcheck
  obtain ⟨hon, hin, hret⟩ := hcheck
  obtain ⟨htaken, hinside, hreturns, -⟩ := locks_exclude hreach 0
  obtain ⟨howner, hone⟩ := hinside 0 hin
  refine ⟨k, tr, hreach, hon, howner, htaken.mpr (by rw [howner]; simp), hone, ?_⟩
  cases hstep : step k (.go []) with
  | error e =>
    rw [hstep] at hret
    cases hret
  | ok r =>
    obtain ⟨k', es⟩ := r
    rw [hstep] at hret
    obtain rfl : es = [.ret 0 holder SPL_HIGH] := Option.some.inj hret
    exact ⟨k', holder, rfl, rfl, (hreturns _ _ _ hstep 0 holder _ (List.mem_singleton_self _)).2.2 rfl⟩

end Os161.Cpu
