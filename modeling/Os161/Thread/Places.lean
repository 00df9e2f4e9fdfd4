import Os161.Lib.Census
import Os161.Thread.Lists

/-! # Where the threads are

Every thread that has been forked and has not exited is in one place: it is the current thread, in the run
queue or asleep. The zombies are the threads that have exited and wait for `exorcise`.
-/

namespace Os161

def Globals.placed (g : Globals) : List Tid := g.curthread.toList ++ g.runqueue.toList ++ g.sleepers.toList

def Globals.asleep (g : Globals) : List (Tid × Option Addr) :=
  g.sleepers.toList.map fun t => (t, (g.thread t).t_sleepaddr)

section Pieces

variable {g g' : Globals} {a : Addr}

theorem filter_take_eraseP_perm {α : Type} (p : α → Bool) (l : List α) :
    ((l.filter p).take 1 ++ l.eraseP p).Perm l := by
  induction l with
  | nil => exact .rfl
  | cons x l ih =>
    by_cases hx : p x = true
    · simp [hx]
    · simp only [List.filter_cons_of_neg hx, List.eraseP_cons_of_neg hx]
      exact List.perm_middle.trans (ih.cons x)

theorem placed_perm {l : List Tid} (hcur : g'.curthread = g.curthread)
    (hq : g'.runqueue.toList = g.runqueue.toList ++ l) (hl : (l ++ g'.sleepers.toList).Perm g.sleepers.toList) :
    g'.placed.Perm g.placed := by
  rw [Globals.placed, Globals.placed, hcur, hq, ← List.append_assoc, List.append_assoc]
  exact hl.append_left _

theorem Woke.placed (h : Woke a g g') : g'.placed.Perm g.placed := by
  refine placed_perm (by rw [h.same]) h.runqueue ?_
  rw [h.sleepers, Globals.sleepersOn]
  exact List.filter_append_perm _ _

theorem WokeOne.placed (h : WokeOne a g g') : g'.placed.Perm g.placed := by
  refine placed_perm (by rw [h.same]) h.runqueue ?_
  rw [h.sleepers, Globals.sleepersOn]
  exact filter_take_eraseP_perm _ _

theorem Linked.placed {cwd : Option Nat} (h : Linked cwd g g') : g'.placed.Perm (g.nextthread :: g.placed) := by
  have hcur : g'.curthread = g.curthread := by rw [h.same]
  rw [Globals.placed, Globals.placed, hcur, h.sleepers, h.runqueue, ← List.append_assoc,
    List.append_assoc (_ ++ _), List.singleton_append]
  exact List.perm_middle

theorem Grown.placed (h : Grown g g') : g'.placed = g.placed := by
  have hcur : g'.curthread = g.curthread := by rw [h.same]
  rw [Globals.placed, Globals.placed, hcur, h.sleepers, h.runqueue]

theorem set_sleepaddr_self (t : Tid) (x : Option Addr) (g : Globals) :
    ((set_sleepaddr t x g).thread t).t_sleepaddr = x := by
  simp [set_sleepaddr]

theorem set_sleepaddr_of_ne {t u : Tid} {x : Option Addr} (h : u ≠ t) :
    (set_sleepaddr t x g).thread u = g.thread u := by
  simp [set_sleepaddr, h]

theorem asleep_congr (hs : g'.sleepers.toList = g.sleepers.toList)
    (ht : ∀ t ∈ g.sleepers.toList, (g'.thread t).t_sleepaddr = (g.thread t).t_sleepaddr) : g'.asleep = g.asleep := by
  rw [Globals.asleep, Globals.asleep, hs]
  exact List.map_congr_left fun t htm => by rw [ht t htm]

theorem Grown.asleep (h : Grown g g') : g'.asleep = g.asleep :=
  asleep_congr h.sleepers fun t _ => by rw [h.same]

theorem Linked.asleep {cwd : Option Nat} (h : Linked cwd g g') (hnext : g.nextthread ∉ g.sleepers.toList) :
    g'.asleep = g.asleep := by
  refine asleep_congr h.sleepers fun t ht => ?_
  have hne : t ≠ g.nextthread := by
    rintro rfl
    exact hnext ht
  rw [h.same]
  show (Function.update g.thread g.nextthread ⟨none, cwd⟩ t).t_sleepaddr = _
  rw [Function.update_of_ne hne]

theorem asleep_subset (hthread : g'.thread = g.thread) (hs : g'.sleepers.toList ⊆ g.sleepers.toList) :
    g'.asleep ⊆ g.asleep := by
  rw [Globals.asleep, Globals.asleep, hthread]
  exact List.map_subset _ hs

theorem Woke.asleep (h : Woke a g g') : g'.asleep ⊆ g.asleep := by
  refine asleep_subset (by rw [h.same]) ?_
  rw [h.sleepers]
  exact fun t ht => List.mem_of_mem_filter ht

theorem WokeOne.asleep (h : WokeOne a g g') : g'.asleep ⊆ g.asleep := by
  refine asleep_subset (by rw [h.same]) ?_
  rw [h.sleepers]
  exact List.eraseP_subset

end Pieces

namespace Cpu

open Machine (Any)

/-! ## What a step does with the places -/

def Event.vital : Event → Option (Vital Tid)
  | .forked t => some (.birth t)
  | .exited t => some (.death t)
  | .destroyed t => some (.burial t)
  | _ => none

inductive Resettled (g : Globals) : List (Vital Tid) → Globals → Prop where
  | stay {g' : Globals} (hp : g'.placed.Perm g.placed) (hz : g'.zombies.toList = g.zombies.toList)
      (hn : g'.numthreads = g.numthreads) (hnext : g'.nextthread = g.nextthread) : Resettled g [] g'
  | fork {g' : Globals} (hp : g'.placed.Perm (g.nextthread :: g.placed)) (hz : g'.zombies.toList = g.zombies.toList)
      (hn : g'.numthreads = g.numthreads + 1) (hnext : g'.nextthread = g.nextthread + 1) :
      Resettled g [.birth g.nextthread] g'
  | exit {g' : Globals} {t : Tid} (hp : g.placed.Perm (t :: g'.placed))
      (hz : g'.zombies.toList = g.zombies.toList ++ [t]) (hn : g'.numthreads + 1 = g.numthreads)
      (hnext : g'.nextthread = g.nextthread) : Resettled g [.death t] g'
  | exorcise {g' : Globals} (hp : g'.placed.Perm g.placed) (hz : g'.zombies.toList = [])
      (hn : g'.numthreads = g.numthreads) (hnext : g'.nextthread = g.nextthread) :
      Resettled g (g.zombies.toList.map .burial) g'

section Switches

variable {g g' : Globals} {a : Addr} {cur : Tid}

theorem Slept.placed (h : Slept a cur g g') : g'.placed.Perm g.placed := by
  have hcur : g'.curthread = none := by rw [h.same]
  have hq : g'.runqueue = g.runqueue := by rw [h.same]; rfl
  rw [Globals.placed, Globals.placed, hcur, h.curthread, hq, h.sleepers, Option.toList_none, Option.toList_some,
    List.nil_append, ← List.append_assoc]
  exact List.perm_append_singleton cur _

theorem Yielded.placed (h : Yielded cur g g') : g'.placed.Perm g.placed := by
  have hcur : g'.curthread = none := by rw [h.same]
  have hs : g'.sleepers = g.sleepers := by rw [h.same]
  rw [Globals.placed, Globals.placed, hcur, h.curthread, hs, h.runqueue, Option.toList_none, List.nil_append]
  exact List.perm_append_comm.append_right _

theorem Picked.placed (h : Picked cur g g') (hcur : g.curthread = none) : g'.placed.Perm g.placed := by
  have hcur' : g'.curthread = some cur := by rw [h.same]
  have hs : g'.sleepers = g.sleepers := by rw [h.same]
  rw [Globals.placed, Globals.placed, hcur, hcur', hs, h.runqueue]
  exact .of_eq (by simp)

theorem Exited.placed (h : Exited cur g g') : g.placed.Perm (cur :: g'.placed) := by
  have hcur : g'.curthread = none := by rw [h.same]
  have hs : g'.sleepers = g.sleepers := by rw [h.same]
  have hq : g'.runqueue = g.runqueue := by rw [h.same]
  rw [Globals.placed, Globals.placed, hcur, h.curthread, hs, hq]
  exact .of_eq (by simp)

end Switches

theorem SameLists.placed {g g' : Globals} (h : SameLists g g') : g'.placed = g.placed := by
  rw [Globals.placed, Globals.placed, h.curthread, h.runqueue, h.sleepers]

theorem filterMap_vital (es : List Event) : (es.filter Event.listed).filterMap Event.vital = es.filterMap Event.vital := by
  rw [List.filterMap_filter]
  congr 1
  funext e
  cases e <;> rfl

theorem Relisted.resettled {k : Kernel} {g' : Globals} {es : List Event} (h : Relisted k g' es) :
    Resettled k.g (es.filterMap Event.vital) g' := by
  cases h with
  | same h => exact .stay (.of_eq h.placed) (by rw [h.zombies]) h.numthreads h.nextthread
  | awake hcur h => subst h; exact .stay .rfl rfl rfl rfl
  | woke h h₀ =>
    refine .stay (h₀.placed ▸ h.placed) ?_ ?_ ?_ <;> rw [h.same]
    · exact congrArg _ h₀.zombies
    · exact h₀.numthreads
    · exact h₀.nextthread
  | wokeOne h => exact .stay h.placed (by rw [h.same]) (by rw [h.same]) (by rw [h.same])
  | exorcised h hz hmax =>
    have hes : (k.g.zombies.toList.map Event.destroyed).filterMap Event.vital = k.g.zombies.toList.map .burial := by
      rw [List.filterMap_map]
      exact congrFun List.filterMap_eq_map _
    rw [hes]
    refine .exorcise (.of_eq ?_) hz (by rw [h]) (by rw [h])
    rw [h]; rfl
  | grown hnext h => exact .stay (.of_eq h.placed) h.zombies (by rw [h.same]) (by rw [h.same])
  | linked hnext h => exact .fork h.placed h.zombies (by rw [h.same]) (by rw [h.same])
  | slept h => exact .stay h.placed (by rw [h.same]; rfl) (by rw [h.same]; rfl) (by rw [h.same]; rfl)
  | yielded h => exact .stay h.placed (by rw [h.same]) (by rw [h.same]) (by rw [h.same])
  | exited hnext h =>
    have hpos := h.pos
    refine .exit h.placed h.zombies ?_ (by rw [h.same])
    rw [h.same]
    show k.g.numthreads - 1 + 1 = k.g.numthreads
    omega
  | @picked nu g₁ b hcur h hg =>
    subst hg
    exact .stay (h.placed hcur) (by show g₁.zombies.toList = _; rw [h.same])
      (by show g₁.numthreads = _; rw [h.same]) (by show g₁.nextthread = _; rw [h.same])

theorem moves_resettled {k k' : Kernel} {ch : Choice} {es : List Event} (hsp : SplInv k) (hsw : SwInv k)
    (hm : Moves k ch k' es) : Resettled k.g (es.filterMap Event.vital) k'.g := by
  rw [← filterMap_vital]
  exact (moves_relisted hsp hsw hm).resettled

/-! ## The census of the threads -/

def census (g : Globals) : Census Tid := ⟨g.placed, g.zombies.toList⟩

theorem Resettled.census {g g' : Globals} {vs : List (Vital Tid)} (h : Resettled g vs g') :
    Census.Step (census g) vs (census g') := by
  unfold Cpu.census
  cases h with
  | stay hp hz =>
    rw [Multiset.coe_eq_coe.mpr hp, hz]
    exact .stay _
  | fork hp hz =>
    rw [Multiset.coe_eq_coe.mpr hp, hz, ← Multiset.cons_coe]
    exact .birth _ _ _
  | @exit _ t hp hz =>
    rw [Multiset.coe_eq_coe.mpr hp, hz, ← Multiset.cons_coe, Multiset.coe_eq_coe.mpr (List.perm_append_singleton t _),
      ← Multiset.cons_coe]
    exact .death _ _ _
  | exorcise hp hz =>
    rw [Multiset.coe_eq_coe.mpr hp, hz]
    exact .burial _ _

structure PlaceInv (k : Kernel) (tr : List Event) : Prop where
  accounts : Census.Accounts {0} (census k.g) (tr.filterMap Event.vital)
  num : k.g.numthreads = k.g.placed.length
  next : (0 : Nat) < k.g.nextthread
  births : ∀ t : Nat, (tr.filterMap Event.vital).count (.birth t) = if 0 < t ∧ t < k.g.nextthread then 1 else 0

theorem boot_placed (c : Config) : (boot c).g.placed = [0] := by
  simp [boot, Globals.placed]

theorem boot_placeInv (c : Config) : PlaceInv (boot c) [] where
  accounts := by
    rw [census, boot_placed]
    exact .init {0}
  num := by rw [boot_placed]; rfl
  next := Nat.one_pos
  births t := by
    have hnot : ¬ (0 < t ∧ t < 1) := by omega
    exact (if_neg hnot).symm

theorem PlaceInv.step {k k' : Kernel} {tr es : List Event} (h : PlaceInv k tr)
    (hs : Resettled k.g (es.filterMap Event.vital) k'.g) : PlaceInv k' (es ++ tr) := by
  have hb := h.births
  refine ⟨?_, ?_, ?_, ?_⟩
  · rw [List.filterMap_append]
    exact h.accounts.step hs.census
  · have hnum := h.num
    generalize es.filterMap Event.vital = vs at hs
    cases hs with
    | stay hp _ hn => rw [hn, hp.length_eq, hnum]
    | fork hp _ hn => rw [hn, hp.length_eq, List.length_cons, hnum]
    | exit hp _ hn =>
      rw [hp.length_eq, List.length_cons] at hnum
      omega
    | exorcise hp _ hn => rw [hn, hp.length_eq, hnum]
  · have hnext := h.next
    generalize es.filterMap Event.vital = vs at hs
    cases hs with
    | fork _ _ _ hn => rw [hn]; exact Nat.succ_pos _
    | stay _ _ _ hn | exit _ _ _ hn | exorcise _ _ _ hn => rw [hn]; exact hnext
  · intro t
    rw [List.filterMap_append, List.count_append, hb t]
    have hnext := h.next
    generalize es.filterMap Event.vital = vs at hs
    cases hs with
    | stay _ _ _ hn => rw [hn]; simp
    | fork _ _ _ hn =>
      rw [hn]
      by_cases ht : t = k.g.nextthread
      · subst ht
        simp [hnext]
      · rw [List.count_cons_of_ne (by simpa using Ne.symm ht), List.count_nil, Nat.zero_add]
        congr 1
        apply propext
        omega
    | exit _ _ _ hn => rw [hn]; simp
    | exorcise _ _ _ hn =>
      rw [hn, List.count_eq_zero.mpr (by simp), Nat.zero_add]

theorem reach_placeInv {c : Config} {ok : Kernel → Choice → Prop} {k : Kernel} {tr : List Event}
    (h : Reach c ok k tr) : PlaceInv k tr := by
  refine Machine.Reach.invariant (I := PlaceInv) ?_ ?_ h
  · rintro _ ⟨-, rfl⟩
    exact boot_placeInv c
  · intro _ _ _ _ _ hr hk _ hs
    exact hk.step (moves_resettled (reach_splInv hr) (reach_swInv hr) (step_moves hs))

section Census

variable {k : Kernel} {tr : List Event} {t : Tid}

theorem PlaceInv.once (h : PlaceInv k tr) (t : Nat) : Census.births {0} (tr.filterMap Event.vital) t ≤ 1 := by
  rw [Census.births, h.births]
  by_cases ht : t = 0
  · subst ht
    simp
  · rw [Multiset.count_singleton, if_neg ht]
    split <;> omega

theorem PlaceInv.nodup (h : PlaceInv k tr) : k.g.placed.Nodup := by
  rw [List.nodup_iff_count_le_one]
  intro t
  have := h.accounts.count_alive (h.once t)
  rw [Cpu.census, Multiset.coe_count] at this
  rw [this]
  split <;> omega

theorem PlaceInv.lt_next (h : PlaceInv k tr) {t : Nat} (ht : t ∈ k.g.placed) : t < k.g.nextthread := by
  have hnext := h.next
  have halive := h.accounts.alive t
  have hpos : 0 < k.g.placed.count t := List.count_pos_iff.mpr ht
  rw [Census.births, h.births, Cpu.census, Multiset.coe_count, Multiset.count_singleton] at halive
  by_contra hlt
  have hne : t ≠ 0 := by omega
  rw [if_neg hne, if_neg (by omega)] at halive
  omega

theorem PlaceInv.cur_not_mem (h : PlaceInv k tr) (ht : k.g.curthread = some t) :
    t ∉ k.g.runqueue.toList ∧ t ∉ k.g.sleepers.toList := by
  have hn := h.nodup
  rw [Globals.placed, ht, Option.toList_some, List.append_assoc, List.singleton_append, List.nodup_cons,
    List.mem_append, not_or] at hn
  exact hn.1

end Census

/-! ## The sleepers and what they sleep on -/

def lastSleep : List Event → Tid → Option Addr
  | [], _ => none
  | .sleep u a :: tr, t => if u = t then some a else lastSleep tr t
  | _ :: tr, t => lastSleep tr t

theorem lastSleep_filter (es tr : List Event) (t : Tid) :
    lastSleep (es ++ tr) t = lastSleep (es.filter Event.listed ++ tr) t := by
  induction es with
  | nil => rfl
  | cons e es ih => cases e <;> simp [lastSleep, Event.listed, List.filter_cons, ih]

theorem lastSleep_append {es tr : List Event} {t : Tid} (h : ∀ a, .sleep t a ∉ es) :
    lastSleep (es ++ tr) t = lastSleep tr t := by
  induction es with
  | nil => rfl
  | cons e es ih =>
    have ih := ih fun a ha => h a (List.mem_cons_of_mem _ ha)
    cases e with
    | sleep u a =>
      have hne : u ≠ t := by
        rintro rfl
        exact h a List.mem_cons_self
      simpa [lastSleep, hne] using ih
    | _ => simpa [lastSleep] using ih

theorem lastSleep_cons (tr : List Event) (t : Tid) (a : Addr) : lastSleep (.sleep t a :: tr) t = some a := by
  simp [lastSleep]

section Asleep

variable {k k' : Kernel} {ch : Choice} {es tr : List Event}

theorem Slept.asleep {g g' : Globals} {a : Addr} {cur : Tid} (h : Slept a cur g g')
    (hcur : cur ∉ g.sleepers.toList) : g'.asleep = g.asleep ++ [(cur, some a)] := by
  have hthread : g'.thread = (set_sleepaddr cur (some a) g).thread := by rw [h.same]
  rw [Globals.asleep, Globals.asleep, h.sleepers, List.map_append, List.map_singleton, hthread]
  congr 1
  · refine List.map_congr_left fun t ht => ?_
    have hne : t ≠ cur := by
      rintro rfl
      exact hcur ht
    rw [set_sleepaddr_of_ne hne]
  · rw [set_sleepaddr_self]

theorem Yielded.asleep {g g' : Globals} {cur : Tid} (h : Yielded cur g g') : g'.asleep = g.asleep :=
  asleep_congr (by rw [h.same]) fun t _ => by rw [h.same]

theorem Exited.asleep {g g' : Globals} {cur : Tid} (h : Exited cur g g') : g'.asleep = g.asleep :=
  asleep_congr (by rw [h.same]) fun t _ => by rw [h.same]

theorem Picked.asleep {g g' : Globals} {nu : Tid} (h : Picked nu g g') : g'.asleep = g.asleep :=
  asleep_congr (by rw [h.same]) fun t _ => by rw [h.same]

theorem moves_asleep (hp : PlaceInv k tr) (hsp : SplInv k) (hsw : SwInv k) (hm : Moves k ch k' es) :
    k'.g.asleep ⊆ k.g.asleep ∧ (∀ t a, .sleep t a ∉ es) ∨
      ∃ a, k.g.curthread = some k.on ∧ k'.g.asleep = k.g.asleep ++ [(k.on, some a)] ∧
        es.filter Event.listed = [.sleep k.on a] := by
  have hnext : k.g.nextthread ∉ k.g.sleepers.toList := fun hmem =>
    Nat.lt_irrefl _ (hp.lt_next (List.mem_append_right _ hmem))
  have hquiet : (∀ t a, .sleep t a ∉ es.filter Event.listed) → ∀ t a, .sleep t a ∉ es := by
    intro h t a hmem
    exact h t a ((mem_listed rfl).mpr hmem)
  have hsame : ∀ {es' : List Event}, k'.g.asleep = k.g.asleep → es.filter Event.listed = es' →
      (∀ t a, .sleep t a ∉ es') → k'.g.asleep ⊆ k.g.asleep ∧ ∀ t a, .sleep t a ∉ es := by
    intro es' h hes hno
    exact ⟨h ▸ List.Subset.refl _, hquiet (hes ▸ hno)⟩
  have hrel := moves_relisted hsp hsw hm
  generalize hes : es.filter Event.listed = es' at hrel
  cases hrel with
  | same h =>
    exact .inl (hsame (asleep_congr (by rw [h.sleepers]) fun t _ => h.sleepaddr t) hes (by simp))
  | awake hcur h =>
    refine .inl (hsame ?_ hes (by simp))
    rw [h]
    refine asleep_congr rfl fun t ht => ?_
    rw [set_sleepaddr_of_ne]
    rintro rfl
    exact (hp.cur_not_mem hcur).2 ht
  | woke h h₀ =>
    refine .inl ⟨?_, hquiet (by simp [hes])⟩
    rw [← asleep_congr (by rw [h₀.sleepers]) fun t _ => h₀.sleepaddr t]
    exact h.asleep
  | wokeOne h => exact .inl ⟨h.asleep, hquiet (by simp [hes])⟩
  | exorcised h => exact .inl (hsame (asleep_congr (by rw [h]) fun t _ => by rw [h]) hes (by simp))
  | grown hnext h => exact .inl (hsame h.asleep hes (by simp))
  | linked hn h => exact .inl (hsame (h.asleep hnext) hes (by simp))
  | slept h => exact .inr ⟨_, h.curthread, h.asleep (hp.cur_not_mem h.curthread).2, rfl⟩
  | yielded h => exact .inl (hsame h.asleep hes (by simp))
  | exited hnext h => exact .inl (hsame h.asleep hes (by simp))
  | picked hcur h hg => exact .inl (hsame (hg ▸ h.asleep) hes (by simp))

def SleepInv (k : Kernel) (tr : List Event) : Prop :=
  ∀ p ∈ k.g.asleep, ∃ a, p.2 = some a ∧ lastSleep tr p.1 = some a

theorem SleepInv.step (h : SleepInv k tr) (hp : PlaceInv k tr) (hsp : SplInv k) (hsw : SwInv k)
    (hm : Moves k ch k' es) : SleepInv k' (es ++ tr) := by
  intro p hmem
  rcases moves_asleep hp hsp hsw hm with ⟨hsub, hes⟩ | ⟨a, hcur, hsub, hes⟩
  · rw [lastSleep_append fun a => hes p.1 a]
    exact h p (hsub hmem)
  · rw [hsub] at hmem
    rcases List.mem_append.mp hmem with hmem | hmem
    · have hne : p.1 ≠ k.on := by
        rintro heq
        obtain ⟨t, ht, rfl⟩ := List.mem_map.mp hmem
        exact (hp.cur_not_mem hcur).2 (heq ▸ ht)
      rw [lastSleep_filter, hes, lastSleep_append (by simp [hne])]
      exact h p hmem
    · rw [List.mem_singleton] at hmem
      subst hmem
      rw [lastSleep_filter, hes]
      exact ⟨a, rfl, lastSleep_cons tr k.on a⟩

theorem reach_sleepInv {c : Config} {ok : Kernel → Choice → Prop} (h : Reach c ok k tr) : SleepInv k tr := by
  refine Machine.Reach.invariant (I := SleepInv) ?_ ?_ h
  · rintro _ ⟨-, rfl⟩
    intro p hp
    cases hp
  · intro _ _ _ _ _ hr hk _ hs
    exact hk.step (reach_placeInv hr) (reach_splInv hr) (reach_swInv hr) (step_moves hs)

end Asleep

end Cpu

end Os161
