import Mathlib.Data.Fintype.Basic
import Os161.Lib.Lts

/-! # Threads around one mutex with condition variables

A thread runs one critical section after the other. A section ends in a wait on a condition variable,
which it starts again from when it has been woken, or it wakes others and unlocks the mutex. Waits can
end without a cause.
-/

namespace Monitor

/-- Where a thread is. One that is `woken` has to lock the mutex again, like one that is `out`. -/
inductive Place (κ : Type) where
  | out | critical | waits (c : κ) | woken | done
  deriving DecidableEq, Repr

inductive Notify (κ : Type) where
  | nobody | signal (c : κ) | broadcast (c : κ)
  deriving DecidableEq, Repr

inductive Outcome (κ σ ε : Type) where
  | waits (c : κ) (d : σ)
  | leaves (n : Notify κ) (done : Bool) (d : σ) (es : List ε)

structure State (ι κ σ : Type) where
  mutex : Option ι
  place : ι → Place κ
  data : σ

inductive Choice (ι : Type) where
  | lock (t : ι)
  /-- The critical section of `t`, with the thread that its signal wakes. -/
  | run (t : ι) (wake : Option ι)
  | spurious (t : ι)
  deriving DecidableEq, Repr

section Machine

variable {ι κ σ ε : Type} [DecidableEq ι] [Fintype ι] [DecidableEq κ]

def notified (place : ι → Place κ) (wake : Option ι) : Notify κ → Option (ι → Place κ)
  | .nobody => if wake = none then some place else none
  | .broadcast c => if wake = none then some fun u => if place u = .waits c then .woken else place u else none
  | .signal c =>
    match wake with
    | some u => if place u = .waits c then some (Function.update place u .woken) else none
    | none => if ∀ u, place u ≠ .waits c then some place else none

def step (body : ι → σ → Outcome κ σ ε) (s : State ι κ σ) : Choice ι → Except Unit (State ι κ σ × List ε)
  | .lock t =>
    if s.mutex = none ∧ (s.place t = .out ∨ s.place t = .woken) then
      .ok ({ s with mutex := some t, place := Function.update s.place t .critical }, [])
    else .error ()
  | .run t wake =>
    if s.mutex = some t then
      match body t s.data with
      | .waits c d => .ok (⟨none, Function.update s.place t (.waits c), d⟩, [])
      | .leaves n done d es =>
        match notified s.place wake n with
        | some place => .ok (⟨none, Function.update place t (if done then .done else .out), d⟩, es)
        | none => .error ()
    else .error ()
  | .spurious t =>
    match s.place t with
    | .waits _ => .ok ({ s with place := Function.update s.place t .woken }, [])
    | _ => .error ()

def machine (body : ι → σ → Outcome κ σ ε) (d : σ) : Machine (State ι κ σ) (Choice ι) ε Unit where
  init s := s = ⟨none, fun _ => .out, d⟩
  step := step body

end Machine

/-! ## Steps -/

section Steps

variable {ι κ σ ε : Type} [DecidableEq ι] [Fintype ι] [DecidableEq κ] {body : ι → σ → Outcome κ σ ε}
  {s s' : State ι κ σ} {d : σ} {es tr : List ε} {c : κ}

structure Notified (n : Notify κ) (place place' : ι → Place κ) : Prop where
  only : ∀ u, place' u = place u ∨ (∃ c, place u = .waits c) ∧ place' u = .woken
  signal : ∀ c, n = .signal c → (∃ u, place u = .waits c) → ∃ u, place u = .waits c ∧ place' u = .woken
  broadcast : ∀ c, n = .broadcast c → ∀ u, place' u ≠ .waits c

theorem notified_spec {place place' : ι → Place κ} {wake : Option ι} {n : Notify κ}
    (h : notified place wake n = some place') : Notified n place place' := by
  cases n with
  | nobody =>
    simp only [notified, Option.ite_none_right_eq_some, Option.some.injEq] at h
    obtain ⟨-, rfl⟩ := h
    exact ⟨fun u => .inl rfl, by simp, by simp⟩
  | broadcast c =>
    simp only [notified, Option.ite_none_right_eq_some, Option.some.injEq] at h
    obtain ⟨-, rfl⟩ := h
    refine ⟨fun u => ?_, by simp, fun c' hc u => ?_⟩
    · by_cases hu : place u = .waits c
      · exact .inr ⟨⟨c, hu⟩, by simp [hu]⟩
      · exact .inl (by simp [hu])
    · cases hc
      by_cases hu : place u = .waits c <;> simp [hu]
  | signal c =>
    cases wake with
    | none =>
      simp only [notified, Option.ite_none_right_eq_some, Option.some.injEq] at h
      obtain ⟨hno, rfl⟩ := h
      refine ⟨fun u => .inl rfl, ?_, by simp⟩
      rintro c' hc ⟨u, hu⟩
      cases hc
      exact absurd hu (hno u)
    | some v =>
      simp only [notified, Option.ite_none_right_eq_some, Option.some.injEq] at h
      obtain ⟨hv, rfl⟩ := h
      refine ⟨fun u => ?_, ?_, by simp⟩
      · by_cases hu : u = v
        · subst hu
          exact .inr ⟨⟨c, hv⟩, Function.update_self ..⟩
        · exact .inl (Function.update_of_ne hu ..)
      · rintro c' hc -
        cases hc
        exact ⟨v, hv, Function.update_self ..⟩

inductive Moves (body : ι → σ → Outcome κ σ ε) (s : State ι κ σ) : State ι κ σ → List ε → Prop where
  | lock {t : ι} (hm : s.mutex = none) (hp : s.place t = .out ∨ s.place t = .woken) :
      Moves body s { s with mutex := some t, place := Function.update s.place t .critical } []
  | wait {t : ι} {c : κ} {d : σ} (hm : s.mutex = some t) (hb : body t s.data = .waits c d) :
      Moves body s ⟨none, Function.update s.place t (.waits c), d⟩ []
  | leave {t : ι} {n : Notify κ} {done : Bool} {d : σ} {es : List ε} {place : ι → Place κ}
      (hm : s.mutex = some t) (hb : body t s.data = .leaves n done d es) (hn : Notified n s.place place) :
      Moves body s ⟨none, Function.update place t (if done then .done else .out), d⟩ es
  | spurious {t : ι} {c : κ} (hp : s.place t = .waits c) :
      Moves body s { s with place := Function.update s.place t .woken } []

theorem step_moves {ch : Choice ι} (h : step body s ch = .ok (s', es)) : Moves body s s' es := by
  cases ch with
  | lock t =>
    simp only [step] at h
    split at h
    · rename_i hg
      cases h
      exact .lock hg.1 hg.2
    · cases h
  | run t wake =>
    simp only [step] at h
    split at h
    · rename_i hm
      split at h
      · rename_i hb
        cases h
        exact .wait hm hb
      · rename_i hb
        split at h
        · rename_i hn
          cases h
          exact .leave hm hb (notified_spec hn)
        · cases h
    · cases h
  | spurious t =>
    simp only [step] at h
    split at h
    · rename_i hp
      cases h
      exact .spurious hp
    · cases h

/-! ## Rules -/

theorem data_invariant {I : σ → List ε → Prop} (h0 : I d [])
    (hwait : ∀ t s c s' tr, I s tr → body t s = .waits c s' → I s' tr)
    (hleave : ∀ t s n done s' es tr, I s tr → body t s = .leaves n done s' es → I s' (es ++ tr))
    (h : (machine body d).Reach Machine.Any s tr) : I s.data tr := by
  refine Machine.Reach.invariant (I := fun s tr => I s.data tr) ?_ ?_ h
  · rintro _ rfl
    exact h0
  · intro s s' ch tr es _ hs _ hstep
    cases step_moves hstep with
    | lock hm hp => exact hs
    | wait hm hb => exact hwait _ _ _ _ _ hs hb
    | leave hm hb hn => exact hleave _ _ _ _ _ _ _ hs hb
    | spurious hp => exact hs

theorem critical_iff (h : (machine body d).Reach Machine.Any s tr) (t : ι) :
    s.mutex = some t ↔ s.place t = .critical := by
  refine Machine.Reach.invariant (I := fun s _ => ∀ t, s.mutex = some t ↔ s.place t = .critical) ?_ ?_ h t
  · rintro _ rfl t
    simp
  · intro s s' ch tr es _ hs _ hstep t
    cases step_moves hstep with
    | @lock u hm hp =>
      by_cases hu : t = u
      · subst hu; simp
      · have := (hs t).not.mp (by simp [hm])
        simp [hu, Ne.symm hu, this]
    | @wait u c d hm hb =>
      by_cases hu : t = u
      · subst hu; simp
      · have := (hs t).not.mp (by simp [hm, Ne.symm hu])
        simp [hu, this]
    | @leave u n done d es place hm hb hn =>
      by_cases hu : t = u
      · subst hu; cases done <;> simp
      · have := (hs t).not.mp (by simp [hm, Ne.symm hu])
        rcases hn.only t with hp | ⟨-, hp⟩ <;> simp [hu, hp, this]
    | @spurious u c hp =>
      by_cases hu : t = u
      · subst hu
        simp [hs t, hp]
      · simp [hu, hs t]

def Outcome.data : Outcome κ σ ε → σ
  | .waits _ d | .leaves _ _ d _ => d

def Place.Active (p : Place κ) : Prop := p = .out ∨ p = .critical ∨ p = .woken

variable {I : σ → Prop} (hI : ∀ s tr, (machine body d).Reach Machine.Any s tr → I s.data)

include hI

/-- What holds of each thread at its place: the thread makes its own moves, is woken, or a section of another thread
goes by. -/
theorem place_rule {K : ι → Place κ → σ → Prop} (h0 : ∀ t, K t .out d)
    (hlock : ∀ t p s, p = .out ∨ p = .woken → K t p s → K t .critical s)
    (hwoken : ∀ t c s, K t (.waits c) s → K t .woken s)
    (hwait : ∀ t s c s', I s → K t .critical s → body t s = .waits c s' → K t (.waits c) s')
    (hleave : ∀ t s n done s' es, I s → K t .critical s → body t s = .leaves n done s' es →
      K t (if done then .done else .out) s')
    (hwaits : ∀ t u p s c s', I s → K t p s → body u s = .waits c s' → K t p s')
    (hleaves : ∀ t u p s n done s' es, u ≠ t → I s → K t p s → body u s = .leaves n done s' es →
      (∀ c, n = .broadcast c → p ≠ .waits c) → K t p s')
    (h : (machine body d).Reach Machine.Any s tr) (t : ι) : K t (s.place t) s.data := by
  refine Machine.Reach.invariant (I := fun s _ => ∀ t, K t (s.place t) s.data) ?_ ?_ h t
  · rintro _ rfl t
    exact h0 t
  · intro s s' ch tr es hr hs _ hstep t
    have hdata := hI s tr hr
    have hK := hs t
    cases step_moves hstep with
    | @lock u hm hp =>
      by_cases hu : t = u
      · subst hu
        simp only [Function.update_self]
        exact hlock t _ _ hp hK
      · simpa only [Function.update_of_ne hu] using hK
    | @wait u c d' hm hb =>
      by_cases hu : t = u
      · subst hu
        simp only [Function.update_self]
        rw [(critical_iff hr t).mp hm] at hK
        exact hwait t _ _ _ hdata hK hb
      · simp only [Function.update_of_ne hu]
        exact hwaits t u _ _ _ _ hdata hK hb
    | @leave u n done d' es place hm hb hn =>
      by_cases hu : t = u
      · subst hu
        simp only [Function.update_self]
        rw [(critical_iff hr t).mp hm] at hK
        exact hleave t _ _ _ _ _ hdata hK hb
      · simp only [Function.update_of_ne hu]
        refine hleaves t u _ _ _ _ _ _ (Ne.symm hu) hdata ?_ hb fun c hc => hn.broadcast c hc t
        rcases hn.only t with hp | ⟨⟨c, hc⟩, hp⟩
        · rwa [hp]
        · rw [hc] at hK
          rw [hp]
          exact hwoken t c _ hK
    | @spurious u c hp =>
      by_cases hu : t = u
      · subst hu
        simp only [Function.update_self]
        rw [hp] at hK
        exact hwoken t c _ hK
      · simpa only [Function.update_of_ne hu] using hK

theorem done_rule {D : ι → σ → Prop} (hdone : ∀ t s n s' es, I s → body t s = .leaves n true s' es → D t s')
    (hkeep : ∀ t u s, I s → D t s → D t (body u s).data) (h : (machine body d).Reach Machine.Any s tr) {t : ι}
    (ht : s.place t = .done) : D t s.data := by
  refine place_rule hI (K := fun t p s => p = .done → D t s) ?_ ?_ ?_ ?_ ?_ ?_ ?_ h t ht
  · simp
  · simp
  · simp
  · simp
  · intro t s n done s' es hs _ hb hp
    cases done with
    | true => exact hdone t _ _ _ _ hs hb
    | false => cases hp
  · intro t u p s c s' hs hK hb hp
    have := hkeep t u s hs (hK hp)
    rwa [hb] at this
  · intro t u p s n done s' es _ hs hK hb _ hp
    have := hkeep t u s hs (hK hp)
    rwa [hb] at this

theorem until_rule {E : ι → σ → Prop} (h0 : ∀ t, E t d)
    (hwait : ∀ t u s c s', I s → E t s → body u s = .waits c s' → E t s')
    (hleave : ∀ t u s n done s' es, I s → E t s → body u s = .leaves n done s' es →
      E t s' ∨ u = t ∧ done = true)
    (h : (machine body d).Reach Machine.Any s tr) {t : ι} (ht : s.place t ≠ .done) : E t s.data := by
  refine place_rule hI (K := fun t p s => p ≠ .done → E t s) (fun t _ => h0 t) ?_ ?_ ?_ ?_ ?_ ?_ h t ht
  · rintro t p s (rfl | rfl) hK _
    · exact hK (by simp)
    · exact hK (by simp)
  · intro t c s hK _
    exact hK (by simp)
  · intro t s c s' hs hK hb _
    exact hwait t t _ _ _ hs (hK (by simp)) hb
  · intro t s n done s' es hs hK hb hp
    rcases hleave t t _ _ _ _ _ hs (hK (by simp)) hb with hE | ⟨-, rfl⟩
    · exact hE
    · exact absurd rfl hp
  · intro t u p s c s' hs hK hb hp
    exact hwait t u _ _ _ hs (hK hp) hb
  · intro t u p s n done s' es hu hs hK hb _ hp
    exact (hleave t u _ _ _ _ _ hs (hK hp) hb).resolve_right fun hut => hu hut.1

/-- What a thread finds when it starts to wait on `c` holds until it is woken, if whoever breaks it
wakes everybody. -/
theorem wait_rule {G : ι → σ → Prop} (hwait : ∀ t s s', I s → body t s = .waits c s' → G t s')
    (hother : ∀ t u s c' s', I s → G t s → body u s = .waits c' s' → G t s')
    (hleave : ∀ t u s n done s' es, I s → G t s → body u s = .leaves n done s' es → G t s' ∨ n = .broadcast c)
    (h : (machine body d).Reach Machine.Any s tr) {t : ι} (ht : s.place t = .waits c) : G t s.data := by
  refine place_rule hI (K := fun t p s => p = .waits c → G t s) ?_ ?_ ?_ ?_ ?_ ?_ ?_ h t ht
  · simp
  · simp
  · simp
  · intro t s c' s' hs _ hb hp
    cases hp
    exact hwait t _ _ hs hb
  · intro t s n done s' es _ _ _ hp
    cases done <;> cases hp
  · intro t u p s c' s' hs hK hb hp
    exact hother t u _ _ _ hs (hK hp) hb
  · intro t u p s n done s' es _ hs hK hb hbr hp
    exact (hleave t u _ _ _ _ _ hs (hK hp) hb).resolve_right fun hn => hbr c hn hp

theorem waits_rule {A : ι → Prop} (hwho : ∀ t s s', I s → body t s = .waits c s' → A t)
    (h : (machine body d).Reach Machine.Any s tr) {t : ι} (ht : s.place t = .waits c) : A t :=
  wait_rule hI (G := fun t _ => A t) hwho (fun _ _ _ _ _ _ hG _ => hG) (fun _ _ _ _ _ _ _ _ hG _ => .inl hG) h ht

/-- The threads `A` wait on `c`, and only they do. When none of them is left to go on, what they wait
for is still to come: whoever breaks `G` wakes one of them at least, and one that returns wakes them
all. -/
theorem signal_rule {A : ι → Prop} {G : σ → Prop}
    (hwho : ∀ t s c' s', I s → body t s = .waits c' s' → (c' = c ↔ A t))
    (hwait : ∀ t s c' s', A t → I s → body t s = .waits c' s' → G s')
    (hother : ∀ t s c' s', ¬ A t → I s → G s → body t s = .waits c' s' → G s')
    (hdone : ∀ t s n s' es, A t → I s → body t s = .leaves n true s' es → n = .broadcast c)
    (hleave : ∀ t s n done s' es, ¬ A t → I s → G s → body t s = .leaves n done s' es →
      G s' ∨ n = .signal c ∨ n = .broadcast c)
    (h : (machine body d).Reach Machine.Any s tr) {t : ι} (ht : s.place t = .waits c) :
    (∃ t, A t ∧ (s.place t).Active) ∨ G s.data := by
  refine Machine.Reach.invariant
    (I := fun s _ => (∃ t, s.place t = .waits c) → (∃ t, A t ∧ (s.place t).Active) ∨ G s.data) ?_ ?_ h ⟨t, ht⟩
  · rintro _ rfl ⟨t, ht⟩
    cases ht
  · intro s s' ch tr es hr hs _ hstep hw
    have hdata := hI s tr hr
    obtain ⟨t, ht⟩ := hw
    cases step_moves hstep with
    | @lock u hm hp =>
      by_cases hu : t = u
      · subst hu; simp at ht
      simp only [Function.update_of_ne hu] at ht
      refine (hs ⟨t, ht⟩).imp ?_ id
      rintro ⟨v, hv, hact⟩
      refine ⟨v, hv, ?_⟩
      by_cases hvu : v = u
      · subst hvu; simp [Place.Active]
      · simpa only [Function.update_of_ne hvu] using hact
    | @wait u c' d' hm hb =>
      by_cases hAu : A u
      · exact .inr (hwait u _ _ _ hAu hdata hb)
      have hne : ∀ v, A v → v ≠ u := by
        rintro v hv rfl
        exact hAu hv
      have hu : t ≠ u := by
        rintro rfl
        simp only [Function.update_self, Place.waits.injEq] at ht
        exact hAu ((hwho _ _ _ _ hdata hb).mp ht)
      simp only [Function.update_of_ne hu] at ht
      rcases hs ⟨t, ht⟩ with ⟨v, hv, hact⟩ | hG
      · exact .inl ⟨v, hv, by simpa only [Function.update_of_ne (hne v hv)] using hact⟩
      · exact .inr (hother u _ _ _ hAu hdata hG hb)
    | @leave u n done d' es place hm hb hn =>
      have hu : t ≠ u := by
        rintro rfl
        cases done <;> simp at ht
      simp only [Function.update_of_ne hu] at ht
      have hold : s.place t = .waits c := by
        rcases hn.only t with hp | ⟨-, hp⟩
        · rw [← hp, ht]
        · rw [hp] at ht; cases ht
      by_cases hAu : A u
      · cases done with
        | true => exact absurd ht (hn.broadcast c (hdone u _ _ _ _ hAu hdata hb) t)
        | false => exact .inl ⟨u, hAu, by simp [Place.Active]⟩
      have hne : ∀ v, A v → v ≠ u := by
        rintro v hv rfl
        exact hAu hv
      rcases hs ⟨t, hold⟩ with ⟨v, hv, hact⟩ | hG
      · refine .inl ⟨v, hv, ?_⟩
        simp only [Function.update_of_ne (hne v hv)]
        rcases hn.only v with hp | ⟨-, hp⟩
        · rwa [hp]
        · rw [hp]; exact .inr (.inr rfl)
      · rcases hleave u _ _ _ _ _ hAu hdata hG hb with hG | hsig | hbr
        · exact .inr hG
        · obtain ⟨v, hv, hp⟩ := hn.signal c hsig ⟨t, hold⟩
          have hAv : A v := waits_rule hI (fun t s s' hs hb => (hwho t s c s' hs hb).mp rfl) hr hv
          refine .inl ⟨v, hAv, ?_⟩
          simp only [Function.update_of_ne (hne v hAv), hp]
          exact .inr (.inr rfl)
        · exact absurd ht (hn.broadcast c hbr t)
    | @spurious u c' hp =>
      by_cases hu : t = u
      · subst hu; simp at ht
      simp only [Function.update_of_ne hu] at ht
      refine (hs ⟨t, ht⟩).imp ?_ id
      rintro ⟨v, hv, hact⟩
      refine ⟨v, hv, ?_⟩
      by_cases hvu : v = u
      · subst hvu; simp [Place.Active]
      · simpa only [Function.update_of_ne hvu] using hact

end Steps

end Monitor
