import Os161.Vfs.Reclaim

/-! # Threads that look up a vnode while SFS reclaims it

When no vnode is used after its `kfree`.
-/

namespace Os161.Reclaim

open Machine Tally

section Safety

variable {ι : Type} {w w' : World ι} {tr es : List (Event ι)} {t u : ι} {v : Nat}

def World.apart (w : World ι) : Pc → Prop
  | .reclaim v => (w.vnode v).vn_refcount = 1 → ∀ u, (w.thread u).pc ≠ .incref v
  | _ => True

/-- `sfs_loadvnode` does not find a vnode whose reclaim has passed its check, and no reclaim passes it
while a thread that has found the vnode is about to count its reference. -/
def Synchronized (w : World ι) : Choice ι → Prop
  | .load _ key => ∀ v ∈ w.search key, ∀ u, (w.thread u).pc ≠ .discard v
  | .run t _ => w.apart (w.thread t).pc
  | _ => True

structure Safe (w : World ι) : Prop where
  sole : ∀ t v, (w.thread t).pc = .discard v → (w.vnode v).vn_refcount = 1 ∧ ∀ u, (w.thread u).pc ≠ .incref v
  gone : ∀ v < w.size, (w.vnode v).freed = true →
    (∀ t, (w.thread t).owed v = 0 ∧ (w.thread t).pc ≠ .incref v) ∧ v ∉ w.table
  nodup : w.table.Nodup

namespace Safe

theorem owed_of_gone (h : Safe w) (hv : v < w.size) (hf : (w.vnode v).freed = true) (t : ι) :
    (w.thread t).held.count v = 0 ∧ (w.thread t).pc.drops v = false := by
  have hzero := ((h.gone v hv hf).1 t).1
  rw [Thread.owed, Nat.add_eq_zero_iff] at hzero
  exact ⟨hzero.1, by simpa using hzero.2⟩

theorem touch [DecidableEq ι] (h : Safe w) (dirty linked : Bool) :
    Safe { w with vnode := Function.update w.vnode v { w.vnode v with sv_dirty := dirty, linked := linked } } := by
  have hsame (u : Nat) : (Function.update w.vnode v { w.vnode v with sv_dirty := dirty, linked := linked } u).vn_refcount =
      (w.vnode u).vn_refcount ∧
      (Function.update w.vnode v { w.vnode v with sv_dirty := dirty, linked := linked } u).freed = (w.vnode u).freed := by
    by_cases hu : u = v
    · subst hu; simp
    · simp [hu]
  constructor
  · intro t u ht
    simp only [(hsame u).1]
    exact h.sole t u ht
  · intro u hu hf
    simp only [(hsame u).2] at hf
    exact h.gone u hu hf
  · exact h.nodup

theorem live [Fintype ι] (h : Safe w) (hinv : Inv .sfs w tr) (ha : (w.thread t).pc.about = some v) :
    (w.vnode v).freed = false := by
  cases hf : (w.vnode v).freed with
  | false => rfl
  | true =>
    obtain ⟨howed, hincref⟩ := (h.gone v (hinv.about_lt t v ha) hf).1 t
    cases hpc : (w.thread t).pc <;> simp_all [Pc.about, Thread.owed, Pc.drops]

theorem search_live [Fintype ι] (h : Safe w) (hinv : Inv .sfs w tr) {key : Nat} (hs : w.search key = some v) :
    (w.vnode v).freed = false := by
  cases hf : (w.vnode v).freed with
  | false => rfl
  | true => exact absurd (List.mem_of_find?_eq_some hs) (h.gone v (hinv.search_lt hs) hf).2

variable [DecidableEq ι]

theorem moves (h : Safe w) (th : Thread) (hthread : w'.thread = Function.update w.thread t th)
    (hsize : w'.size = w.size) (htable : w'.table = w.table) (hfreed : ∀ v, (w'.vnode v).freed = (w.vnode v).freed)
    (hothers : ∀ u v, u ≠ t → (w.thread u).pc = .discard v →
      (w'.vnode v).vn_refcount = (w.vnode v).vn_refcount ∧ th.pc ≠ .incref v)
    (hself : ∀ v, th.pc = .discard v → (w'.vnode v).vn_refcount = 1 ∧ ∀ u, u ≠ t → (w.thread u).pc ≠ .incref v)
    (hgone : ∀ v < w.size, (w.vnode v).freed = true → th.owed v = 0 ∧ th.pc ≠ .incref v) : Safe w' := by
  constructor
  · intro u v hu
    rw [hthread] at hu ⊢
    by_cases hut : u = t
    · subst hut
      rw [Function.update_self] at hu
      obtain ⟨hone, hnone⟩ := hself v hu
      refine ⟨hone, fun x => ?_⟩
      by_cases hx : x = u
      · subst hx
        rw [Function.update_self, hu]
        simp
      · rw [Function.update_of_ne hx]
        exact hnone x hx
    · rw [Function.update_of_ne hut] at hu
      obtain ⟨hone, hnone⟩ := h.sole u v hu
      obtain ⟨hsame, hnot⟩ := hothers u v hut hu
      refine ⟨hsame.trans hone, fun x => ?_⟩
      by_cases hx : x = t
      · subst hx
        rw [Function.update_self]
        exact hnot
      · rw [Function.update_of_ne hx]
        exact hnone x
  · intro v hv hf
    rw [hsize] at hv
    rw [hfreed] at hf
    obtain ⟨hall, htab⟩ := h.gone v hv hf
    rw [hthread, htable]
    refine ⟨fun x => ?_, htab⟩
    by_cases hx : x = t
    · subst hx
      rw [Function.update_self]
      exact hgone v hv hf
    · rw [Function.update_of_ne hx]
      exact hall x
  · rw [htable]
    exact h.nodup

theorem goto (h : Safe w) {pc : Pc} (hdrops : ∀ v, pc.drops v = true → (w.thread t).pc.drops v = true)
    (hincref : ∀ v, pc = .incref v → (∀ u, (w.thread u).pc ≠ .discard v) ∧ (w.vnode v).freed = false)
    (hdiscard : ∀ v, pc = .discard v → (w.vnode v).vn_refcount = 1 ∧ ∀ u, (w.thread u).pc ≠ .incref v) :
    Safe (w.goto t pc) := by
  refine h.moves { w.thread t with pc := pc } rfl rfl rfl (fun _ => rfl) ?_ ?_ ?_
  · intro u v _ hu
    exact ⟨rfl, fun hpc => (hincref v hpc).1 u hu⟩
  · intro v hpc
    exact ⟨(hdiscard v hpc).1, fun u _ => (hdiscard v hpc).2 u⟩
  · intro v hv hf
    obtain ⟨hheld, hnot⟩ := h.owed_of_gone hv hf t
    constructor
    · have hpc : pc.drops v = false := by
        cases hd : pc.drops v with
        | false => rfl
        | true => rw [hdrops v hd] at hnot; cases hnot
      simp [Thread.owed, hheld, hpc]
    · intro hpc
      rw [(hincref v hpc).2] at hf
      cases hf

theorem idle (h : Safe w) : Safe (w.goto t .idle) :=
  h.goto (fun v hv => by cases hv) (fun v hv => by cases hv) (fun v hv => by cases hv)

theorem drop (h : Safe w) (hpc : (w.thread t).pc = .idle) (hv : v ∈ (w.thread t).held) :
    Safe { w with thread := Function.update w.thread t ⟨(w.thread t).held.erase v, .decref v⟩ } := by
  refine h.moves ⟨(w.thread t).held.erase v, .decref v⟩ rfl rfl rfl (fun _ => rfl) ?_ ?_ ?_
  · intro u x _ _
    exact ⟨rfl, by simp⟩
  · intro x hx
    cases hx
  · intro x hx hf
    rw [Thread.owed_drop hpc hv]
    exact ⟨((h.gone x hx hf).1 t).1, by simp⟩

variable [Fintype ι]

theorem only (hinv : Inv .sfs w tr) (hone : (w.vnode v).vn_refcount = 1) (hlive : (w.vnode v).freed = false)
    (ht : (w.thread t).pc.drops v = true) :
    (∀ u, u ≠ t → (w.thread u).owed v = 0) ∧ (w.thread t).held.count v = 0 := by
  have hlt := hinv.about_lt t v (Pc.about_of_drops ht)
  have hcount := hinv.count v hlt hlive
  rw [hone] at hcount
  have howed : (w.thread t).owed v = (w.thread t).held.count v + 1 := by simp [Thread.owed, ht]
  have hnonneg (th : Thread) : (0 : Int) ≤ th.owed v := by omega
  constructor
  · intro u hu
    have hpair := add_le_total hnonneg w.thread hu
    change ((w.thread u).owed v : Int) + (w.thread t).owed v ≤ owners w v at hpair
    omega
  · have hle := le_total hnonneg w.thread t
    change ((w.thread t).owed v : Int) ≤ owners w v at hle
    omega

theorem discards (h : Safe w) (hinv : Inv .sfs w tr) (ht : (w.thread t).pc = .discard v) :
    (∀ u, u ≠ t → (w.thread u).owed v = 0) ∧ (w.thread t).held.count v = 0 :=
  only hinv (h.sole t v ht).1 (h.live hinv (by rw [ht]; rfl)) (by simp [ht, Pc.drops])

theorem create (h : Safe w) (hinv : Inv .sfs w tr) (key : Nat) : Safe (w.create t key) := by
  have hne {u : ι} {v : Nat} (hu : (w.thread u).pc.about = some v) : v ≠ w.size := by
    have := hinv.about_lt u v hu
    omega
  unfold World.create
  constructor
  all_goals simp only
  · intro u v hu
    by_cases hut : u = t
    · subst hut
      simp at hu
    · rw [Function.update_of_ne hut] at hu
      rw [Function.update_of_ne (hne (by rw [hu]; rfl))]
      refine ⟨(h.sole u v hu).1, fun x => ?_⟩
      by_cases hx : x = t
      · subst hx
        simp
      · rw [Function.update_of_ne hx]
        exact (h.sole u v hu).2 x
  · intro v hv hf
    by_cases hsize : v = w.size
    · subst hsize
      simp at hf
    · rw [Function.update_of_ne hsize] at hf
      obtain ⟨hall, htab⟩ := h.gone v (by omega) hf
      refine ⟨fun x => ?_, by simp [htab, hsize]⟩
      by_cases hx : x = t
      · subst hx
        rw [Function.update_self, Thread.owed_idle, List.count_cons_of_ne (Ne.symm hsize)]
        exact ⟨(h.owed_of_gone (by omega) hf x).1, by simp⟩
      · rw [Function.update_of_ne hx]
        exact hall x
  · refine List.nodup_append.mpr ⟨h.nodup, List.nodup_singleton _, fun v hv u hu => ?_⟩
    have := hinv.table_lt v hv
    rw [List.mem_singleton.mp hu]
    omega

theorem take (h : Safe w) (hinv : Inv .sfs w tr) (hpc : (w.thread t).pc = .incref v) :
    Safe ((w.setCount v ((w.vnode v).vn_refcount + 1)).take t v) := by
  have hlive := h.live hinv (t := t) (v := v) (by rw [hpc]; rfl)
  refine h.moves ⟨v :: (w.thread t).held, .idle⟩ rfl rfl rfl (fun u => ?_) ?_ ?_ ?_
  · by_cases hu : u = v
    · subst hu; simp [World.take, World.setCount]
    · simp [World.take, World.setCount, hu]
  · intro u x _ hu
    refine ⟨?_, by simp⟩
    have hx : x ≠ v := by
      rintro rfl
      exact (h.sole u x hu).2 t hpc
    simp [World.take, World.setCount, hx]
  · intro x hx
    cases hx
  · intro x hx hf
    have hne : x ≠ v := by
      rintro rfl
      rw [hlive] at hf
      cases hf
    rw [Thread.owed_idle, List.count_cons_of_ne (Ne.symm hne)]
    exact ⟨(h.owed_of_gone hx hf t).1, by simp⟩

theorem down (h : Safe w) (hinv : Inv .sfs w tr) (hpc : (w.thread t).pc.drops v = true) (n : Int) :
    Safe ((w.setCount v n).goto t .idle) := by
  refine h.moves { w.thread t with pc := .idle } rfl rfl rfl (fun u => ?_) ?_ ?_ ?_
  · by_cases hu : u = v
    · subst hu; simp [World.goto, World.setCount]
    · simp [World.goto, World.setCount, hu]
  · intro u x hne hu
    refine ⟨?_, by simp⟩
    have hx : x ≠ v := by
      rintro rfl
      have := (h.discards hinv hu).1 t (Ne.symm hne)
      simp [Thread.owed, hpc] at this
    simp [World.goto, World.setCount, hx]
  · intro x hx
    cases hx
  · intro x hx hf
    rw [Thread.owed_idle]
    exact ⟨(h.owed_of_gone hx hf t).1, by simp⟩

theorem kill (h : Safe w) (hinv : Inv .sfs w tr) (hpc : (w.thread t).pc.drops v = true)
    (hnone : ∀ u, (w.thread u).pc ≠ .incref v) (hk : w.kill .sfs t v = .ok (w', es)) : Safe w' := by
  have hlive := h.live hinv (Pc.about_of_drops hpc)
  unfold World.kill at hk
  split at hk
  · cases hk
  · split at hk
    · cases hk
    · rename_i hone
      obtain ⟨hothers, hheld⟩ := only hinv (by simpa using hone) hlive hpc
      cases hk
      constructor
      all_goals simp only [World.unlock]
      · intro u x hu
        by_cases hut : u = t
        · subst hut
          simp at hu
        · rw [Function.update_of_ne hut] at hu
          have hx : x ≠ v := by
            rintro rfl
            have := hothers u hut
            simp [Thread.owed, hu, Pc.drops] at this
          rw [Function.update_of_ne hx]
          refine ⟨(h.sole u x hu).1, fun y => ?_⟩
          by_cases hy : y = t
          · subst hy
            simp
          · rw [Function.update_of_ne hy]
            exact (h.sole u x hu).2 y
      · intro x hx hf
        by_cases hxv : x = v
        · subst hxv
          refine ⟨fun y => ?_, h.nodup.not_mem_erase⟩
          by_cases hy : y = t
          · subst hy
            rw [Function.update_self, Thread.owed_idle]
            exact ⟨hheld, by simp⟩
          · rw [Function.update_of_ne hy]
            exact ⟨hothers y hy, hnone y⟩
        · rw [Function.update_of_ne hxv] at hf
          obtain ⟨hall, htab⟩ := h.gone x hx hf
          refine ⟨fun y => ?_, fun hmem => htab (List.mem_of_mem_erase hmem)⟩
          by_cases hy : y = t
          · subst hy
            rw [Function.update_self, Thread.owed_idle]
            exact ⟨(h.owed_of_gone hx hf y).1, by simp⟩
          · rw [Function.update_of_ne hy]
            exact hall y
      · exact h.nodup.erase _

theorem load (h : Safe w) (hinv : Inv .sfs w tr) {key : Nat} (hok : Synchronized w (.load t key)) :
    Safe (load w .sfs t key).1 := by
  simp only [Reclaim.load]
  split
  · rename_i v hs
    refine h.goto (fun u hu => by cases hu) (fun u hu => ?_) (fun u hu => by cases hu)
    cases hu
    exact ⟨hok v hs, h.search_live hinv hs⟩
  · exact h.goto (fun v hv => by cases hv) (fun v hv => by cases hv) (fun v hv => by cases hv)

theorem run (h : Safe w) (hinv : Inv .sfs w tr) {b : Bool} (hok : w.apart (w.thread t).pc)
    (hr : Runs .sfs w t b (w.thread t).pc w' es) : Safe w' := by
  generalize hpc : (w.thread t).pc = pc at hr hok
  cases hr with
  | found hkind | locked hkind | withdrawn hkind | checked hkind => cases hkind
  | created => exact h.create hinv _
  | refused => exact h.idle
  | taken => exact h.take hinv hpc
  | dropped | busy => exact h.down hinv (by simp [hpc, Pc.drops]) _
  | last => exact h.goto (fun u hu => by rw [hpc]; exact hu) (fun u hu => by cases hu) (fun u hu => by cases hu)
  | passed hone =>
    refine h.goto (fun u hu => by rw [hpc]; exact hu) (fun u hu => by cases hu) fun u hu => ?_
    cases hu
    exact ⟨hone, hok hone⟩
  | @killed _ v _ _ hpc' hk =>
    rcases hpc' with rfl | rfl
    · exact h.kill hinv (by simp [hpc, Pc.drops]) (hok (kill_spec hk).1) hk
    · exact h.kill hinv (by simp [hpc, Pc.drops]) (h.sole t v hpc).2 hk
  | failed => exact h.idle

end Safe

variable [Fintype ι] [DecidableEq ι]

theorem safe_of_reach (h : Machine.Reach (vnodes .sfs ι) Synchronized w tr) : Safe w := by
  refine h.invariant (I := fun w _ => Safe w) ?_ ?_
  · rintro w ⟨hsize, htable, -, hthread⟩
    constructor
    all_goals simp [hsize, htable, hthread]
  · intro w w' c tr es hreach hsafe hok hs
    have hinv := inv_of_reach hreach
    cases step_moves hs with
    | load => exact hsafe.load hinv hok
    | drop hpc hv => exact hsafe.drop hpc hv
    | touch => exact hsafe.touch _ _
    | run hr => exact hsafe.run hinv hok hr

omit [Fintype ι] in
theorem kill_continues (hone : (w.vnode v).vn_refcount = 1) :
    w.kill .sfs t v ≠ .error .vnode_kill ∧ w.kill .sfs t v ≠ .error .use_after_free := by
  unfold World.kill
  split
  · simp
  · rw [if_neg (by simp [hone])]
    simp

theorem Safe.run_continues (h : Safe w) (hinv : Inv .sfs w tr) (t : ι) (b : Bool) :
    Reclaim.run w .sfs t b (w.thread t).pc ≠ .error .vnode_kill ∧
    Reclaim.run w .sfs t b (w.thread t).pc ≠ .error .use_after_free := by
  have hlive {v : Nat} (ha : (w.thread t).pc.about = some v) : (w.vnode v).freed = false := h.live hinv ha
  cases hpc : (w.thread t).pc
  all_goals simp only [Reclaim.run]
  case idle | load => simp
  case read => split <;> simp
  case incref v => simp [hlive (v := v) (by rw [hpc]; rfl)]
  case decref v =>
    simp only [hlive (v := v) (by rw [hpc]; rfl), Bool.false_eq_true, if_false]
    split
    · simp
    · split <;> simp
  case reclaim v =>
    simp only [hlive (v := v) (by rw [hpc]; rfl), Bool.false_eq_true, if_false]
    split
    · split <;> simp
    · rename_i hone
      split
      · simp
      · exact kill_continues (by simpa using hone)
  case check v => simp [hlive (v := v) (by rw [hpc]; rfl)]
  case discard v =>
    simp only [hlive (v := v) (by rw [hpc]; rfl), Bool.false_eq_true, if_false]
    split
    · exact kill_continues (h.sole t v hpc).1
    · simp

theorem Safe.continues (h : Safe w) (hinv : Inv .sfs w tr) (c : Choice ι) :
    step .sfs w c ≠ .error .vnode_kill ∧ step .sfs w c ≠ .error .use_after_free := by
  cases c <;> simp only [step]
  case load | drop => split <;> simp
  case touch t v dirty linked =>
    split
    · rename_i hok
      have hlive : (w.vnode v).freed = false := by
        cases hf : (w.vnode v).freed with
        | false => rfl
        | true =>
          have hzero := (h.owed_of_gone (hinv.held_lt t v hok.2) hf t).1
          exact absurd hok.2 (List.count_eq_zero.mp hzero)
      simp [hlive]
    · simp
  case run t b => exact h.run_continues hinv t b

theorem no_use_after_free (h : Machine.Reach (vnodes .sfs ι) Synchronized w tr) :
    (∀ t v, (w.thread t).pc = .discard v →
      ∀ u, v ∉ (w.thread u).held ∧ (u ≠ t → (w.thread u).pc.about ≠ some v)) ∧
    ∀ c, step .sfs w c ≠ .error .vnode_kill ∧ step .sfs w c ≠ .error .use_after_free := by
  have hinv := inv_of_reach h
  have hsafe := safe_of_reach h
  refine ⟨fun t v ht u => ?_, hsafe.continues hinv⟩
  obtain ⟨hothers, hheld⟩ := hsafe.discards hinv ht
  by_cases hu : u = t
  · subst hu
    exact ⟨List.count_eq_zero.mp hheld, fun hne => absurd rfl hne⟩
  · have hzero := hothers u hu
    have hincref := (hsafe.sole t v ht).2 u
    rw [Thread.owed, Nat.add_eq_zero_iff] at hzero
    refine ⟨List.count_eq_zero.mp hzero.1, fun _ habout => ?_⟩
    cases hpc : (w.thread u).pc <;> simp_all [Pc.about, Pc.drops]

end Safety

/-- The vnode is looked up again while its inode is written: the reclaim goes on, and `vnode_kill` stops
the machine. -/
theorem found_while_discarded : ∃ w tr, Machine.Reach (vnodes .sfs (Fin 2)) Any w tr ∧
    (w.thread 0).pc = .discard 0 ∧ 0 ∈ (w.thread 1).held ∧ step .sfs w (.run 0 true) = .error .vnode_kill := by
  obtain ⟨w, tr, hr, hcheck⟩ := Machine.exists_runOk (M := vnodes .sfs (Fin 2))
    (s := ⟨fun _ => ⟨0, 0, false, false, false⟩, 0, [], none, fun _ => ⟨[], .idle⟩⟩) Any
    [.load 0 7, .run 0 true, .touch 0 0 true true, .drop 0 0, .run 0 true, .run 0 true, .load 1 7, .run 1 true]
    (fun x => decide ((x.1.thread 0).pc = .discard 0 ∧ 0 ∈ (x.1.thread 1).held ∧
      stopsWith .vnode_kill (step .sfs x.1 (.run 0 true)) = true))
    ⟨rfl, rfl, rfl, fun _ => rfl⟩ (by decide +kernel)
  obtain ⟨hpc, hheld, hstop⟩ : (w.thread 0).pc = .discard 0 ∧ 0 ∈ (w.thread 1).held ∧
    stopsWith .vnode_kill (step .sfs w (.run 0 true)) = true := of_decide_eq_true hcheck
  exact ⟨w, tr, hr, hpc, hheld, eq_of_stopsWith hstop⟩

instance decidableApart {ι : Type} [Fintype ι] (w : World ι) : (pc : Pc) → Decidable (w.apart pc)
  | .reclaim v => inferInstanceAs (Decidable ((w.vnode v).vn_refcount = 1 → ∀ u, (w.thread u).pc ≠ .incref v))
  | .idle | .load _ | .read _ | .incref _ | .decref _ | .check _ | .discard _ => inferInstanceAs (Decidable True)

instance decidableSynchronized {ι : Type} [Fintype ι] (w : World ι) : (c : Choice ι) → Decidable (Synchronized w c)
  | .load _ key => inferInstanceAs (Decidable (∀ v ∈ w.search key, ∀ u, (w.thread u).pc ≠ .discard v))
  | .run t _ => decidableApart w (w.thread t).pc
  | .drop _ _ | .touch _ _ _ _ => inferInstanceAs (Decidable True)

/-- The second thread looks the vnode up before the reclaim has checked the count. -/
theorem no_use_after_free_discard : ∃ w tr, Machine.Reach (vnodes .sfs (Fin 2)) Synchronized w tr ∧
    (w.thread 0).pc = .discard 0 ∧ 0 ∉ (w.thread 1).held := by
  obtain ⟨w, tr, hr, hcheck⟩ := Machine.exists_runOk (M := vnodes .sfs (Fin 2))
    (s := ⟨fun _ => ⟨0, 0, false, false, false⟩, 0, [], none, fun _ => ⟨[], .idle⟩⟩) Synchronized
    [.load 0 7, .run 0 true, .touch 0 0 true true, .drop 0 0, .run 0 true, .load 1 7, .run 1 true, .drop 1 0,
      .run 1 true, .run 0 true]
    (fun x => decide ((x.1.thread 0).pc = .discard 0))
    ⟨rfl, rfl, rfl, fun _ => rfl⟩ (by decide +kernel)
  have hpc : (w.thread 0).pc = .discard 0 := of_decide_eq_true hcheck
  exact ⟨w, tr, hr, hpc, ((no_use_after_free hr).1 0 0 hpc 1).1⟩

end Os161.Reclaim
