import Os161.Lib.Lts
import Os161.Lib.Tally

/-! # `fs/vfs/vnode.c`: dropping the last reference

`vnode_decref` over `sfs_reclaim` and `emufs_reclaim`, against threads that look the vnode up. A thread
can be switched out at a lock and at a disk operation.
-/

namespace Os161.Reclaim

open Machine Tally

/-! ## The calls -/

inductive Kind where
  | sfs | emufs
  deriving DecidableEq, Repr

structure Vnode where
  key : Nat
  vn_refcount : Int
  sv_dirty : Bool
  /-- `sfi_linkcount` is not 0. -/
  linked : Bool
  /-- After its `kfree`. -/
  freed : Bool
  deriving DecidableEq, Repr

inductive Pc where
  | idle
  /-- `e_lock` in `emufs_loadvnode`. -/
  | load (key : Nat)
  /-- `sfs_rblock` in `sfs_loadvnode`. -/
  | read (key : Nat)
  /-- `vn_countlock` in `vnode_incref`, on the vnode that was found. -/
  | incref (v : Nat)
  /-- `vn_countlock` in `vnode_decref`. -/
  | decref (v : Nat)
  /-- The first lock of the reclaim operation. -/
  | reclaim (v : Nat)
  /-- `vn_countlock` in `emufs_reclaim`, with `e_lock` held. -/
  | check (v : Nat)
  /-- The disk operations of a reclaim that has passed the check of the count. -/
  | discard (v : Nat)
  deriving DecidableEq, Repr

structure Thread where
  held : List Nat
  pc : Pc
  deriving DecidableEq, Repr

structure World (ι : Type) where
  vnode : Nat → Vnode
  size : Nat
  /-- `sfs_vnodes` or `ef_vnodes`. -/
  table : List Nat
  e_lock : Option ι
  thread : ι → Thread

inductive Event (ι : Type) where
  | ebusy (t : ι) (v : Nat)
  | failed (t : ι) (v : Nat)
  | killed (t : ι) (v : Nat)
  deriving DecidableEq, Repr

inductive Stop where
  | blocked
  | vnode_kill
  | vnode_decref
  | reclaim_refcount
  | not_in_pool
  | use_after_free
  deriving DecidableEq, Repr

inductive Choice (ι : Type) where
  | load (t : ι) (key : Nat)
  | drop (t : ι) (v : Nat)
  | touch (t : ι) (v : Nat) (dirty linked : Bool)
  | run (t : ι) (ok : Bool)
  deriving DecidableEq, Repr

section

variable {ι : Type} [DecidableEq ι]

namespace World

def goto (w : World ι) (t : ι) (pc : Pc) : World ι :=
  { w with thread := Function.update w.thread t { w.thread t with pc := pc } }

def take (w : World ι) (t : ι) (v : Nat) : World ι :=
  { w with thread := Function.update w.thread t ⟨v :: (w.thread t).held, .idle⟩ }

def setCount (w : World ι) (v : Nat) (n : Int) : World ι :=
  { w with vnode := Function.update w.vnode v { w.vnode v with vn_refcount := n } }

def unlock (w : World ι) : Kind → World ι
  | .sfs => w
  | .emufs => { w with e_lock := none }

def search (w : World ι) (key : Nat) : Option Nat := w.table.find? fun v => (w.vnode v).key = key

def create (w : World ι) (t : ι) (key : Nat) : World ι :=
  { w with
    vnode := Function.update w.vnode w.size ⟨key, 1, false, true, false⟩
    size := w.size + 1
    table := w.table ++ [w.size]
    thread := Function.update w.thread t ⟨w.size :: (w.thread t).held, .idle⟩ }

def kill (w : World ι) (kind : Kind) (t : ι) (v : Nat) : Except Stop (World ι × List (Event ι)) :=
  if v ∉ w.table then .error .not_in_pool
  else if (w.vnode v).vn_refcount ≠ 1 then .error .vnode_kill
  else .ok
    ({ w.unlock kind with
      vnode := Function.update w.vnode v { w.vnode v with vn_refcount := 0, freed := true }
      table := w.table.erase v
      thread := Function.update w.thread t { w.thread t with pc := .idle } }, [.killed t v])

end World

def load (w : World ι) (kind : Kind) (t : ι) (key : Nat) : World ι × List (Event ι) :=
  match kind with
  | .emufs => (w.goto t (.load key), [])
  | .sfs =>
    match w.search key with
    | some v => (w.goto t (.incref v), [])
    | none => (w.goto t (.read key), [])

def run (w : World ι) (kind : Kind) (t : ι) (ok : Bool) : Pc → Except Stop (World ι × List (Event ι))
  | .idle => .error .blocked
  | .load key =>
    match kind with
    | .sfs => .error .blocked
    | .emufs =>
      if w.e_lock ≠ none then .error .blocked
      else
        match w.search key with
        | some v => .ok ({ w with e_lock := some t }.goto t (.incref v), [])
        | none => if ok then .ok (w.create t key, []) else .ok (w.goto t .idle, [])
  | .read key => if ok then .ok (w.create t key, []) else .ok (w.goto t .idle, [])
  | .incref v =>
    if (w.vnode v).freed then .error .use_after_free
    else .ok (((w.setCount v ((w.vnode v).vn_refcount + 1)).take t v).unlock kind, [])
  | .decref v =>
    if (w.vnode v).freed then .error .use_after_free
    else if ¬ 0 < (w.vnode v).vn_refcount then .error .vnode_decref
    else if 1 < (w.vnode v).vn_refcount then
      .ok ((w.setCount v ((w.vnode v).vn_refcount - 1)).goto t .idle, [])
    else .ok (w.goto t (.reclaim v), [])
  | .reclaim v =>
    if (w.vnode v).freed then .error .use_after_free
    else
      match kind with
      | .sfs =>
        if (w.vnode v).vn_refcount ≠ 1 then
          -- the reference of the caller is consumed
          if ¬ 1 < (w.vnode v).vn_refcount then .error .reclaim_refcount
          else .ok ((w.setCount v ((w.vnode v).vn_refcount - 1)).goto t .idle, [.ebusy t v])
        else if (w.vnode v).sv_dirty ∨ ¬ (w.vnode v).linked then .ok (w.goto t (.discard v), [])
        else w.kill .sfs t v
      | .emufs =>
        if w.e_lock ≠ none then .error .blocked
        else .ok ({ w with e_lock := some t }.goto t (.check v), [])
  | .check v =>
    if (w.vnode v).freed then .error .use_after_free
    else
      match kind with
      | .sfs => .error .blocked
      | .emufs =>
        if (w.vnode v).vn_refcount ≠ 1 then .ok ((w.unlock .emufs).goto t .idle, [.ebusy t v])
        else .ok (w.goto t (.discard v), [])
  | .discard v =>
    if (w.vnode v).freed then .error .use_after_free
    else if ok then w.kill kind t v
    else .ok ((w.unlock kind).goto t .idle, [.failed t v])

def step (kind : Kind) (w : World ι) : Choice ι → Except Stop (World ι × List (Event ι))
  | .load t key => if (w.thread t).pc = .idle then .ok (load w kind t key) else .error .blocked
  | .drop t v =>
    if (w.thread t).pc = .idle ∧ v ∈ (w.thread t).held then
      .ok ({ w with thread := Function.update w.thread t ⟨(w.thread t).held.erase v, .decref v⟩ }, [])
    else .error .blocked
  | .touch t v dirty linked =>
    if (w.thread t).pc = .idle ∧ v ∈ (w.thread t).held then
      if (w.vnode v).freed then .error .use_after_free
      else .ok ({ w with
        vnode := Function.update w.vnode v { w.vnode v with sv_dirty := dirty, linked := linked } }, [])
    else .error .blocked
  | .run t ok => run w kind t ok (w.thread t).pc

def stopsWith {α : Type} (s : Stop) : Except Stop α → Bool
  | .error e => e = s
  | .ok _ => false

theorem eq_of_stopsWith {α : Type} {s : Stop} {r : Except Stop α} (h : stopsWith s r = true) : r = .error s := by
  cases r with
  | error e => simpa [stopsWith] using h
  | ok a => cases h

def vnodes (kind : Kind) (ι : Type) [DecidableEq ι] : Machine (World ι) (Choice ι) (Event ι) Stop where
  init w := w.size = 0 ∧ w.table = [] ∧ w.e_lock = none ∧ ∀ t, w.thread t = ⟨[], .idle⟩
  step := step kind

/-! ## What a step can do -/

inductive Runs (kind : Kind) (w : World ι) (t : ι) (ok : Bool) : Pc → World ι → List (Event ι) → Prop where
  | found {key v : Nat} (hkind : kind = .emufs) (hs : w.search key = some v) :
      Runs kind w t ok (.load key) ({ w with e_lock := some t }.goto t (.incref v)) []
  | created {pc : Pc} {key : Nat} (hpc : pc = .load key ∨ pc = .read key) : Runs kind w t ok pc (w.create t key) []
  | refused {pc : Pc} {key : Nat} (hpc : pc = .load key ∨ pc = .read key) : Runs kind w t ok pc (w.goto t .idle) []
  | taken {v : Nat} :
      Runs kind w t ok (.incref v) (((w.setCount v ((w.vnode v).vn_refcount + 1)).take t v).unlock kind) []
  | dropped {v : Nat} : Runs kind w t ok (.decref v) ((w.setCount v ((w.vnode v).vn_refcount - 1)).goto t .idle) []
  | last {v : Nat} : Runs kind w t ok (.decref v) (w.goto t (.reclaim v)) []
  | busy {v : Nat} (hkind : kind = .sfs) :
      Runs kind w t ok (.reclaim v) ((w.setCount v ((w.vnode v).vn_refcount - 1)).goto t .idle) [.ebusy t v]
  | passed {v : Nat} (hone : (w.vnode v).vn_refcount = 1) :
      Runs kind w t ok (.reclaim v) (w.goto t (.discard v)) []
  | locked {v : Nat} (hkind : kind = .emufs) :
      Runs kind w t ok (.reclaim v) ({ w with e_lock := some t }.goto t (.check v)) []
  | withdrawn {v : Nat} (hkind : kind = .emufs) (hne : (w.vnode v).vn_refcount ≠ 1) :
      Runs kind w t ok (.check v) ((w.unlock .emufs).goto t .idle) [.ebusy t v]
  | checked {v : Nat} (hkind : kind = .emufs) : Runs kind w t ok (.check v) (w.goto t (.discard v)) []
  | killed {pc : Pc} {v : Nat} {w' : World ι} {es : List (Event ι)} (hpc : pc = .reclaim v ∨ pc = .discard v)
      (hk : w.kill kind t v = .ok (w', es)) : Runs kind w t ok pc w' es
  | failed {v : Nat} (hok : ok = false) :
      Runs kind w t ok (.discard v) ((w.unlock kind).goto t .idle) [.failed t v]

inductive Moves (kind : Kind) (w : World ι) : Choice ι → World ι → List (Event ι) → Prop where
  | load {t : ι} {key : Nat} (hpc : (w.thread t).pc = .idle) :
      Moves kind w (.load t key) (load w kind t key).1 (load w kind t key).2
  | drop {t : ι} {v : Nat} (hpc : (w.thread t).pc = .idle) (hv : v ∈ (w.thread t).held) :
      Moves kind w (.drop t v)
        { w with thread := Function.update w.thread t ⟨(w.thread t).held.erase v, .decref v⟩ } []
  | touch {t : ι} {v : Nat} {dirty linked : Bool} :
      Moves kind w (.touch t v dirty linked) { w with
        vnode := Function.update w.vnode v { w.vnode v with sv_dirty := dirty, linked := linked } } []
  | run {t : ι} {ok : Bool} {w' : World ι} {es : List (Event ι)} (h : Runs kind w t ok (w.thread t).pc w' es) :
      Moves kind w (.run t ok) w' es

section Moves

variable {kind : Kind} {w w' : World ι} {t : ι} {v : Nat} {es : List (Event ι)}

theorem run_runs {pc : Pc} {ok : Bool} (h : run w kind t ok pc = .ok (w', es)) : Runs kind w t ok pc w' es := by
  cases pc <;> simp only [run] at h
  case idle => cases h
  case load key =>
    split at h
    · cases h
    · split at h
      · cases h
      · split at h
        · rename_i v hs
          cases h
          exact .found rfl hs
        · split at h <;> cases h
          · exact .created (.inl rfl)
          · exact .refused (.inl rfl)
  case read key =>
    split at h <;> cases h
    · exact .created (.inr rfl)
    · exact .refused (.inr rfl)
  case incref v =>
    split at h <;> cases h
    exact .taken
  case decref v =>
    split at h
    · cases h
    · split at h
      · cases h
      · split at h <;> cases h
        · exact .dropped
        · exact .last
  case reclaim v =>
    split at h
    · cases h
    · split at h
      · split at h
        · split at h <;> cases h
          exact .busy rfl
        · rename_i hone
          split at h
          · cases h
            exact .passed (not_not.mp hone)
          · exact .killed (.inl rfl) h
      · split at h <;> cases h
        exact .locked rfl
  case check v =>
    split at h
    · cases h
    · split at h
      · cases h
      · split at h <;> cases h
        · rename_i hne
          exact .withdrawn rfl hne
        · exact .checked rfl
  case discard v =>
    split at h
    · cases h
    · split at h
      · exact .killed (.inr rfl) h
      · rename_i hok
        cases h
        exact .failed (by simpa using hok)

theorem step_moves {c : Choice ι} (h : step kind w c = .ok (w', es)) : Moves kind w c w' es := by
  cases c <;> simp only [step] at h
  case load t key =>
    split at h
    · rename_i hpc
      obtain ⟨rfl, rfl⟩ := Prod.ext_iff.mp (Except.ok.inj h)
      exact .load hpc
    · cases h
  case drop t v =>
    split at h <;> cases h
    rename_i hok
    exact .drop hok.1 hok.2
  case touch t v dirty linked =>
    split at h
    · split at h <;> cases h
      exact .touch
    · cases h
  case run t ok => exact .run (run_runs h)

theorem kill_spec {k : Kind} (hk : w.kill k t v = .ok (w', es)) :
    (w.vnode v).vn_refcount = 1 ∧ es = [.killed t v] := by
  unfold World.kill at hk
  split at hk
  · cases hk
  · split at hk
    · cases hk
    · rename_i hone
      cases hk
      exact ⟨not_not.mp hone, rfl⟩

end Moves

end

/-! ## Where the references are -/

def Pc.drops (v : Nat) : Pc → Bool
  | .decref u | .reclaim u | .check u | .discard u => u = v
  | _ => false

def Pc.about : Pc → Option Nat
  | .idle | .load _ | .read _ => none
  | .incref v | .decref v | .reclaim v | .check v | .discard v => some v

def Thread.owed (v : Nat) (th : Thread) : Nat := th.held.count v + (th.pc.drops v).toNat

def Event.loses {ι : Type} (kind : Kind) (v : Nat) : Event ι → Bool
  | .failed _ u => u = v
  | .ebusy _ u => kind = .emufs && u = v
  | .killed _ _ => false

def lost {ι : Type} (kind : Kind) (v : Nat) (tr : List (Event ι)) : Nat := tr.countP (·.loses kind v)

section Runs

variable {ι : Type} [Fintype ι] {kind : Kind} {w w' : World ι} {tr es : List (Event ι)} {t : ι} {v : Nat}

def refs (w : World ι) (v : Nat) : Int := total (fun th => th.held.count v) w.thread

def owners (w : World ι) (v : Nat) : Int := total (fun th => th.owed v) w.thread

structure Inv (kind : Kind) (w : World ι) (tr : List (Event ι)) : Prop where
  held_lt : ∀ t, ∀ v ∈ (w.thread t).held, v < w.size
  about_lt : ∀ t v, (w.thread t).pc.about = some v → v < w.size
  table_lt : ∀ v ∈ w.table, v < w.size
  count : ∀ v < w.size, (w.vnode v).freed = false → (w.vnode v).vn_refcount = owners w v + lost kind v tr
  unlost : ∀ v, w.size ≤ v → lost kind v tr = 0

omit [Fintype ι] in
theorem lost_append (kind : Kind) (v : Nat) (es tr : List (Event ι)) :
    lost kind v (es ++ tr) = lost kind v es + lost kind v tr := List.countP_append

theorem Pc.about_of_drops {pc : Pc} (h : pc.drops v = true) : pc.about = some v := by
  cases pc <;> simp_all [Pc.drops, Pc.about]

theorem Thread.owed_eq_zero {th : Thread} (hheld : v ∉ th.held) (habout : th.pc.about ≠ some v) :
    th.owed v = 0 := by
  have hdrops : th.pc.drops v = false := by
    cases h : th.pc.drops v with
    | false => rfl
    | true => exact absurd (Pc.about_of_drops h) habout
  rw [Thread.owed, List.count_eq_zero_of_not_mem hheld, hdrops]
  rfl

@[simp] theorem Thread.owed_idle (v : Nat) (held : List Nat) : Thread.owed v ⟨held, .idle⟩ = held.count v := rfl

theorem Thread.owed_drop {th : Thread} (hpc : th.pc = .idle) (hv : v ∈ th.held) (u : Nat) :
    Thread.owed u ⟨th.held.erase v, .decref v⟩ = th.owed u := by
  by_cases huv : u = v
  · subst huv
    have := List.count_erase_self (a := u) (l := th.held)
    have : 0 < th.held.count u := List.count_pos_iff.mpr hv
    simp [Thread.owed, hpc, Pc.drops]
    omega
  · simp [Thread.owed, hpc, Pc.drops, List.count_erase_of_ne huv, Ne.symm huv]

theorem owners_update [DecidableEq ι] (w : World ι) (t : ι) (th : Thread) (v : Nat) :
    total (fun th => (th.owed v : Int)) (Function.update w.thread t th) =
      owners w v - (w.thread t).owed v + th.owed v := total_update _ _ _ _

theorem owners_eq_zero (h : ∀ t, (w.thread t).owed v = 0) : owners w v = 0 := by
  simp [owners, total, h]

namespace Inv

theorem moves [DecidableEq ι] (h : Inv kind w tr) (es : List (Event ι)) (th : Thread)
    (hthread : w'.thread = Function.update w.thread t th)
    (hsize : w'.size = w.size) (htable : ∀ v ∈ w'.table, v ∈ w.table)
    (hheld : ∀ v ∈ th.held, v < w.size) (habout : ∀ v, th.pc.about = some v → v < w.size)
    (hcount : ∀ v < w.size, (w'.vnode v).freed = false → (w.vnode v).freed = false ∧
      (w'.vnode v).vn_refcount + (w.thread t).owed v = (w.vnode v).vn_refcount + th.owed v + lost kind v es)
    (hlost : ∀ v, w.size ≤ v → lost kind v es = 0) : Inv kind w' (es ++ tr) := by
  constructor
  · intro u v hv
    rw [hthread] at hv
    rw [hsize]
    by_cases hu : u = t
    · subst hu
      exact hheld v (by simpa using hv)
    · exact h.held_lt u v (by simpa [hu] using hv)
  · intro u v hv
    rw [hthread] at hv
    rw [hsize]
    by_cases hu : u = t
    · subst hu
      exact habout v (by simpa using hv)
    · exact h.about_lt u v (by simpa [hu] using hv)
  · intro v hv
    rw [hsize]
    exact h.table_lt v (htable v hv)
  · intro v hv hlive
    rw [hsize] at hv
    obtain ⟨hlive, hdiff⟩ := hcount v hv hlive
    have hold := h.count v hv hlive
    rw [lost_append, owners, hthread, owners_update]
    push_cast
    omega
  · intro v hv
    rw [hsize] at hv
    rw [lost_append, hlost v hv, h.unlost v hv]

theorem lock (h : Inv kind w tr) (l : Option ι) : Inv kind { w with e_lock := l } tr :=
  ⟨h.held_lt, h.about_lt, h.table_lt, h.count, h.unlost⟩

theorem unlock (h : Inv kind w tr) (k : Kind) : Inv kind (w.unlock k) tr := by
  cases k with
  | sfs => exact h
  | emufs => exact h.lock none

theorem touch (h : Inv kind w tr) (dirty linked : Bool) :
    Inv kind { w with
      vnode := Function.update w.vnode v { w.vnode v with sv_dirty := dirty, linked := linked } } tr := by
  refine ⟨h.held_lt, h.about_lt, h.table_lt, fun u hu hlive => ?_, h.unlost⟩
  by_cases huv : u = v
  · subst huv
    simp only [Function.update_self] at hlive ⊢
    exact h.count u hu hlive
  · simp only [Function.update_of_ne huv] at hlive ⊢
    exact h.count u hu hlive

theorem search_lt (h : Inv kind w tr) {key : Nat} (hs : w.search key = some v) : v < w.size :=
  h.table_lt v (List.mem_of_find?_eq_some hs)

variable [DecidableEq ι]

theorem goto (h : Inv kind w tr) {pc : Pc} (hdrops : ∀ v, pc.drops v = (w.thread t).pc.drops v)
    (habout : ∀ v, pc.about = some v → v < w.size) : Inv kind (w.goto t pc) tr := by
  refine h.moves [] { w.thread t with pc := pc } rfl rfl (fun _ hv => hv) (h.held_lt t) habout ?_
    fun _ _ => rfl
  intro v hv hlive
  refine ⟨hlive, ?_⟩
  simp only [World.goto, Thread.owed, hdrops v, lost, List.countP_nil]
  omega

theorem drops (h : Inv kind w tr) (hpc : ∀ u, (w.thread t).pc.drops u = decide (v = u)) {n : Int}
    (hn : n + 1 = (w.vnode v).vn_refcount + lost kind v es) (hes : ∀ u, u ≠ v → lost kind u es = 0)
    (hv : v < w.size) : Inv kind ((w.setCount v n).goto t .idle) (es ++ tr) := by
  refine h.moves _ { w.thread t with pc := .idle } rfl rfl (fun _ hv => hv) (h.held_lt t)
    (fun _ hu => by cases hu) ?_ ?_
  · intro u hu hlive
    have hold : (w.thread t).owed u = (w.thread t).held.count u + Bool.toNat (v = u) := by rw [Thread.owed, hpc]
    rw [hold, Thread.owed_idle]
    by_cases huv : u = v
    · subst huv
      simp only [World.goto, World.setCount, Function.update_self] at hlive ⊢
      refine ⟨hlive, ?_⟩
      simp
      omega
    · simp only [World.goto, World.setCount, Function.update_of_ne huv] at hlive ⊢
      refine ⟨hlive, ?_⟩
      simp [Ne.symm huv, hes u huv]
  · intro u hu
    exact hes u (by omega)

theorem loses (h : Inv kind w tr) (hpc : ∀ u, (w.thread t).pc.drops u = decide (v = u)) (k : Kind)
    (hone : lost kind v es = 1) (hes : ∀ u, u ≠ v → lost kind u es = 0) (hv : v < w.size) :
    Inv kind ((w.unlock k).goto t .idle) (es ++ tr) := by
  have hsame : w.setCount v (w.vnode v).vn_refcount = w := by
    rw [World.setCount, Function.update_eq_self]
  have := (h.drops hpc (by rw [hone]; rfl) hes hv).unlock k
  rw [hsame] at this
  cases k <;> exact this

theorem take (h : Inv kind w tr) (hpc : (w.thread t).pc = .incref v) :
    Inv kind ((w.setCount v ((w.vnode v).vn_refcount + 1)).take t v) tr := by
  have hv : v < w.size := h.about_lt t v (by rw [hpc]; rfl)
  refine h.moves [] ⟨v :: (w.thread t).held, .idle⟩ rfl rfl (fun _ hv => hv) ?_
    (fun _ hu => by cases hu) ?_ fun _ _ => rfl
  · intro u hu
    rcases List.mem_cons.mp hu with rfl | hu
    · exact hv
    · exact h.held_lt t u hu
  · intro u hu hlive
    by_cases huv : u = v
    · subst huv
      simp only [World.take, World.setCount, Function.update_self] at hlive ⊢
      refine ⟨hlive, ?_⟩
      simp [Thread.owed, hpc, Pc.drops, lost]
      omega
    · simp only [World.take, World.setCount, Function.update_of_ne huv] at hlive ⊢
      refine ⟨hlive, ?_⟩
      simp [Thread.owed, hpc, Pc.drops, lost, Ne.symm huv]

theorem drop (h : Inv kind w tr) (hpc : (w.thread t).pc = .idle) (hv : v ∈ (w.thread t).held) :
    Inv kind { w with thread := Function.update w.thread t ⟨(w.thread t).held.erase v, .decref v⟩ } tr := by
  have hlt := h.held_lt t v hv
  refine h.moves [] ⟨(w.thread t).held.erase v, .decref v⟩ rfl rfl (fun _ hv => hv)
    (fun u hu => h.held_lt t u (List.mem_of_mem_erase hu)) ?_ ?_ fun _ _ => rfl
  · intro u hu
    cases hu
    exact hlt
  · intro u hu hlive
    refine ⟨hlive, ?_⟩
    rw [Thread.owed_drop hpc hv]
    simp [lost]

theorem create (h : Inv kind w tr) (key : Nat) (hpc : (w.thread t).pc.about = none) :
    Inv kind (w.create t key) tr := by
  have hold (v : Nat) : (w.thread t).owed v = (w.thread t).held.count v := by
    cases hp : (w.thread t).pc <;> simp_all [Thread.owed, Pc.drops, Pc.about]
  have hnew : owners w w.size = 0 := owners_eq_zero fun u =>
    Thread.owed_eq_zero (fun hu => absurd (h.held_lt u _ hu) (by omega))
      fun hu => absurd (h.about_lt u _ hu) (by omega)
  have hfresh : w.size ∉ (w.thread t).held := fun hu => absurd (h.held_lt t _ hu) (by omega)
  unfold World.create
  constructor
  all_goals simp only
  · intro u v hv
    by_cases hu : u = t
    · subst hu
      simp only [Function.update_self, List.mem_cons] at hv
      rcases hv with rfl | hv
      · omega
      · exact (h.held_lt u v hv).trans (by omega)
    · rw [Function.update_of_ne hu] at hv
      exact (h.held_lt u v hv).trans (by omega)
  · intro u v hv
    by_cases hu : u = t
    · subst hu
      simp [Pc.about] at hv
    · rw [Function.update_of_ne hu] at hv
      exact (h.about_lt u v hv).trans (by omega)
  · intro v hv
    rcases List.mem_append.mp hv with hv | hv
    · exact (h.table_lt v hv).trans (by omega)
    · rw [List.mem_singleton.mp hv]
      omega
  · intro v hv hlive
    rw [owners, owners_update, hold, Thread.owed_idle]
    by_cases hsize : v = w.size
    · subst hsize
      simp [hnew, h.unlost _ le_rfl, List.count_eq_zero_of_not_mem hfresh]
    · rw [Function.update_of_ne hsize] at hlive ⊢
      rw [h.count v (by omega) hlive, List.count_cons_of_ne (Ne.symm hsize)]
      omega
  · intro v hv
    exact h.unlost v (by omega)

theorem kill (h : Inv kind w tr) (hpc : ∀ u, (w.thread t).pc.drops u = decide (v = u)) (k : Kind)
    (hk : w.kill k t v = .ok (w', es)) : Inv kind w' (es ++ tr) := by
  unfold World.kill at hk
  split at hk
  · cases hk
  · split at hk
    · cases hk
    · cases hk
      refine h.moves _ { w.thread t with pc := .idle } rfl (by cases k <;> rfl)
        (fun u hu => List.mem_of_mem_erase hu) (h.held_lt t) (fun _ hu => by cases hu) ?_ fun _ _ => rfl
      intro u hu hlive
      have hold : (w.thread t).owed u = (w.thread t).held.count u + Bool.toNat (v = u) := by rw [Thread.owed, hpc]
      rw [hold, Thread.owed_idle]
      by_cases huv : u = v
      · subst huv
        simp at hlive
      · simp only [Function.update_of_ne huv] at hlive ⊢
        refine ⟨hlive, ?_⟩
        simp [Ne.symm huv, lost, Event.loses]

theorem load (h : Inv kind w tr) (hpc : (w.thread t).pc = .idle) (key : Nat) :
    Inv kind (load w kind t key).1 ((load w kind t key).2 ++ tr) := by
  unfold Reclaim.load
  split
  · exact h.goto (fun v => by rw [hpc]; rfl) (fun v hv => by cases hv)
  · split
    · rename_i v hs
      refine h.goto (fun v => by rw [hpc]; rfl) fun u hu => ?_
      cases hu
      exact h.search_lt hs
    · exact h.goto (fun v => by rw [hpc]; rfl) (fun v hv => by cases hv)

theorem run (h : Inv kind w tr) {ok : Bool} (hr : Runs kind w t ok (w.thread t).pc w' es) :
    Inv kind w' (es ++ tr) := by
  generalize hpc : (w.thread t).pc = pc at hr
  have hv {v : Nat} (ha : pc.about = some v) : v < w.size := h.about_lt t v (hpc ▸ ha)
  -- the same reference is about to go
  have hgoto {v : Nat} {pc' : Pc} (ha : pc.about = some v) (hd : ∀ u, pc'.drops u = pc.drops u)
      (ha' : pc'.about = some v) : Inv kind (w.goto t pc') tr := by
    refine h.goto (fun u => by rw [hpc, hd]) fun u hu => ?_
    rw [ha'] at hu
    cases hu
    exact hv ha
  cases hr with
  | found hkind hs =>
    refine (h.lock (some t)).goto (fun v => by simp [hpc, Pc.drops]) fun u hu => ?_
    cases hu
    exact h.search_lt hs
  | created hload =>
    refine h.create _ ?_
    rw [hpc]
    rcases hload with rfl | rfl <;> rfl
  | refused hload =>
    refine h.goto (fun v => ?_) fun v hv => by cases hv
    rw [hpc]
    rcases hload with rfl | rfl <;> rfl
  | taken => exact (h.take hpc).unlock kind
  | dropped => exact h.drops (fun u => by rw [hpc]; rfl) (by simp [lost]) (fun _ _ => rfl) (hv rfl)
  | last => exact hgoto rfl (fun _ => rfl) rfl
  | busy hkind =>
    subst hkind
    refine h.drops (fun u => by rw [hpc]; rfl) ?_ (fun u hu => ?_) (hv rfl)
    · simp [lost, Event.loses]
    · simp [lost, Event.loses]
  | passed hone => exact hgoto rfl (fun _ => rfl) rfl
  | @locked v hkind =>
    have hcheck : Inv kind (w.goto t (.check v)) tr := hgoto rfl (fun _ => rfl) rfl
    exact hcheck.lock (some t)
  | withdrawn hkind hne =>
    subst hkind
    refine h.loses (fun u => by rw [hpc]; rfl) .emufs ?_ (fun u hu => ?_) (hv rfl)
    · simp [lost, Event.loses]
    · simp [lost, Event.loses, Ne.symm hu]
  | checked hkind => exact hgoto rfl (fun _ => rfl) rfl
  | killed hpc' hk =>
    refine h.kill (fun u => ?_) kind hk
    rw [hpc]
    rcases hpc' with rfl | rfl <;> rfl
  | failed hok =>
    refine h.loses (fun u => by rw [hpc]; rfl) kind ?_ (fun u hu => ?_) (hv rfl)
    · simp [lost, Event.loses]
    · simp [lost, Event.loses, Ne.symm hu]

theorem step (h : Inv kind w tr) {c : Choice ι} (hs : Moves kind w c w' es) : Inv kind w' (es ++ tr) := by
  cases hs with
  | load hpc => exact h.load hpc _
  | drop hpc hv => exact h.drop hpc hv
  | touch => exact h.touch _ _
  | run hr => exact h.run hr

end Inv

variable [DecidableEq ι] {ok : World ι → Choice ι → Prop}

theorem inv_of_reach (h : Machine.Reach (vnodes kind ι) ok w tr) : Inv kind w tr := by
  refine h.invariant (I := Inv kind) ?_ fun w w' c tr es _ hinv _ hs => hinv.step (step_moves hs)
  rintro w ⟨hsize, htable, -, hthread⟩
  constructor
  all_goals simp [hsize, htable, hthread, Pc.about, lost]

/-! ## Exact counts -/

omit [Fintype ι] in
theorem Runs.events {pc : Pc} {b : Bool} (hr : Runs kind w t b pc w' es) :
    es = [] ∨ (∃ v, es = [.killed t v]) ∨
    (∃ v, kind = .sfs ∧ es = [.ebusy t v] ∧ (w'.vnode v).vn_refcount = (w.vnode v).vn_refcount - 1) ∨
    (∃ v, pc = .check v ∧ (w.vnode v).vn_refcount ≠ 1 ∧ es = [.ebusy t v]) ∨
    ∃ v, pc = .discard v ∧ b = false ∧ es = [.failed t v] := by
  cases hr with
  | found | created | refused | taken | dropped | last | passed | locked | checked => exact .inl rfl
  | @busy v hkind => exact .inr (.inr (.inl ⟨v, hkind, rfl, by simp [World.goto, World.setCount]⟩))
  | @withdrawn v hkind hne => exact .inr (.inr (.inr (.inl ⟨v, rfl, hne, rfl⟩)))
  | @killed _ v _ _ hpc hk => exact .inr (.inl ⟨v, (kill_spec hk).2⟩)
  | @failed v hok => exact .inr (.inr (.inr (.inr ⟨v, rfl, hok, rfl⟩)))

omit [Fintype ι] in
theorem Moves.events {c : Choice ι} (hs : Moves kind w c w' es) :
    es = [] ∨ ∃ t b, c = .run t b ∧ Runs kind w t b (w.thread t).pc w' es := by
  cases hs with
  | drop | touch => exact .inl rfl
  | load =>
    left
    unfold Reclaim.load
    split
    · rfl
    · split <;> rfl
  | run hr => exact .inr ⟨_, _, rfl, hr⟩

def World.settles (w : World ι) (b : Bool) : Pc → Prop
  | .discard _ => b = true
  | .check v => (w.vnode v).vn_refcount = 1
  | _ => True

def Settles (w : World ι) : Choice ι → Prop
  | .run t b => w.settles b (w.thread t).pc
  | _ => True

omit [Fintype ι] in
theorem lost_of_settles {c : Choice ι} (hc : Settles w c) (hs : step kind w c = .ok (w', es)) (v : Nat) :
    lost kind v es = 0 := by
  rcases (step_moves hs).events with rfl | ⟨t, b, rfl, hr⟩
  · rfl
  · rcases hr.events with rfl | ⟨u, rfl⟩ | ⟨u, rfl, rfl, -⟩ | ⟨u, hpc, hne, -⟩ | ⟨u, hpc, hfails, -⟩
    · rfl
    · rfl
    · rfl
    all_goals rw [Settles, hpc] at hc
    · exact absurd hc hne
    · exact absurd (hfails.symm.trans hc) (by decide)

omit [Fintype ι] in
theorem lost_of_reach (h : Machine.Reach (vnodes kind ι) Settles w tr) (v : Nat) : lost kind v tr = 0 := by
  refine h.invariant (I := fun _ tr => lost kind v tr = 0) (fun _ _ => rfl) ?_
  intro w w' c tr es _ hzero hc hs
  rw [lost_append, lost_of_settles hc hs, hzero]

omit [DecidableEq ι] in
theorem owners_eq_refs (h : ∀ t, (w.thread t).pc.drops v = false) : owners w v = refs w v := by
  simp [owners, refs, total, Thread.owed, h]

theorem counts_exact (h : Machine.Reach (vnodes kind ι) Settles w tr) :
    ((∀ t v, (w.thread t).pc.drops v = false) →
      ∀ v < w.size, (w.vnode v).freed = false → (w.vnode v).vn_refcount = refs w v) ∧
    ∀ c w' es t v, Settles w c → step kind w c = .ok (w', es) → Event.ebusy t v ∈ es →
      (w'.vnode v).vn_refcount = (w.vnode v).vn_refcount - 1 := by
  constructor
  · intro hquiet v hv hlive
    have hcount := (inv_of_reach h).count v hv hlive
    rw [lost_of_reach h v, owners_eq_refs fun t => hquiet t v] at hcount
    simpa using hcount
  · intro c w' es t v hc hs hbusy
    rcases (step_moves hs).events with rfl | ⟨u, b, rfl, hr⟩
    · simp at hbusy
    · rcases hr.events with rfl | ⟨x, rfl⟩ | ⟨x, -, rfl, hdown⟩ | ⟨x, hpc, hne, -⟩ | ⟨x, hpc, hfails, rfl⟩
      · simp at hbusy
      · simp at hbusy
      · simp only [List.mem_singleton, Event.ebusy.injEq] at hbusy
        rw [hbusy.2]
        exact hdown
      · rw [Settles, hpc] at hc
        exact absurd hc hne
      · simp at hbusy

/-- A thread looks the vnode up while another one is about to reclaim it: `emufs_reclaim` backs off, and
the reference that was dropped stays in the count. -/
theorem emufs_reference_lost : ∃ w tr, Machine.Reach (vnodes .emufs (Fin 2)) Any w tr ∧
    (∀ t, (w.thread t).pc = .idle) ∧ Event.ebusy 0 0 ∈ tr ∧ (w.vnode 0).vn_refcount = 2 ∧ refs w 0 = 1 := by
  obtain ⟨w, tr, hr, hcheck⟩ := Machine.exists_runOk (M := vnodes .emufs (Fin 2))
    (s := ⟨fun _ => ⟨0, 0, false, false, false⟩, 0, [], none, fun _ => ⟨[], .idle⟩⟩) Any
    [.load 0 7, .run 0 true, .drop 0 0, .run 0 true, .load 1 7, .run 1 true, .run 1 true, .run 0 true, .run 0 true]
    (fun x => decide ((∀ t, (x.1.thread t).pc = .idle) ∧ Event.ebusy 0 0 ∈ x.2 ∧ (x.1.vnode 0).vn_refcount = 2 ∧
      refs x.1 0 = 1))
    ⟨rfl, rfl, rfl, fun _ => rfl⟩ (by decide +kernel)
  exact ⟨w, tr, hr, of_decide_eq_true hcheck⟩

end Runs

instance decidableSettlesAt {ι : Type} (w : World ι) (b : Bool) : (pc : Pc) → Decidable (w.settles b pc)
  | .discard _ => inferInstanceAs (Decidable (b = true))
  | .check v => inferInstanceAs (Decidable ((w.vnode v).vn_refcount = 1))
  | .idle | .load _ | .read _ | .incref _ | .decref _ | .reclaim _ => inferInstanceAs (Decidable True)

instance decidableSettles {ι : Type} (w : World ι) : (c : Choice ι) → Decidable (Settles w c)
  | .run t b => decidableSettlesAt w b (w.thread t).pc
  | .load _ _ | .drop _ _ | .touch _ _ _ _ => inferInstanceAs (Decidable True)

theorem counts_exact_sfs : ∃ w tr, Machine.Reach (vnodes .sfs (Fin 2)) Settles w tr ∧ Event.ebusy 0 0 ∈ tr ∧
    (w.vnode 0).vn_refcount = 1 ∧ refs w 0 = 1 := by
  obtain ⟨w, tr, hr, hcheck⟩ := Machine.exists_runOk (M := vnodes .sfs (Fin 2))
    (s := ⟨fun _ => ⟨0, 0, false, false, false⟩, 0, [], none, fun _ => ⟨[], .idle⟩⟩) Settles
    [.load 0 7, .run 0 true, .drop 0 0, .run 0 true, .load 1 7, .run 1 true, .run 0 true]
    (fun x => decide ((∀ t, (x.1.thread t).pc = .idle) ∧ Event.ebusy 0 0 ∈ x.2 ∧ x.1.size = 1 ∧
      (x.1.vnode 0).freed = false ∧ (x.1.vnode 0).vn_refcount = 1))
    ⟨rfl, rfl, rfl, fun _ => rfl⟩ (by decide +kernel)
  obtain ⟨hidle, hbusy, hsize, hlive, hone⟩ : (∀ t, (w.thread t).pc = .idle) ∧ Event.ebusy 0 0 ∈ tr ∧ w.size = 1 ∧
    (w.vnode 0).freed = false ∧ (w.vnode 0).vn_refcount = 1 := of_decide_eq_true hcheck
  have hexact := (counts_exact hr).1 (fun t v => by rw [hidle t]; rfl) 0 (by omega) hlive
  exact ⟨w, tr, hr, hbusy, hone, hexact ▸ hone⟩

end Os161.Reclaim
