import Mathlib.Tactic.Common

/-! # Programs with a state, errors and panics

A program changes a state, returns a value or an error, and can stop the machine. An error keeps
the state that the program reached, as an error code does in C. A panic keeps nothing.
-/

universe u

/-- A program with panics `π`, errors `ε` and state `σ`. -/
def Prog (π ε σ α : Type u) : Type u := σ → Except π (Except ε α × σ)

namespace Prog

variable {π ε σ τ α β : Type u}

protected def pure (a : α) : Prog π ε σ α := fun s => .ok (.ok a, s)

protected def bind (m : Prog π ε σ α) (f : α → Prog π ε σ β) : Prog π ε σ β := fun s =>
  match m s with
  | .ok (.ok a, t) => f a t
  | .ok (.error e, t) => .ok (.error e, t)
  | .error p => .error p

instance : Monad (Prog π ε σ) where
  pure := Prog.pure
  bind := Prog.bind

instance : MonadStateOf σ (Prog π ε σ) where
  get := fun s => .ok (.ok s, s)
  set t := fun _ => .ok (.ok ⟨⟩, t)
  modifyGet f := fun s => .ok (.ok (f s).1, (f s).2)

instance : MonadExceptOf ε (Prog π ε σ) where
  throw e := fun s => .ok (.error e, s)
  tryCatch m h := fun s =>
    match m s with
    | .ok (.error e, t) => h e t
    | r => r

def stop (p : π) : Prog π ε σ α := fun _ => .error p

def ensure (c : Prop) [Decidable c] (p : π) : Prog π ε σ PUnit :=
  if c then Prog.pure ⟨⟩ else stop p

/-- Runs `m` and hands its error to the caller as a value. -/
def attempt (m : Prog π ε σ α) : Prog π ε σ (Except ε α) := fun s =>
  match m s with
  | .ok (r, t) => .ok (.ok r, t)
  | .error p => .error p

def finish (r : Except ε α) : Prog π ε σ α := fun s => .ok (r, s)

def zoom (read : σ → τ) (write : τ → σ → σ) (m : Prog π ε τ α) : Prog π ε σ α := fun s =>
  match m (read s) with
  | .ok (r, t) => .ok (r, write t s)
  | .error p => .error p

def first (m : Prog π ε σ α) : Prog π ε (σ × τ) α := zoom Prod.fst (fun s u => (s, u.2)) m

def second (m : Prog π ε τ α) : Prog π ε (σ × τ) α := zoom Prod.snd (fun t u => (u.1, t)) m

def withVar (t : τ) (m : Prog π ε (σ × τ) α) : Prog π ε σ (α × τ) := fun s =>
  match m (s, t) with
  | .ok (.ok a, (s', t')) => .ok (.ok (a, t'), s')
  | .ok (.error e, (s', _)) => .ok (.error e, s')
  | .error p => .error p

/-! ## One equation for each -/

section Run

variable (s : σ)

@[simp] theorem pure_run (a : α) : (Pure.pure a : Prog π ε σ α) s = .ok (.ok a, s) := rfl

@[simp] theorem map_run (f : α → β) (m : Prog π ε σ α) :
    (f <$> m) s = (m >>= fun a => Pure.pure (f a)) s := rfl

@[simp] theorem get_run : (get : Prog π ε σ σ) s = .ok (.ok s, s) := rfl

@[simp] theorem getThe_run : (getThe σ : Prog π ε σ σ) s = .ok (.ok s, s) := rfl

@[simp] theorem set_run (t : σ) : (set t : Prog π ε σ PUnit) s = .ok (.ok ⟨⟩, t) := rfl

@[simp] theorem modify_run (f : σ → σ) : (modify f : Prog π ε σ PUnit) s = .ok (.ok ⟨⟩, f s) := rfl

@[simp] theorem throw_run (e : ε) : (throw e : Prog π ε σ α) s = .ok (.error e, s) := rfl

@[simp] theorem stop_run (p : π) : (stop p : Prog π ε σ α) s = .error p := rfl

@[simp] theorem finish_run (r : Except ε α) : (finish r : Prog π ε σ α) s = .ok (r, s) := rfl

theorem bind_run (m : Prog π ε σ α) (f : α → Prog π ε σ β) :
    (m >>= f) s = match m s with
      | .ok (.ok a, t) => f a t
      | .ok (.error e, t) => .ok (.error e, t)
      | .error p => .error p := rfl

theorem ensure_run (c : Prop) [Decidable c] (p : π) (h : c) :
    (ensure c p : Prog π ε σ PUnit) s = .ok (.ok ⟨⟩, s) := by
  simp [ensure, h]; rfl

theorem ensure_fails (c : Prop) [Decidable c] (p : π) (h : ¬ c) :
    (ensure c p : Prog π ε σ PUnit) s = .error p := by
  rw [ensure, if_neg h, stop_run]

variable {s}

theorem bind_ok {m : Prog π ε σ α} {f : α → Prog π ε σ β} {a : α} {t : σ} (h : m s = .ok (.ok a, t)) :
    (m >>= f) s = f a t := by
  rw [bind_run, h]

theorem bind_error {m : Prog π ε σ α} {f : α → Prog π ε σ β} {e : ε} {t : σ}
    (h : m s = .ok (.error e, t)) : (m >>= f) s = .ok (.error e, t) := by
  rw [bind_run, h]

theorem bind_panic {m : Prog π ε σ α} {f : α → Prog π ε σ β} {p : π} (h : m s = .error p) :
    (m >>= f) s = .error p := by
  rw [bind_run, h]

theorem bind_eq_ok {m : Prog π ε σ α} {f : α → Prog π ε σ β} {b : β} {t : σ} :
    (m >>= f) s = .ok (.ok b, t) ↔ ∃ a u, m s = .ok (.ok a, u) ∧ f a u = .ok (.ok b, t) := by
  rw [bind_run]
  constructor
  · intro h
    split at h
    · rename_i a u hm
      exact ⟨a, u, hm, h⟩
    · cases h
    · cases h
  · rintro ⟨a, u, hm, hf⟩
    rw [hm]
    exact hf

theorem bind_eq_error {m : Prog π ε σ α} {f : α → Prog π ε σ β} {e : ε} {t : σ} :
    (m >>= f) s = .ok (.error e, t) ↔
      m s = .ok (.error e, t) ∨ ∃ a u, m s = .ok (.ok a, u) ∧ f a u = .ok (.error e, t) := by
  rw [bind_run]
  split <;> rename_i hm <;> simp [hm]

theorem pure_eq_ok {a b : α} {t : σ} : (Pure.pure a : Prog π ε σ α) s = .ok (.ok b, t) ↔ b = a ∧ t = s := by
  rw [pure_run]
  constructor
  · rintro ⟨⟩; exact ⟨rfl, rfl⟩
  · rintro ⟨rfl, rfl⟩; rfl

theorem pure_ne_error {a : α} {e : ε} {t : σ} :
    (Pure.pure a : Prog π ε σ α) s = .ok (.error e, t) ↔ False := by
  simp

theorem attempt_eq_ok {m : Prog π ε σ α} {r : Except ε α} {t : σ} :
    attempt m s = .ok (.ok r, t) ↔ m s = .ok (r, t) := by
  rw [attempt]
  split <;> rename_i hm <;> simp [hm]

theorem attempt_ok {m : Prog π ε σ α} {r : Except ε α} {t : σ} (h : m s = .ok (r, t)) :
    attempt m s = .ok (.ok r, t) := by
  rw [attempt, h]

theorem zoom_ok {read : σ → τ} {write : τ → σ → σ} {m : Prog π ε τ α} {r : Except ε α} {t : τ}
    (h : m (read s) = .ok (r, t)) : zoom read write m s = .ok (r, write t s) := by
  rw [zoom, h]

theorem first_ok {m : Prog π ε σ α} {r : Except ε α} {s' : σ} {u : τ} (h : m s = .ok (r, s')) :
    first m (s, u) = .ok (r, (s', u)) := by
  rw [first, zoom_ok h]

theorem second_ok {m : Prog π ε τ α} {r : Except ε α} {u u' : τ} (h : m u = .ok (r, u')) :
    second m (s, u) = .ok (r, (s, u')) := by
  rw [second, zoom_ok h]

theorem withVar_ok {m : Prog π ε (σ × τ) α} {t t' : τ} {a : α} {s' : σ}
    (h : m (s, t) = .ok (.ok a, (s', t'))) : withVar t m s = .ok (.ok (a, t'), s') := by
  rw [withVar, h]

theorem withVar_error {m : Prog π ε (σ × τ) α} {t t' : τ} {e : ε} {s' : σ}
    (h : m (s, t) = .ok (.error e, (s', t'))) : withVar t m s = .ok (.error e, s') := by
  rw [withVar, h]

theorem withVar_panic {m : Prog π ε (σ × τ) α} {t : τ} {p : π} (h : m (s, t) = .error p) :
    withVar t m s = .error p := by
  rw [withVar, h]

end Run

/-! ## What a run ends in -/

/-- A run of `m` from `s` ends with a result and a state in `Q`, or in a panic that `X` allows. -/
inductive Holds (X : π → Prop) (m : Prog π ε σ α) (s : σ) (Q : Except ε α → σ → Prop) : Prop where
  | done {r : Except ε α} {t : σ} (run : m s = .ok (r, t)) (post : Q r t)
  | panic {p : π} (run : m s = .error p) (allowed : X p)

section Rules

variable {X Y : π → Prop} {m : Prog π ε σ α} {s t : σ} {Q R : Except ε α → σ → Prop}

theorem holds_of_run {r : Except ε α} (h : m s = .ok (r, t)) (hq : Q r t) : Holds X m s Q := .done h hq

theorem holds_pure {a : α} (h : Q (.ok a) s) : Holds X (Pure.pure a) s Q := .done rfl h

theorem holds_throw {e : ε} (h : Q (.error e) s) : Holds X (throw e) s Q := .done rfl h

theorem holds_stop {p : π} (h : X p) : Holds X (stop p : Prog π ε σ α) s Q := .panic rfl h

theorem Holds.mono (h : Holds X m s Q) (hq : ∀ r t, Q r t → R r t) (hx : ∀ p, X p → Y p) :
    Holds Y m s R := by
  cases h with
  | done run post => exact .done run (hq _ _ post)
  | panic run allowed => exact .panic run (hx _ allowed)

theorem Holds.imp (h : Holds X m s Q) (hq : ∀ r t, Q r t → R r t) : Holds X m s R :=
  h.mono hq fun _ => id

theorem Holds.exists (h : Holds (fun _ : π => False) m s Q) : ∃ r t, m s = .ok (r, t) ∧ Q r t := by
  cases h with
  | done run post => exact ⟨_, _, run, post⟩
  | panic run allowed => exact allowed.elim

theorem Holds.post {r : Except ε α} (h : Holds X m s Q) (run : m s = .ok (r, t)) : Q r t := by
  cases h with
  | done run' post =>
    obtain ⟨rfl, rfl⟩ := Prod.mk.inj (Except.ok.inj (run.symm.trans run'))
    exact post
  | panic run' _ => cases run.symm.trans run'

/-- The rule of composition: an error of `m` ends the run. -/
theorem Holds.bind {f : α → Prog π ε σ β} {P : Except ε β → σ → Prop} (hm : Holds X m s Q)
    (hok : ∀ a t, Q (.ok a) t → Holds X (f a) t P) (herr : ∀ e t, Q (.error e) t → P (.error e) t) :
    Holds X (m >>= f) s P := by
  cases hm with
  | @done r t run post =>
    cases r with
    | ok a =>
      cases hok a t post with
      | done run' post' => exact .done ((bind_ok run).trans run') post'
      | panic run' allowed => exact .panic ((bind_ok run).trans run') allowed
    | error e => exact .done (bind_error run) (herr e t post)
  | panic run allowed => exact .panic (by rw [bind_run, run]) allowed

theorem Holds.bind_done {m : Prog π ε σ PUnit} {f : PUnit → Prog π ε σ β} {P : Except ε β → σ → Prop} {R : σ → Prop}
    (hm : Holds X m s fun r t => r = .ok ⟨⟩ ∧ R t) (hf : ∀ t, R t → Holds X (f ⟨⟩) t P) :
    Holds X (m >>= f) s P :=
  hm.bind (fun _ t ht => hf t ht.2) fun _ _ ht => by cases ht.1

theorem holds_bind_run {f : α → Prog π ε σ β} {P : Except ε β → σ → Prop} {a : α}
    (h : m s = .ok (.ok a, t)) (hp : Holds X (f a) t P) : Holds X (m >>= f) s P := by
  cases hp with
  | done run post => exact .done ((bind_ok h).trans run) post
  | panic run allowed => exact .panic ((bind_ok h).trans run) allowed

theorem holds_ensure {c : Prop} [Decidable c] {p : π} {P : Except ε PUnit → σ → Prop} (hx : c ∨ X p)
    (h : c → P (.ok ⟨⟩) s) : Holds X (ensure c p) s P := by
  by_cases hc : c
  · exact .done (ensure_run s c p hc) (h hc)
  · exact .panic (ensure_fails s c p hc) (hx.resolve_left hc)

theorem holds_ensure_bind {c : Prop} [Decidable c] {p : π} {f : PUnit → Prog π ε σ β}
    {P : Except ε β → σ → Prop} (hx : c ∨ X p) (hf : c → Holds X (f ⟨⟩) s P) :
    Holds X (ensure c p >>= f) s P := by
  by_cases hc : c
  · exact holds_bind_run (ensure_run s c p hc) (hf hc)
  · exact .panic (by rw [bind_run, ensure_fails s c p hc]) (hx.resolve_left hc)

theorem Holds.attempt {P : Except ε (Except ε α) → σ → Prop} (h : Holds X m s Q)
    (hp : ∀ r t, Q r t → P (.ok r) t) : Holds X (attempt m) s P := by
  cases h with
  | done run post => exact .done (attempt_ok run) (hp _ _ post)
  | panic run allowed => exact .panic (by rw [Prog.attempt, run]) allowed

theorem Holds.bind_attempt {f : Except ε α → Prog π ε σ β} {P : Except ε β → σ → Prop} (h : Holds X m s Q)
    (hf : ∀ r t, Q r t → Holds X (f r) t P) : Holds X (Prog.attempt m >>= f) s P :=
  (h.attempt (P := fun r t => ∃ r', r = .ok r' ∧ Q r' t) fun r _ hq => ⟨r, rfl, hq⟩).bind
    (fun r t ⟨r', hr, hq⟩ => by cases hr; exact hf r t hq) fun _ _ ⟨_, hr, _⟩ => nomatch hr

theorem Holds.zoom {read : τ → σ} {write : σ → τ → τ} {u : τ} {P : Except ε α → τ → Prop}
    (h : Holds X m (read u) Q) (hp : ∀ r t, Q r t → P r (write t u)) :
    Holds X (zoom read write m) u P := by
  cases h with
  | done run post => exact .done (zoom_ok run) (hp _ _ post)
  | panic run allowed => exact .panic (by rw [Prog.zoom, run]) allowed

theorem Holds.first {u : τ} {P : Except ε α → σ × τ → Prop} (h : Holds X m s Q)
    (hp : ∀ r t, Q r t → P r (t, u)) : Holds X (first m) (s, u) P := h.zoom hp

theorem Holds.second {u : τ} {P : Except ε α → τ × σ → Prop} (h : Holds X m s Q)
    (hp : ∀ r t, Q r t → P r (u, t)) : Holds X (second m) (u, s) P := h.zoom hp

theorem Holds.withVar {m : Prog π ε (σ × τ) α} {u : τ} {Q : Except ε α → σ × τ → Prop}
    {P : Except ε (α × τ) → σ → Prop} (h : Holds X m (s, u) Q)
    (hok : ∀ a t, Q (.ok a) t → P (.ok (a, t.2)) t.1)
    (herr : ∀ e t, Q (.error e) t → P (.error e) t.1) : Holds X (withVar u m) s P := by
  cases h with
  | @done r t run post =>
    cases r with
    | ok a => exact .done (withVar_ok run) (hok a t post)
    | error e => exact .done (withVar_error run) (herr e t post)
  | panic run allowed => exact .panic (by rw [Prog.withVar, run]) allowed

end Rules

theorem Holds.and {X Y : π → Prop} {m : Prog π ε σ α} {s : σ} {Q R : Except ε α → σ → Prop}
    (h : Holds X m s Q) (h' : Holds Y m s R) : Holds X m s fun r t => Q r t ∧ R r t := by
  cases h with
  | done run post => exact .done run ⟨post, h'.post run⟩
  | panic run allowed => exact .panic run allowed

/-! ## What a program keeps -/

/-- Wherever a run of `m` ends, the part `f` of the state is what it was. -/
def Keeps {γ : Type*} (f : σ → γ) (m : Prog π ε σ α) : Prop :=
  ∀ s, Holds (fun _ => True) m s fun _ t => f t = f s

section Keeps

variable {γ : Type*} {f : σ → γ} {m : Prog π ε σ α}

theorem keeps_pure (a : α) : Keeps f (Pure.pure a : Prog π ε σ α) := fun _ => holds_pure rfl

theorem keeps_throw (e : ε) : Keeps f (throw e : Prog π ε σ α) := fun _ => holds_throw rfl

theorem keeps_get : Keeps f (get : Prog π ε σ σ) := fun s => holds_of_run (get_run s) rfl

theorem keeps_ensure (c : Prop) [Decidable c] (p : π) : Keeps f (ensure c p : Prog π ε σ PUnit) :=
  fun _ => holds_ensure (.inr trivial) fun _ => rfl

theorem Keeps.bind {k : α → Prog π ε σ β} (hm : Keeps f m) (hk : ∀ a, Keeps f (k a)) : Keeps f (m >>= k) := by
  intro s
  refine (hm s).bind (fun a t ht => ?_) fun _ _ ht => ht
  exact (hk a t).imp fun _ _ hu => hu.trans ht

end Keeps

/-! ## Runs that can be evaluated -/

def ends (r : Except π (Except ε α × σ)) (check : Except ε α → σ → Bool) : Bool :=
  match r with
  | .ok (a, s) => check a s
  | .error _ => false

theorem ends_iff {r : Except π (Except ε α × σ)} {check : Except ε α → σ → Bool} :
    ends r check = true ↔ ∃ a s, r = .ok (a, s) ∧ check a s = true := by
  cases r with
  | ok x =>
    obtain ⟨a, s⟩ := x
    simp [ends]
  | error p => simp [ends]

def stops [DecidableEq π] (r : Except π (Except ε α × σ)) (p : π) : Bool :=
  match r with
  | .ok _ => false
  | .error q => decide (q = p)

theorem stops_iff [DecidableEq π] {r : Except π (Except ε α × σ)} {p : π} : stops r p = true ↔ r = .error p := by
  cases r with
  | ok x => simp [stops]
  | error q => simp [stops]

end Prog
