import Os161.Lib.Lts
import Os161.Lib.Tally

/-! # `dev/generic/console.c` over `dev/lamebus/lser.c` -/

namespace Os161.Console

open Machine Tally

/-! ## The driver -/

structure Softc where
  cs_wsem : Nat
  cs_rsem : Nat
  cs_gotchar : Nat
  ls_wbusy : Bool
  /-- The active bits of the two interrupt registers; both stay enabled. -/
  wirq_active : Bool
  rirq_active : Bool
  sending : Bool
  typed : Nat

def con_input (cs : Softc) (ch : Nat) : Softc := { cs with cs_gotchar := ch, cs_rsem := cs.cs_rsem + 1 }

def con_start (cs : Softc) : Softc := { cs with cs_wsem := cs.cs_wsem + 1 }

def lser_irq (cs : Softc) : Softc :=
  let clear_to_write := cs.wirq_active
  let got_a_read := cs.rirq_active
  let ch := cs.typed
  let cs := if clear_to_write then { cs with ls_wbusy := false, wirq_active := false } else cs
  let cs := if got_a_read then { cs with rirq_active := false } else cs
  let cs := if clear_to_write then con_start cs else cs
  if got_a_read then con_input cs ch else cs

inductive Place where
  | out
  | waits_send (ch : Nat)
  | sends (ch : Nat)
  | waits_char
  | reads
  deriving DecidableEq, Repr

inductive Polled where
  | begins (ch : Nat)
  | spins (ch : Nat)
  | sends (ch : Nat) (irqpending : Bool)
  | ends (irqpending : Bool)
  deriving DecidableEq, Repr

structure World (ι : Type) where
  cs : Softc
  place : ι → Place
  polled : Option Polled

inductive Event (ι : Type) where
  | putch (src : Option ι) (ch : Nat)
  | sent (src : Option ι) (ch : Nat)
  /-- The device has not sent the last character yet. -/
  | collided (src : Option ι) (ch : Nat)
  | input (ch : Nat)
  | getch (t : ι) (ch : Nat)
  deriving DecidableEq, Repr

inductive Stop where
  | blocked
  /-- `lser: Not clear to write`. -/
  | not_clear
  deriving DecidableEq, Repr

inductive Choice (ι : Type) where
  | putch (t : ι) (ch : Nat)
  | putch_polled (ch : Nat)
  | getch (t : ι)
  | run (t : ι)
  | poll
  | ready
  | typed (ch : Nat)
  | irq
  deriving DecidableEq, Repr

section

variable {ι : Type} [DecidableEq ι]

def store (cs : Softc) (src : Option ι) (ch : Nat) : Softc × List (Event ι) :=
  ({ cs with sending := true }, if cs.sending then [.collided src ch] else [.sent src ch])

def lser_write (cs : Softc) (src : Option ι) (ch : Nat) : Except Stop (Softc × List (Event ι)) :=
  if cs.ls_wbusy then .error .not_clear else .ok (store { cs with ls_wbusy := true } src ch)

def World.next (w : World ι) (t : ι) (cs : Softc) (p : Place) : World ι :=
  { w with cs := cs, place := Function.update w.place t p }

def run (w : World ι) (t : ι) : Except Stop (World ι × List (Event ι)) :=
  match w.place t with
  | .out => .error .blocked
  | .waits_send ch =>
    if 0 < w.cs.cs_wsem then .ok (w.next t { w.cs with cs_wsem := w.cs.cs_wsem - 1 } (.sends ch), [])
    else .error .blocked
  | .sends ch => (lser_write w.cs (some t) ch).map fun (cs, es) => (w.next t cs .out, es)
  | .waits_char =>
    if 0 < w.cs.cs_rsem then .ok (w.next t { w.cs with cs_rsem := w.cs.cs_rsem - 1 } .reads, [])
    else .error .blocked
  | .reads => .ok (w.next t w.cs .out, [.getch t w.cs.cs_gotchar])

def poll (w : World ι) : Polled → Except Stop (World ι × List (Event ι))
  | .begins ch =>
    if w.cs.ls_wbusy then .ok ({ w with polled := some (.spins ch) }, [])
    else .ok ({ w with polled := some (.sends ch false) }, [])
  | .spins ch =>
    if w.cs.wirq_active then
      .ok ({ w with cs := { w.cs with wirq_active := false }, polled := some (.sends ch true) }, [])
    else .error .blocked
  | .sends ch irqpending =>
    let (cs, es) := store w.cs none ch
    .ok ({ w with cs := cs, polled := some (.ends irqpending) }, es)
  | .ends irqpending =>
    if w.cs.wirq_active then
      .ok ({ w with cs := if irqpending then w.cs else { w.cs with wirq_active := false }, polled := none }, [])
    else .error .blocked

def step (w : World ι) : Choice ι → Except Stop (World ι × List (Event ι))
  | .putch t ch =>
    if w.polled = none ∧ w.place t = .out then .ok (w.next t w.cs (.waits_send ch), [.putch (some t) ch])
    else .error .blocked
  | .putch_polled ch =>
    if w.polled = none then .ok ({ w with polled := some (.begins ch) }, [.putch none ch])
    else .error .blocked
  | .getch t =>
    if w.polled = none ∧ w.place t = .out then .ok (w.next t w.cs .waits_char, []) else .error .blocked
  | .run t => if w.polled = none then run w t else .error .blocked
  | .poll =>
    match w.polled with
    | none => .error .blocked
    | some p => poll w p
  | .ready =>
    if w.cs.sending then .ok ({ w with cs := { w.cs with sending := false, wirq_active := true } }, [])
    else .error .blocked
  | .typed ch => .ok ({ w with cs := { w.cs with typed := ch, rirq_active := true } }, [])
  | .irq =>
    if w.polled = none then
      .ok ({ w with cs := lser_irq w.cs }, if w.cs.rirq_active then [.input w.cs.typed] else [])
    else .error .blocked

def console (ι : Type) [DecidableEq ι] : Machine (World ι) (Choice ι) (Event ι) Stop where
  init w := w.cs.cs_wsem = 1 ∧ w.cs.cs_rsem = 0 ∧ w.cs.ls_wbusy = false ∧ w.cs.wirq_active = false ∧
    w.cs.rirq_active = false ∧ w.cs.sending = false ∧ (∀ t, w.place t = .out) ∧ w.polled = none
  step := step

end

/-! ## What is printed -/

section Printed

variable {ι : Type} [DecidableEq ι]

def Event.putBy (src : Option ι) : Event ι → Option Nat
  | .putch s ch => if s = src then some ch else none
  | _ => none

def Event.sentBy (src : Option ι) : Event ι → Option Nat
  | .sent s ch => if s = src then some ch else none
  | _ => none

def passed (src : Option ι) (tr : List (Event ι)) : List Nat := tr.reverse.filterMap (·.putBy src)

def sent (src : Option ι) (tr : List (Event ι)) : List Nat := tr.reverse.filterMap (·.sentBy src)

def Place.pending : Place → List Nat
  | .waits_send ch | .sends ch => [ch]
  | _ => []

def Polled.pending : Polled → List Nat
  | .begins ch | .spins ch | .sends ch _ => [ch]
  | .ends _ => []

def World.pending (w : World ι) : Option ι → List Nat
  | some t => (w.place t).pending
  | none => w.polled.elim [] (·.pending)

variable {tr : List (Event ι)} {w w' : World ι} {t : ι} {cs : Softc} {p : Place}

@[simp] theorem passed_cons (src : Option ι) (e : Event ι) :
    passed src (e :: tr) = passed src tr ++ (e.putBy src).toList := by
  cases h : e.putBy src <;> simp [passed, h]

@[simp] theorem sent_cons (src : Option ι) (e : Event ι) :
    sent src (e :: tr) = sent src tr ++ (e.sentBy src).toList := by
  cases h : e.sentBy src <;> simp [sent, h]

@[simp] theorem pending_next (src : Option ι) :
    (w.next t cs p).pending src = if src = some t then p.pending else w.pending src := by
  cases src with
  | none => rfl
  | some u =>
    by_cases hu : u = t
    · subst hu; simp [World.pending, World.next]
    · simp [World.pending, World.next, hu]

end Printed

/-! ## One character at a time -/

def Place.isSends : Place → Bool
  | .sends _ => true
  | _ => false

def Device (cs : Softc) : Option Polled → Prop
  | none | some (.begins _) => cs.ls_wbusy.toNat = cs.sending.toNat + cs.wirq_active.toNat
  | some (.spins _) => cs.ls_wbusy = true ∧ cs.sending.toNat + cs.wirq_active.toNat = 1
  | some (.sends _ irqpending) => irqpending = cs.ls_wbusy ∧ cs.sending = false ∧ cs.wirq_active = false
  | some (.ends irqpending) => irqpending = cs.ls_wbusy ∧ cs.sending.toNat + cs.wirq_active.toNat = 1

section Runs

variable {ι : Type} [Fintype ι] [DecidableEq ι] {w w' : World ι} {tr es : List (Event ι)} {t : ι} {ch : Nat}

structure Inv (w : World ι) (tr : List (Event ι)) : Prop where
  clear : w.cs.cs_wsem + w.cs.ls_wbusy.toNat + tally Place.isSends w.place = 1
  device : Device w.cs w.polled
  printed : ∀ src, passed src tr = sent src tr ++ w.pending src
  apart : ∀ src ch, Event.collided src ch ∉ tr

namespace Inv

theorem not_busy (h : Inv w tr) (ht : w.place t = .sends ch) : w.cs.ls_wbusy = false := by
  have hpos : 0 < tally Place.isSends w.place := tally_pos (t := t) (by rw [ht]; rfl)
  have := h.clear
  cases hb : w.cs.ls_wbusy with
  | false => rfl
  | true =>
    rw [hb] at this
    simp at this
    omega

theorem moves (h : Inv w tr) {cs : Softc} {p : Place}
    (hclear : cs.cs_wsem + cs.ls_wbusy.toNat + p.isSends.toNat =
      w.cs.cs_wsem + w.cs.ls_wbusy.toNat + (w.place t).isSends.toNat)
    (hdevice : Device cs w.polled)
    (hprinted : passed (some t) (es ++ tr) = sent (some t) (es ++ tr) ++ p.pending)
    (hothers : ∀ src ≠ some t, passed src (es ++ tr) = passed src tr ∧ sent src (es ++ tr) = sent src tr)
    (hapart : ∀ src ch, Event.collided src ch ∉ es) : Inv (w.next t cs p) (es ++ tr) := by
  constructor
  case clear =>
    have := h.clear
    have := tally_update Place.isSends w.place t p
    simp only [World.next]
    omega
  case device => exact hdevice
  case printed =>
    intro src
    rw [pending_next]
    by_cases hs : src = some t
    · rw [if_pos hs, hs, hprinted]
    · rw [if_neg hs, (hothers src hs).1, (hothers src hs).2, h.printed]
  case apart =>
    intro src ch
    rw [List.mem_append, not_or]
    exact ⟨hapart src ch, h.apart src ch⟩

theorem putch (h : Inv w tr) (ht : w.place t = .out) (ch : Nat) :
    Inv (w.next t w.cs (.waits_send ch)) ([.putch (some t) ch] ++ tr) := by
  have hprinted := h.printed (some t)
  simp only [World.pending, ht, Place.pending, List.append_nil] at hprinted
  refine h.moves (by rw [ht]; rfl) h.device ?_ (fun src hs => ?_) (by simp)
  · simp [Event.putBy, Event.sentBy, Place.pending, hprinted]
  · simp [Event.putBy, Event.sentBy, Ne.symm hs]

theorem getch (h : Inv w tr) (ht : w.place t = .out) : Inv (w.next t w.cs .waits_char) ([] ++ tr) := by
  have hprinted := h.printed (some t)
  simp only [World.pending, ht, Place.pending, List.append_nil] at hprinted
  exact h.moves (by rw [ht]; rfl) h.device (by simpa [Place.pending] using hprinted) (fun _ _ => ⟨rfl, rfl⟩) (by simp)

theorem run (h : Inv w tr) (hp : w.polled = none) (hr : run w t = .ok (w', es)) : Inv w' (es ++ tr) := by
  have hprinted := h.printed (some t)
  unfold Console.run at hr
  cases ht : w.place t
  all_goals simp only [ht, World.pending, Place.pending, List.append_nil] at hr hprinted
  case out => cases hr
  case waits_send ch =>
    split at hr
    · rename_i hpos
      cases hr
      refine h.moves ?_ h.device hprinted (fun _ _ => ⟨rfl, rfl⟩) (by simp)
      simp [ht, Place.isSends]
      omega
    · cases hr
  case sends ch =>
    have hbusy := h.not_busy ht
    have hdevice := h.device
    rw [hp, Device, hbusy] at hdevice
    obtain ⟨hidle, hactive⟩ : w.cs.sending = false ∧ w.cs.wirq_active = false := by
      cases hs : w.cs.sending <;> cases ha : w.cs.wirq_active <;> simp [hs, ha] at hdevice ⊢
    simp only [lser_write, hbusy, store, hidle] at hr
    cases hr
    refine h.moves ?_ ?_ ?_ (fun src hs => ?_) (by simp)
    · simp [ht, hbusy, Place.isSends]
    · simp [hp, Device, hactive]
    · simp [Event.putBy, Event.sentBy, Place.pending, hprinted]
    · simp [Event.putBy, Event.sentBy, Ne.symm hs]
  case waits_char =>
    split at hr
    · cases hr
      exact h.moves (by simp [ht, Place.isSends]) h.device (by simpa [Place.pending] using hprinted)
        (fun _ _ => ⟨rfl, rfl⟩) (by simp)
    · cases hr
  case reads =>
    cases hr
    refine h.moves (by simp [ht, Place.isSends]) h.device ?_ (fun src hs => ?_) (by simp)
    · simp [Event.putBy, Event.sentBy, Place.pending, hprinted]
    · simp [Event.putBy, Event.sentBy]

theorem changes (h : Inv w tr) {cs : Softc} {polled : Option Polled}
    (hclear : cs.cs_wsem + cs.ls_wbusy.toNat = w.cs.cs_wsem + w.cs.ls_wbusy.toNat) (hdevice : Device cs polled)
    (hprinted : passed none (es ++ tr) = sent none (es ++ tr) ++ polled.elim [] (·.pending))
    (hothers : ∀ t, passed (some t) (es ++ tr) = passed (some t) tr ∧ sent (some t) (es ++ tr) = sent (some t) tr)
    (hapart : ∀ src ch, Event.collided src ch ∉ es) : Inv ⟨cs, w.place, polled⟩ (es ++ tr) := by
  constructor
  case clear =>
    have := h.clear
    simp only
    omega
  case device => exact hdevice
  case printed =>
    intro src
    cases src with
    | none => exact hprinted
    | some t =>
      rw [(hothers t).1, (hothers t).2]
      exact h.printed (some t)
  case apart =>
    intro src ch
    rw [List.mem_append, not_or]
    exact ⟨hapart src ch, h.apart src ch⟩

theorem putch_polled (h : Inv w tr) (hp : w.polled = none) (ch : Nat) :
    Inv { w with polled := some (.begins ch) } ([.putch none ch] ++ tr) := by
  have hprinted := h.printed none
  have hdevice := h.device
  rw [hp] at hdevice
  simp only [World.pending, hp, Option.elim_none, List.append_nil] at hprinted
  refine h.changes rfl hdevice ?_ (fun t => ?_) (by simp)
  · simp [Event.putBy, Event.sentBy, Polled.pending, hprinted]
  · simp [Event.putBy, Event.sentBy]

theorem poll (h : Inv w tr) {p : Polled} (hp : w.polled = some p) (hr : poll w p = .ok (w', es)) :
    Inv w' (es ++ tr) := by
  have hprinted := h.printed none
  have hdevice := h.device
  rw [hp] at hdevice
  unfold Console.poll at hr
  cases p
  all_goals simp only [World.pending, hp, Option.elim_some, Polled.pending, List.append_nil, Device] at hr hprinted hdevice
  case begins ch =>
    split at hr
    · rename_i hbusy
      cases hr
      refine h.changes rfl ⟨hbusy, ?_⟩ (by simpa [Polled.pending] using hprinted) (fun _ => ⟨rfl, rfl⟩) (by simp)
      rw [← hdevice, hbusy]
      rfl
    · rename_i hbusy
      have hbusy : w.cs.ls_wbusy = false := by simpa using hbusy
      cases hr
      rw [hbusy] at hdevice
      refine h.changes rfl ?_ (by simpa [Polled.pending] using hprinted) (fun _ => ⟨rfl, rfl⟩) (by simp)
      cases hs : w.cs.sending <;> cases ha : w.cs.wirq_active <;> simp [hs, ha, hbusy, Device] at hdevice ⊢
  case spins ch =>
    obtain ⟨hbusy, hone⟩ := hdevice
    split at hr
    · rename_i hactive
      cases hr
      refine h.changes rfl ?_ (by simpa [Polled.pending] using hprinted) (fun _ => ⟨rfl, rfl⟩) (by simp)
      cases hs : w.cs.sending <;> simp [hs, hactive, hbusy, Device] at hone ⊢
    · cases hr
  case sends ch irqpending =>
    obtain ⟨hpending, hidle, hactive⟩ := hdevice
    simp only [store, hidle] at hr
    cases hr
    refine h.changes rfl ⟨hpending, by simp [hactive]⟩ ?_ (fun t => ?_) (by simp)
    · simp [Event.putBy, Event.sentBy, Polled.pending, hprinted]
    · simp [Event.putBy, Event.sentBy]
  case ends irqpending =>
    obtain ⟨hpending, hone⟩ := hdevice
    split at hr
    · rename_i hactive
      cases hr
      refine h.changes ?_ ?_ (by simpa using hprinted) (fun _ => ⟨rfl, rfl⟩) (by simp)
      · split <;> rfl
      · cases hs : w.cs.sending <;> simp [hs, hactive, Device] at hone ⊢
        split <;> simp_all
    · cases hr

theorem ready (h : Inv w tr) (hs : w.cs.sending = true) :
    Inv { w with cs := { w.cs with sending := false, wirq_active := true } } ([] ++ tr) := by
  have hdevice := h.device
  have hle := Bool.toNat_le w.cs.ls_wbusy
  refine h.changes rfl ?_ (h.printed none) (fun _ => ⟨rfl, rfl⟩) (by simp)
  rcases hp : w.polled with _ | ⟨_ | _ | _ | _⟩
  all_goals simp only [hp, Device, hs] at hdevice ⊢
  all_goals cases ha : w.cs.wirq_active <;> simp_all

theorem typed (h : Inv w tr) (ch : Nat) :
    Inv { w with cs := { w.cs with typed := ch, rirq_active := true } } ([] ++ tr) :=
  h.changes rfl h.device (h.printed none) (fun _ => ⟨rfl, rfl⟩) (by simp)

theorem irq (h : Inv w tr) (hp : w.polled = none) :
    Inv { w with cs := lser_irq w.cs } ((if w.cs.rirq_active then [.input w.cs.typed] else []) ++ tr) := by
  have hdevice := h.device
  rw [hp, Device] at hdevice
  have hprinted : passed none tr = sent none tr ++ w.polled.elim [] (·.pending) := h.printed none
  refine h.changes ?_ ?_ ?_ (fun t => ?_) ?_
  · cases ha : w.cs.wirq_active <;> cases hr : w.cs.rirq_active <;> cases hb : w.cs.ls_wbusy <;>
      simp_all [lser_irq, con_input, con_start]
  · cases ha : w.cs.wirq_active <;> cases hr : w.cs.rirq_active <;> cases hb : w.cs.ls_wbusy <;>
      simp_all [lser_irq, con_input, con_start, Device]
  · split <;> simpa [Event.putBy, Event.sentBy] using hprinted
  · split <;> simp [Event.putBy, Event.sentBy]
  · split <;> simp

theorem clear_to_write (h : Inv w tr) (c : Choice ι) : step w c ≠ .error .not_clear := by
  intro hc
  cases c <;> simp only [step] at hc
  case putch | putch_polled | getch | ready | irq => split at hc <;> cases hc
  case typed => cases hc
  case poll =>
    split at hc
    · cases hc
    · unfold Console.poll at hc
      split at hc
      case h_3 => cases hc
      all_goals split at hc <;> cases hc
  case run t =>
    split at hc
    · unfold Console.run at hc
      split at hc
      case h_3 ch ht =>
        simp only [lser_write, h.not_busy ht] at hc
        cases hc
      case h_1 | h_5 => cases hc
      all_goals split at hc <;> cases hc
    · cases hc

end Inv

theorem inv_of_reach (h : Reach (console ι) Any w tr) : Inv w tr := by
  refine h.invariant (I := Inv) ?_ ?_
  · rintro w ⟨hw, -, hbusy, hwirq, -, hsending, hplace, hp⟩
    constructor
    case clear =>
      have hzero : tally Place.isSends w.place = 0 := tally_eq_zero.mpr fun t => by rw [hplace]; rfl
      simp [hw, hbusy, hzero]
    case device => simp [hp, Device, hbusy, hwirq, hsending]
    case printed =>
      intro src
      cases src <;> simp [passed, sent, World.pending, hp, hplace, Place.pending]
    case apart => simp
  · rintro w w' c tr es - hinv - hs
    cases c <;> simp only [console, step] at hs
    case putch t ch =>
      split at hs <;> cases hs
      rename_i hok
      exact hinv.putch hok.2 ch
    case putch_polled ch =>
      split at hs <;> cases hs
      exact hinv.putch_polled (by assumption) ch
    case getch t =>
      split at hs <;> cases hs
      rename_i hok
      exact hinv.getch hok.2
    case run t =>
      split at hs
      · exact hinv.run (by assumption) hs
      · cases hs
    case poll =>
      split at hs
      · cases hs
      · exact hinv.poll (by assumption) hs
    case ready =>
      split at hs <;> cases hs
      exact hinv.ready (by assumption)
    case typed ch =>
      cases hs
      exact hinv.typed ch
    case irq =>
      split at hs <;> cases hs
      exact hinv.irq (by assumption)

theorem output_apart (h : Reach (console ι) Any w tr) :
    w.cs.cs_wsem + w.cs.ls_wbusy.toNat + tally Place.isSends w.place = 1 ∧
    (∀ c, step w c ≠ .error .not_clear) ∧
    (∀ src ch, Event.collided src ch ∉ tr) ∧
    ∀ src, passed src tr = sent src tr ++ w.pending src := by
  have hinv := inv_of_reach h
  exact ⟨hinv.clear, hinv.clear_to_write, hinv.apart, hinv.printed⟩

/-- A thread's character is on its way when code with interrupts off prints one: it waits for the first,
and leaves the interrupt for it pending. -/
theorem output_apart_polled : ∃ w tr, Reach (console (Fin 1)) Any w tr ∧ w.cs.ls_wbusy = true ∧
    w.cs.cs_wsem = 0 ∧ sent (some 0) tr = [97] ∧ sent none tr = [98] := by
  obtain ⟨w, tr, hr, hcheck⟩ := Machine.exists_runOk (M := console (Fin 1))
    (s := ⟨⟨1, 0, 0, false, false, false, false, 0⟩, fun _ => .out, none⟩) Any
    [.putch 0 97, .run 0, .run 0, .putch_polled 98, .poll, .ready, .poll, .poll, .ready, .poll]
    (fun x => decide (x.1.cs.ls_wbusy = true ∧ x.1.polled = none ∧ x.1.place 0 = .out ∧
      passed (some 0) x.2 = [97] ∧ passed none x.2 = [98]))
    ⟨rfl, rfl, rfl, rfl, rfl, rfl, fun _ => rfl, rfl⟩ (by decide +kernel)
  obtain ⟨hbusy, hpolled, hplace, h97, h98⟩ : w.cs.ls_wbusy = true ∧ w.polled = none ∧ w.place 0 = .out ∧
    passed (some 0) tr = [97] ∧ passed none tr = [98] := of_decide_eq_true hcheck
  obtain ⟨hclear, -, -, hsent⟩ := output_apart hr
  have hthread := hsent (some 0)
  have hcode := hsent none
  simp only [World.pending, hplace, hpolled, Place.pending, Option.elim_none, List.append_nil] at hthread hcode
  refine ⟨w, tr, hr, hbusy, ?_, hthread ▸ h97, hcode ▸ h98⟩
  rw [hbusy] at hclear
  simp at hclear
  omega

end Runs

/-! ## What is typed -/

section Typed

variable {ι : Type} {tr : List (Event ι)}

def Event.inputs : Event ι → Option Nat
  | .input ch => some ch
  | _ => none

def Event.returns : Event ι → Option Nat
  | .getch _ ch => some ch
  | _ => none

def delivered (tr : List (Event ι)) : List Nat := tr.reverse.filterMap (·.inputs)

def returned (tr : List (Event ι)) : List Nat := tr.reverse.filterMap (·.returns)

@[simp] theorem delivered_cons (e : Event ι) : delivered (e :: tr) = delivered tr ++ e.inputs.toList := by
  cases h : e.inputs <;> simp [delivered, h]

@[simp] theorem returned_cons (e : Event ι) : returned (e :: tr) = returned tr ++ e.returns.toList := by
  cases h : e.returns <;> simp [returned, h]

theorem store_typed (cs : Softc) (src : Option ι) (ch : Nat) (tr : List (Event ι)) :
    delivered ((store cs src ch).2 ++ tr) = delivered tr ∧ returned ((store cs src ch).2 ++ tr) = returned tr := by
  unfold store
  cases cs.sending <;> simp [Event.inputs, Event.returns]

def Place.isReads : Place → Bool
  | .reads => true
  | _ => false

variable [Fintype ι]

/-- Two characters come before anybody reads the first: the second is returned twice. -/
theorem returned_twice : ∃ w tr, Reach (console (Fin 1)) Any w tr ∧ delivered tr = [97, 98] ∧
    returned tr = [98, 98] ∧ ¬ (returned tr).Sublist (delivered tr) := by
  obtain ⟨w, tr, hr, hcheck⟩ := Machine.exists_runOk (M := console (Fin 1))
    (s := ⟨⟨1, 0, 0, false, false, false, false, 0⟩, fun _ => .out, none⟩) Any
    [.typed 97, .irq, .typed 98, .irq, .getch 0, .run 0, .run 0, .getch 0, .run 0, .run 0]
    (fun x => decide (delivered x.2 = [97, 98] ∧ returned x.2 = [98, 98]))
    ⟨rfl, rfl, rfl, rfl, rfl, rfl, fun _ => rfl, rfl⟩ (by decide +kernel)
  obtain ⟨hin, hout⟩ : delivered tr = [97, 98] ∧ returned tr = [98, 98] := of_decide_eq_true hcheck
  refine ⟨w, tr, hr, hin, hout, ?_⟩
  rw [hin, hout]
  decide

def Slowly (w : World ι) : Choice ι → Prop
  | .irq => w.cs.rirq_active = true → w.cs.cs_rsem = 0 ∧ tally Place.isReads w.place = 0
  | _ => True

structure Unread (w : World ι) (tr : List (Event ι)) : Prop where
  one : w.cs.cs_rsem + tally Place.isReads w.place ≤ 1
  read : w.cs.cs_rsem + tally Place.isReads w.place = 0 → (returned tr).Sublist (delivered tr)
  unread : w.cs.cs_rsem + tally Place.isReads w.place = 1 →
    (returned tr ++ [w.cs.cs_gotchar]).Sublist (delivered tr)

variable {w w' : World ι} {es : List (Event ι)} {t : ι}

namespace Unread

theorem same (h : Unread w tr) (hrsem : w'.cs.cs_rsem = w.cs.cs_rsem) (hgot : w'.cs.cs_gotchar = w.cs.cs_gotchar)
    (hplace : tally Place.isReads w'.place = tally Place.isReads w.place)
    (hin : delivered (es ++ tr) = delivered tr) (hout : returned (es ++ tr) = returned tr) :
    Unread w' (es ++ tr) := by
  constructor
  all_goals rw [hrsem, hplace]
  · exact h.one
  · rw [hin, hout]
    exact h.read
  · rw [hin, hout, hgot]
    exact h.unread

theorem poll (h : Unread w tr) {p : Polled} (hr : poll w p = .ok (w', es)) : Unread w' (es ++ tr) := by
  cases p <;> simp only [Console.poll] at hr
  case begins ch =>
    split at hr <;> cases hr <;> exact h.same rfl rfl rfl rfl rfl
  case spins ch =>
    split at hr <;> cases hr
    exact h.same rfl rfl rfl rfl rfl
  case sends ch irqpending =>
    cases hr
    obtain ⟨hin, hout⟩ := store_typed w.cs none ch tr
    exact h.same rfl rfl rfl hin hout
  case ends irqpending =>
    split at hr <;> cases hr
    exact h.same (by split <;> rfl) (by split <;> rfl) rfl rfl rfl

theorem irq (h : Unread w tr) (hslow : Slowly w .irq) :
    Unread { w with cs := lser_irq w.cs } ((if w.cs.rirq_active then [.input w.cs.typed] else []) ++ tr) := by
  cases hr : w.cs.rirq_active with
  | false =>
    refine h.same ?_ ?_ rfl rfl rfl
    all_goals cases ha : w.cs.wirq_active <;> simp [lser_irq, con_start, hr, ha]
  | true =>
    obtain ⟨hrsem, hnone⟩ := hslow hr
    have hgot : (lser_irq w.cs).cs_gotchar = w.cs.typed ∧ (lser_irq w.cs).cs_rsem = 1 := by
      cases ha : w.cs.wirq_active <;> simp [lser_irq, con_start, con_input, hr, ha, hrsem]
    constructor
    all_goals simp only [hgot.1, hgot.2, hnone]
    · omega
    · intro hne
      omega
    · intro _
      simpa [Event.inputs, Event.returns] using (h.read (by omega)).append (List.Sublist.refl [w.cs.typed])

variable [DecidableEq ι]

theorem run (h : Unread w tr) (hr : run w t = .ok (w', es)) : Unread w' (es ++ tr) := by
  unfold Console.run at hr
  cases ht : w.place t
  all_goals simp only [ht] at hr
  case out => cases hr
  case waits_send ch =>
    split at hr <;> cases hr
    exact h.same rfl rfl (tally_update_same (by rw [ht]; rfl)) rfl rfl
  case sends ch =>
    unfold lser_write at hr
    split at hr <;> cases hr
    obtain ⟨hin, hout⟩ := store_typed { w.cs with ls_wbusy := true } (some t) ch tr
    exact h.same rfl rfl (tally_update_same (by rw [ht]; rfl)) hin hout
  case waits_char =>
    split at hr <;> cases hr
    rename_i hpos
    have htally := tally_update Place.isReads w.place t .reads
    simp only [ht, Place.isReads, Bool.toNat_false, Bool.toNat_true] at htally
    have hsum : w.cs.cs_rsem - 1 + tally Place.isReads (Function.update w.place t .reads) =
        w.cs.cs_rsem + tally Place.isReads w.place := by omega
    constructor
    all_goals simp only [World.next, hsum, List.nil_append]
    · exact h.one
    · exact h.read
    · exact h.unread
  case reads =>
    cases hr
    have htally := tally_update Place.isReads w.place t .out
    simp only [ht, Place.isReads, Bool.toNat_false, Bool.toNat_true] at htally
    have hone := h.one
    have hsum : w.cs.cs_rsem + tally Place.isReads (Function.update w.place t .out) = 0 := by omega
    constructor
    all_goals simp only [World.next, hsum]
    · omega
    · intro _
      simpa [Event.inputs, Event.returns] using h.unread (by omega)
    · intro hne
      omega

end Unread

variable [DecidableEq ι]

theorem unread_of_reach (h : Reach (console ι) Slowly w tr) : Unread w tr := by
  refine h.invariant (I := Unread) ?_ ?_
  · rintro w ⟨-, hrsem, -, -, -, -, hplace, -⟩
    have hzero : tally Place.isReads w.place = 0 := tally_eq_zero.mpr fun t => by rw [hplace]; rfl
    constructor <;> simp [hrsem, hzero, delivered, returned]
  · rintro w w' c tr es - hinv hslow hs
    cases c <;> simp only [console, step] at hs
    case putch t ch =>
      split at hs <;> cases hs
      rename_i hok
      exact hinv.same rfl rfl (tally_update_same (by rw [hok.2]; rfl)) (by simp [Event.inputs]) (by simp [Event.returns])
    case putch_polled ch =>
      split at hs <;> cases hs
      exact hinv.same rfl rfl rfl (by simp [Event.inputs]) (by simp [Event.returns])
    case getch t =>
      split at hs <;> cases hs
      rename_i hok
      exact hinv.same rfl rfl (tally_update_same (by rw [hok.2]; rfl)) rfl rfl
    case run t =>
      split at hs
      · exact hinv.run hs
      · cases hs
    case poll =>
      split at hs
      · cases hs
      · exact hinv.poll hs
    case ready =>
      split at hs <;> cases hs
      exact hinv.same rfl rfl rfl rfl rfl
    case typed ch =>
      cases hs
      exact hinv.same rfl rfl rfl rfl rfl
    case irq =>
      split at hs <;> cases hs
      exact hinv.irq hslow

theorem nothing_invented (h : Reach (console ι) Slowly w tr) : (returned tr).Sublist (delivered tr) := by
  have hinv := unread_of_reach h
  rcases Nat.le_one_iff_eq_zero_or_eq_one.mp hinv.one with hzero | hone
  · exact hinv.read hzero
  · exact (List.sublist_append_left _ _).trans (hinv.unread hone)

end Typed

instance decidableSlowly {ι : Type} [Fintype ι] (w : World ι) : (c : Choice ι) → Decidable (Slowly w c)
  | .irq => inferInstanceAs (Decidable (w.cs.rirq_active = true → w.cs.cs_rsem = 0 ∧ tally Place.isReads w.place = 0))
  | .putch _ _ | .putch_polled _ | .getch _ | .run _ | .poll | .ready | .typed _ => inferInstanceAs (Decidable True)

theorem nothing_invented_two : ∃ w tr, Reach (console (Fin 1)) Slowly w tr ∧ returned tr = [97, 98] ∧
    [97, 98].Sublist (delivered tr) := by
  obtain ⟨w, tr, hr, hcheck⟩ := Machine.exists_runOk (M := console (Fin 1))
    (s := ⟨⟨1, 0, 0, false, false, false, false, 0⟩, fun _ => .out, none⟩) Slowly
    [.typed 97, .irq, .getch 0, .run 0, .run 0, .getch 0, .typed 98, .irq, .run 0, .run 0]
    (fun x => decide (returned x.2 = [97, 98]))
    ⟨rfl, rfl, rfl, rfl, rfl, rfl, fun _ => rfl, rfl⟩ (by decide +kernel)
  have hout : returned tr = [97, 98] := of_decide_eq_true hcheck
  exact ⟨w, tr, hr, hout, hout ▸ nothing_invented hr⟩

end Os161.Console
