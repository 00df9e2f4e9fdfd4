import Os161.Dev.Lhd
import Os161.Lib.Lts
import Os161.Lib.Tally

/-! # `dev/lamebus/lhd.c` with many threads

The threads in `lhd_io` share one card; the card raises an interrupt when an operation is over.
-/

namespace Os161.Lhd

open Machine Prog Tally Words

/-! ## The driver -/

abbrev LHD_IDLE : Nat := 0
abbrev LHD_WORKING : Nat := 1
abbrev LHD_OK : Nat := 4
abbrev LHD_INVSECT : Nat := 12
abbrev LHD_MEDIA : Nat := 20
abbrev LHD_ISWRITE : Nat := 2
abbrev LHD_STATEMASK : Nat := 0x1d

/-- `struct lhd_softc` and the registers of the card. An errno of 0 is none. -/
structure Softc where
  lh_clear : Nat
  lh_done : Nat
  lh_result : Option Errno
  lh_buf : Mem
  reg_stat : Nat
  reg_sect : Nat
  reg_nsect : Nat
  sectors : Nat → Mem

def lhd_code_to_errno (code : Nat) : Option Errno :=
  if code &&& LHD_STATEMASK = LHD_OK then none
  else if code &&& LHD_STATEMASK = LHD_INVSECT then some .EINVAL
  else if code &&& LHD_STATEMASK = LHD_MEDIA then some Errno.EIO
  else some .EAGAIN

def lhd_iodone (lh : Softc) (err : Option Errno) : Softc :=
  { lh with lh_result := err, lh_done := lh.lh_done + 1 }

def lhd_irq (lh : Softc) : Softc :=
  let val := lh.reg_stat
  if val &&& LHD_STATEMASK = LHD_OK ∨ val &&& LHD_STATEMASK = LHD_INVSECT ∨
      val &&& LHD_STATEMASK = LHD_MEDIA then
    lhd_iodone { lh with reg_stat := 0 } (lhd_code_to_errno val)
  else
    lh

/-- The card ends the operation it works on: whether the medium fails, and what a failed read leaves in
the buffer, is the card's choice. -/
def complete (lh : Softc) (fails : Bool) (junk : Mem) : Softc :=
  let iswrite := lh.reg_stat &&& LHD_ISWRITE
  if lh.reg_nsect ≤ lh.reg_sect then
    { lh with reg_stat := LHD_INVSECT ||| iswrite, lh_buf := junk }
  else if fails then
    { lh with reg_stat := LHD_MEDIA ||| iswrite, lh_buf := junk }
  else if iswrite = 0 then
    { lh with reg_stat := LHD_OK, lh_buf := lh.sectors lh.reg_sect }
  else
    { lh with
      reg_stat := LHD_OK ||| iswrite
      sectors := Function.update lh.sectors lh.reg_sect lh.lh_buf }

inductive Pc where
  | test | clear | fill | sect | start | done | result | drain | leave | check
  /-- The `V` of the exit from a failed `uiomove`. -/
  | abort
  deriving DecidableEq, Repr

structure Io where
  uio : Uio
  sector : Nat
  len : Nat
  i : Nat
  result : Option Errno
  pc : Pc

def Io.statval (io : Io) : Nat :=
  match io.uio.uio_rw with
  | .UIO_READ => LHD_WORKING
  | .UIO_WRITE => LHD_WORKING ||| LHD_ISWRITE

def Io.asked (io : Io) : Nat := (io.sector + io.i) % 2 ^ 32

inductive Event (ι : Type) where
  | started (t : ι) (sector : Nat)
  | completed (sector : Nat) (code : Nat) (data : Mem)
  | result (t : ι) (err : Option Errno)
  | copied (t : ι) (sector : Nat) (data : Mem)
  | returned (t : ι) (err : Option Errno)

inductive Stop where
  | blocked
  | panic (p : Panic)
  deriving DecidableEq, Repr

structure World (ι : Type) where
  lh : Softc
  io : ι → Option Io

inductive Choice (ι : Type) where
  | call (t : ι) (uio : Uio)
  | run (t : ι)
  | complete (fails : Bool) (junk : Mem)
  | irq

section

variable {ι : Type} [DecidableEq ι]

namespace World

def next (w : World ι) (t : ι) (lh : Softc) (io : Io) : World ι := ⟨lh, Function.update w.io t (some io)⟩

def ret (w : World ι) (t : ι) (lh : Softc) (err : Option Errno) : World ι × List (Event ι) :=
  (⟨lh, Function.update w.io t none⟩, [.returned t err])

end World

def call (w : World ι) (t : ι) (uio : Uio) : Except Stop (World ι × List (Event ι)) :=
  let sector := toU32 (uio.uio_offset.tdiv LHD_SECTSIZE)
  let sectoff := toU32 (uio.uio_offset.tmod LHD_SECTSIZE)
  let len := uio.uio_resid / LHD_SECTSIZE
  let lenoff := uio.uio_resid % LHD_SECTSIZE
  if (w.io t).isSome then .error .blocked
  else if sectoff ≠ 0 ∨ lenoff ≠ 0 then .ok (w.ret t w.lh (some .EINVAL))
  else if (sector + len) % 2 ^ 32 > w.lh.reg_nsect then .ok (w.ret t w.lh (some .EINVAL))
  else .ok (w.next t w.lh ⟨uio, sector, len, 0, none, .test⟩, [])

def run (w : World ι) (t : ι) (io : Io) : Except Stop (World ι × List (Event ι)) :=
  let lh := w.lh
  match io.pc with
  | .test => if io.i < io.len then .ok (w.next t lh { io with pc := .clear }, []) else .ok (w.ret t lh none)
  | .clear =>
    if 0 < lh.lh_clear then
      .ok (w.next t { lh with lh_clear := lh.lh_clear - 1 } { io with pc := .fill }, [])
    else .error .blocked
  | .fill =>
    match io.uio.uio_rw with
    | .UIO_READ => .ok (w.next t lh { io with pc := .sect }, [])
    | .UIO_WRITE =>
      match uiomove lh.lh_buf LHD_SECTSIZE io.uio with
      | .error p => .error (.panic p)
      | .ok (.ok buf, uio) => .ok (w.next t { lh with lh_buf := buf } { io with uio := uio, pc := .sect }, [])
      | .ok (.error e, uio) => .ok (w.next t lh { io with uio := uio, result := some e, pc := .abort }, [])
  | .abort => .ok (w.ret t { lh with lh_clear := lh.lh_clear + 1 } io.result)
  | .sect => .ok (w.next t { lh with reg_sect := io.asked } { io with pc := .start }, [])
  | .start => .ok (w.next t { lh with reg_stat := io.statval } { io with pc := .done }, [.started t io.asked])
  | .done =>
    if 0 < lh.lh_done then
      .ok (w.next t { lh with lh_done := lh.lh_done - 1 } { io with pc := .result }, [])
    else .error .blocked
  | .result => .ok (w.next t lh { io with result := lh.lh_result, pc := .drain }, [.result t lh.lh_result])
  | .drain =>
    if io.result = none ∧ io.uio.uio_rw = .UIO_READ then
      match uiomove lh.lh_buf LHD_SECTSIZE io.uio with
      | .error p => .error (.panic p)
      | .ok (.ok _, uio) =>
        .ok (w.next t lh { io with uio := uio, pc := .leave }, [.copied t io.asked lh.lh_buf])
      | .ok (.error e, uio) =>
        .ok (w.next t lh { io with uio := uio, result := some e, pc := .leave }, [.copied t io.asked lh.lh_buf])
    else .ok (w.next t lh { io with pc := .leave }, [])
  | .leave => .ok (w.next t { lh with lh_clear := lh.lh_clear + 1 } { io with pc := .check }, [])
  | .check =>
    if io.result = none then .ok (w.next t lh { io with i := io.i + 1, pc := .test }, [])
    else .ok (w.ret t lh io.result)

def step (w : World ι) : Choice ι → Except Stop (World ι × List (Event ι))
  | .call t uio => call w t uio
  | .run t =>
    match w.io t with
    | none => .error .blocked
    | some io => run w t io
  | .complete fails junk =>
    -- one completion for each operation that was started
    if w.lh.reg_stat &&& LHD_STATEMASK = LHD_WORKING then
      let lh := complete w.lh fails junk
      .ok (⟨lh, w.io⟩, [.completed w.lh.reg_sect lh.reg_stat (w.lh.sectors w.lh.reg_sect)])
    else .error .blocked
  | .irq => .ok (⟨lhd_irq w.lh, w.io⟩, [])

def disk (ι : Type) [DecidableEq ι] : Machine (World ι) (Choice ι) (Event ι) Stop where
  init w := w.lh.lh_clear = 1 ∧ w.lh.lh_done = 0 ∧ w.lh.reg_stat = LHD_IDLE ∧ ∀ t, w.io t = none
  step := step

end

/-! ## One operation after the other -/

inductive Phase (ι : Type) where
  | quiet
  | started (t : ι) (sector : Nat)
  | completed (t : ι) (sector : Nat) (code : Nat) (data : Mem)
  | taken (t : ι) (sector : Nat) (code : Nat) (data : Mem)

/-- No operation is started before the thread of the last one has its result, which is the one of its own operation,
with the data of its sector. -/
inductive Serial {ι : Type} : List (Event ι) → Phase ι → Prop where
  | nil : Serial [] .quiet
  | start {tr : List (Event ι)} (t : ι) (sector : Nat) (h : Serial tr .quiet) :
      Serial (.started t sector :: tr) (.started t sector)
  | again {tr : List (Event ι)} {u : ι} {sector' code : Nat} {data : Mem} (t : ι) (sector : Nat)
      (h : Serial tr (.taken u sector' code data)) : Serial (.started t sector :: tr) (.started t sector)
  | complete {tr : List (Event ι)} {t : ι} {sector : Nat} (code : Nat) (data : Mem)
      (h : Serial tr (.started t sector)) :
      Serial (.completed sector code data :: tr) (.completed t sector code data)
  | result {tr : List (Event ι)} {t : ι} {sector code : Nat} {data : Mem}
      (h : Serial tr (.completed t sector code data)) :
      Serial (.result t (lhd_code_to_errno code) :: tr) (.taken t sector code data)
  | copy {tr : List (Event ι)} {t : ι} {sector code : Nat} {data : Mem}
      (h : Serial tr (.taken t sector code data)) (hcode : lhd_code_to_errno code = none) :
      Serial (.copied t sector data :: tr) (.taken t sector code data)
  | returned {tr : List (Event ι)} {ph : Phase ι} (t : ι) (err : Option Errno) (h : Serial tr ph) :
      Serial (.returned t err :: tr) ph

def Event.isStarted {ι : Type} : Event ι → Bool
  | .started _ _ => true
  | _ => false

def Event.isCompleted {ι : Type} : Event ι → Bool
  | .completed _ _ _ => true
  | _ => false

def outstanding {ι : Type} (tr : List (Event ι)) : Int := tr.countP (·.isStarted) - tr.countP (·.isCompleted)

def Phase.works {ι : Type} : Phase ι → Bool
  | .started _ _ => true
  | _ => false

theorem Serial.outstanding {ι : Type} {tr : List (Event ι)} {ph : Phase ι} (h : Serial tr ph) :
    Lhd.outstanding tr = ph.works.toInt := by
  unfold Lhd.outstanding
  induction h with
  | nil => rfl
  | start | again | complete | result | copy | returned =>
    simp [Event.isStarted, Event.isCompleted, Phase.works] at *
    omega

/-! ## Who may touch the card -/

def Pc.inside : Pc → Bool
  | .test | .clear | .check => false
  | _ => true

def inside (o : Option Io) : Bool := o.any (·.pc.inside)

variable {ι : Type}

structure Quiet (lh : Softc) (ph : Phase ι) : Prop where
  stat : lh.reg_stat = LHD_IDLE
  done : lh.lh_done = 0
  phase : ph = .quiet ∨ ∃ t sector code data, ph = .taken t sector code data

def Fetched (lh : Softc) (io : Io) (code : Nat) (data : Mem) : Prop :=
  io.uio.uio_rw = .UIO_READ → lhd_code_to_errno code = none → lh.lh_buf = data

def IsOver (code : Nat) : Prop :=
  code &&& LHD_STATEMASK = LHD_OK ∨ code &&& LHD_STATEMASK = LHD_INVSECT ∨ code &&& LHD_STATEMASK = LHD_MEDIA

inductive Waits (lh : Softc) (ph : Phase ι) (t : ι) (io : Io) : Prop where
  | works (hstat : lh.reg_stat = io.statval) (hsect : lh.reg_sect = io.asked) (hdone : lh.lh_done = 0)
      (hph : ph = .started t io.asked)
  | ended (code : Nat) (data : Mem) (hstat : lh.reg_stat = code) (hcode : IsOver code) (hdone : lh.lh_done = 0)
      (hph : ph = .completed t io.asked code data) (hbuf : Fetched lh io code data)
  | told (code : Nat) (data : Mem) (hstat : lh.reg_stat = LHD_IDLE) (hdone : lh.lh_done = 1)
      (hres : lh.lh_result = lhd_code_to_errno code) (hph : ph = .completed t io.asked code data)
      (hbuf : Fetched lh io code data)

def Guards (lh : Softc) (ph : Phase ι) (t : ι) (io : Io) : Prop :=
  match io.pc with
  | .start => Quiet lh ph ∧ lh.reg_sect = io.asked
  | .done => Waits lh ph t io
  | .result => lh.reg_stat = LHD_IDLE ∧ lh.lh_done = 0 ∧ ∃ code data,
      lh.lh_result = lhd_code_to_errno code ∧ ph = .completed t io.asked code data ∧ Fetched lh io code data
  | .drain => Quiet lh ph ∧ ∃ code data,
      io.result = lhd_code_to_errno code ∧ ph = .taken t io.asked code data ∧ Fetched lh io code data
  | _ => Quiet lh ph

theorem Guards.busy {lh : Softc} {ph : Phase ι} {t : ι} {io : Io} (h : Guards lh ph t io)
    (hstat : lh.reg_stat ≠ LHD_IDLE) : io.pc = .done ∧ Waits lh ph t io := by
  unfold Guards at h
  cases hpc : io.pc
  all_goals simp only [hpc] at h
  case done => exact ⟨rfl, h⟩
  case start => exact absurd h.1.stat hstat
  case result => exact absurd h.1 hstat
  case drain => exact absurd h.1.stat hstat
  all_goals exact absurd h.stat hstat

theorem complete_spec {lh : Softc} {io : Io} (hstat : lh.reg_stat = io.statval) (fails : Bool) (junk : Mem) :
    (complete lh fails junk).lh_clear = lh.lh_clear ∧ (complete lh fails junk).lh_done = lh.lh_done ∧
    IsOver (complete lh fails junk).reg_stat ∧
    Fetched (complete lh fails junk) io (complete lh fails junk).reg_stat (lh.sectors lh.reg_sect) := by
  unfold Io.statval at hstat
  unfold complete Fetched IsOver
  cases hrw : io.uio.uio_rw with
  | UIO_READ =>
    simp only [hrw] at hstat
    simp only [hstat]
    split
    · simp [lhd_code_to_errno, LHD_OK, LHD_INVSECT, LHD_MEDIA, LHD_STATEMASK]
    · split <;> simp [lhd_code_to_errno, LHD_OK, LHD_INVSECT, LHD_MEDIA, LHD_STATEMASK]
  | UIO_WRITE =>
    simp only [hrw] at hstat
    simp only [hstat]
    split
    · simp [LHD_OK, LHD_INVSECT, LHD_MEDIA, LHD_STATEMASK, LHD_WORKING, LHD_ISWRITE]
    · split <;> simp [LHD_OK, LHD_INVSECT, LHD_MEDIA, LHD_STATEMASK, LHD_WORKING, LHD_ISWRITE]

theorem Guards.done_le {lh : Softc} {ph : Phase ι} {t : ι} {io : Io} (h : Guards lh ph t io) :
    lh.lh_done ≤ 1 := by
  unfold Guards at h
  cases hpc : io.pc
  all_goals simp only [hpc] at h
  case done => cases h <;> omega
  case start => exact h.1.done ▸ Nat.zero_le 1
  case result => exact h.2.1 ▸ Nat.zero_le 1
  case drain => exact h.1.done ▸ Nat.zero_le 1
  all_goals exact h.done ▸ Nat.zero_le 1

section Runs

variable [Fintype ι] {w w' : World ι} {tr es : List (Event ι)} {ph : Phase ι} {t : ι} {io io' : Io} {lh : Softc}

structure Inv (w : World ι) (ph : Phase ι) : Prop where
  clear : w.lh.lh_clear + tally inside w.io = 1
  guards : ∀ t io, w.io t = some io → io.pc.inside = true → Guards w.lh ph t io
  free : w.lh.lh_clear = 1 → Quiet w.lh ph

namespace Inv

theorem only (h : Inv w ph) (ht : w.io t = some io) (hin : io.pc.inside = true) {u : ι}
    (hu : w.io u = some io') (hin' : io'.pc.inside = true) : u = t := by
  have hle : tally inside w.io ≤ 1 := by have := h.clear; omega
  exact eq_of_tally_le hle (by simpa [inside, hu] using hin') (by simpa [inside, ht] using hin)

theorem held (h : Inv w ph) (ht : w.io t = some io) (hin : io.pc.inside = true) : w.lh.lh_clear = 0 := by
  have hpos : 0 < tally inside w.io := tally_pos (t := t) (by simpa [inside, ht] using hin)
  have := h.clear
  omega

theorem owner (h : Inv w ph) : w.lh.lh_clear = 1 ∧ Quiet w.lh ph ∨
    ∃ t io, w.io t = some io ∧ io.pc.inside = true ∧ Guards w.lh ph t io := by
  by_cases hz : tally inside w.io = 0
  · have hone : w.lh.lh_clear = 1 := by have := h.clear; omega
    exact .inl ⟨hone, h.free hone⟩
  · obtain ⟨t, ht⟩ := exists_of_tally_ne_zero hz
    cases hio : w.io t with
    | none => simp [hio, inside] at ht
    | some io =>
      have hin : io.pc.inside = true := by simpa [hio, inside] using ht
      exact .inr ⟨t, io, hio, hin, h.guards t io hio hin⟩

theorem waiter (h : Inv w ph) (hstat : w.lh.reg_stat ≠ LHD_IDLE) :
    ∃ t io, w.io t = some io ∧ io.pc = .done ∧ Waits w.lh ph t io := by
  rcases h.owner with ⟨-, hquiet⟩ | ⟨t, io, ht, -, hg⟩
  · exact absurd hquiet.stat hstat
  · exact ⟨t, io, ht, hg.busy hstat⟩

variable [DecidableEq ι]

theorem stays (h : Inv w ph) (ht : w.io t = some io) (hin : io.pc.inside = true)
    (hin' : io'.pc.inside = true) (hclear : lh.lh_clear = w.lh.lh_clear) {ph' : Phase ι} (hg : Guards lh ph' t io') :
    Inv (w.next t lh io') ph' := by
  have htally := tally_update inside w.io t (some io')
  have hsame : inside (w.io t) = inside (some io') := by simp [ht, inside, hin, hin']
  rw [hsame] at htally
  have hzero := h.held ht hin
  constructor
  · have := h.clear
    simp only [World.next]
    omega
  · refine forall_some_update (fun u io hu hio hinu => ?_) fun io hio _ => ?_
    · exact absurd (h.only ht hin hio hinu) hu
    · cases hio
      exact hg
  · intro hone
    simp only [World.next] at hone
    omega

theorem leaves (h : Inv w ph) (ht : w.io t = some io) (hin : io.pc.inside = true) {o : Option Io}
    (ho : inside o = false) (hclear : lh.lh_clear = w.lh.lh_clear + 1) (hq : Quiet lh ph) :
    Inv ⟨lh, Function.update w.io t o⟩ ph := by
  have htally := tally_update inside w.io t o
  rw [ho, ht, inside, Option.any_some, hin] at htally
  have hzero := h.held ht hin
  constructor
  · have := h.clear
    simp at htally
    simp only
    omega
  · refine forall_some_update (fun u io hu hio hinu => ?_) fun io hio hinu => ?_
    · exact absurd (h.only ht hin hio hinu) hu
    · simp [hio, inside, hinu] at ho
  · exact fun _ => hq

theorem passes (h : Inv w ph) {o : Option Io} (hold : inside (w.io t) = false) (hnew : inside o = false) :
    Inv ⟨w.lh, Function.update w.io t o⟩ ph := by
  have htally := tally_update inside w.io t o
  rw [hold, hnew] at htally
  constructor
  · have := h.clear
    simp only
    omega
  · refine forall_some_update (fun u io _ hio hin => h.guards u io hio hin) fun io hio hin => ?_
    simp [hio, inside, hin] at hnew
  · exact h.free

theorem enters (h : Inv w ph) (hold : inside (w.io t) = false) (hclear : 0 < w.lh.lh_clear)
    (hin : io.pc = .fill) : Inv (w.next t { w.lh with lh_clear := w.lh.lh_clear - 1 } io) ph := by
  have htally := tally_update inside w.io t (some io)
  have hnew : inside (some io) = true := by simp [inside, hin, Pc.inside]
  rw [hold, hnew] at htally
  have hone : w.lh.lh_clear = 1 := by have := h.clear; omega
  have hquiet := h.free hone
  have hnobody : tally inside w.io = 0 := by have := h.clear; omega
  constructor
  · simp at htally
    simp only [World.next]
    omega
  · refine forall_some_update (fun u io _ hio hin => ?_) fun io hio _ => ?_
    · have := tally_eq_zero.mp hnobody u
      simp [hio, inside, hin] at this
    · cases hio
      simp only [Guards, hin]
      exact ⟨hquiet.stat, hquiet.done, hquiet.phase⟩
  · intro hone'
    simp only [World.next] at hone'
    omega

/-! ### Each statement -/

theorem call (h : Inv w ph) (hs : Serial tr ph) {uio : Uio} (hc : call w t uio = .ok (w', es)) :
    ∃ ph', Inv w' ph' ∧ Serial (es ++ tr) ph' := by
  unfold Lhd.call at hc
  simp only at hc
  split at hc
  · cases hc
  · rename_i hnone
    have hold : inside (w.io t) = false := by
      have hnone : w.io t = none := by simpa using hnone
      rw [hnone, inside, Option.any_none]
    split at hc
    · cases hc
      exact ⟨ph, h.passes hold rfl, .returned t _ hs⟩
    · split at hc
      · cases hc
        exact ⟨ph, h.passes hold rfl, .returned t _ hs⟩
      · cases hc
        exact ⟨ph, h.passes hold rfl, hs⟩

theorem run (h : Inv w ph) (hs : Serial tr ph) (ht : w.io t = some io) (hr : run w t io = .ok (w', es)) :
    ∃ ph', Inv w' ph' ∧ Serial (es ++ tr) ph' := by
  have hold : inside (w.io t) = io.pc.inside := by rw [ht, inside, Option.any_some]
  have hguards := h.guards t io ht
  unfold Lhd.run at hr
  cases hpc : io.pc
  all_goals simp only [hpc, Pc.inside, Guards, forall_const] at hr hold hguards
  case test =>
    split at hr <;> cases hr
    · exact ⟨ph, h.passes hold rfl, hs⟩
    · exact ⟨ph, h.passes hold rfl, .returned t _ hs⟩
  case clear =>
    split at hr
    · rename_i hclear
      cases hr
      exact ⟨ph, h.enters hold hclear rfl, hs⟩
    · cases hr
  case fill =>
    have hin : io.pc.inside = true := by rw [hpc]; rfl
    split at hr
    · cases hr
      exact ⟨ph, h.stays ht hin (by rfl) (by rfl) hguards, hs⟩
    · split at hr <;> cases hr
      · refine ⟨ph, h.stays ht hin (by rfl) (by rfl) ?_, hs⟩
        exact ⟨hguards.stat, hguards.done, hguards.phase⟩
      · exact ⟨ph, h.stays ht hin (by rfl) (by rfl) hguards, hs⟩
  case sect =>
    have hin : io.pc.inside = true := by rw [hpc]; rfl
    cases hr
    refine ⟨ph, h.stays ht hin (by rfl) (by rfl) ?_, hs⟩
    exact ⟨⟨hguards.stat, hguards.done, hguards.phase⟩, rfl⟩
  case start =>
    have hin : io.pc.inside = true := by rw [hpc]; rfl
    obtain ⟨hquiet, hsect⟩ := hguards
    cases hr
    refine ⟨.started t io.asked, h.stays ht hin (by rfl) (by rfl) ?_, ?_⟩
    · exact Waits.works rfl hsect hquiet.done rfl
    · rcases hquiet.phase with rfl | ⟨u, sector, code, data, rfl⟩
      · exact .start t _ hs
      · exact .again t _ hs
  case done =>
    have hin : io.pc.inside = true := by rw [hpc]; rfl
    split at hr
    · rename_i hdone
      cases hr
      cases hguards with
      | works _ _ hzero => omega
      | ended _ _ _ _ hzero => omega
      | told code data hstat hone hres hph hbuf =>
        refine ⟨ph, h.stays ht hin (by rfl) (by rfl) ?_, hs⟩
        exact ⟨hstat, Nat.sub_eq_zero_of_le hone.le, code, data, hres, hph, hbuf⟩
    · cases hr
  case result =>
    have hin : io.pc.inside = true := by rw [hpc]; rfl
    obtain ⟨hstat, hdone, code, data, hres, rfl, hbuf⟩ := hguards
    cases hr
    refine ⟨.taken t io.asked code data, h.stays ht hin (by rfl) (by rfl) ?_, ?_⟩
    · exact ⟨⟨hstat, hdone, .inr ⟨_, _, _, _, rfl⟩⟩, code, data, hres, rfl, hbuf⟩
    · rw [hres]
      exact .result hs
  case drain =>
    have hin : io.pc.inside = true := by rw [hpc]; rfl
    obtain ⟨hquiet, code, data, hres, rfl, hbuf⟩ := hguards
    split at hr
    · rename_i hread
      have hcode : lhd_code_to_errno code = none := by rw [← hres, hread.1]
      rw [hbuf hread.2 hcode] at hr
      split at hr <;> cases hr
      all_goals exact ⟨_, h.stays ht hin (by rfl) (by rfl) hquiet, .copy hs hcode⟩
    · cases hr
      exact ⟨_, h.stays ht hin (by rfl) (by rfl) hquiet, hs⟩
  case leave =>
    have hin : io.pc.inside = true := by rw [hpc]; rfl
    cases hr
    exact ⟨ph, h.leaves ht hin (by rfl) (by rfl) ⟨hguards.stat, hguards.done, hguards.phase⟩, hs⟩
  case abort =>
    have hin : io.pc.inside = true := by rw [hpc]; rfl
    cases hr
    exact ⟨ph, h.leaves ht hin (by rfl) (by rfl) ⟨hguards.stat, hguards.done, hguards.phase⟩, .returned t _ hs⟩
  case check =>
    split at hr <;> cases hr
    · exact ⟨ph, h.passes hold rfl, hs⟩
    · exact ⟨ph, h.passes hold rfl, .returned t _ hs⟩

theorem waits (h : Inv w ph) (ht : w.io t = some io) (hpc : io.pc = .done) (hclear : lh.lh_clear = w.lh.lh_clear)
    {ph' : Phase ι} (hw : Waits lh ph' t io) : Inv ⟨lh, w.io⟩ ph' := by
  have hin : io.pc.inside = true := by rw [hpc]; rfl
  have hnext : w.next t lh io = ⟨lh, w.io⟩ := by rw [World.next, ← ht, Function.update_eq_self]
  rw [← hnext]
  refine h.stays ht hin hin hclear ?_
  simpa only [Guards, hpc] using hw

theorem complete (h : Inv w ph) (hs : Serial tr ph)
    (hwork : w.lh.reg_stat &&& LHD_STATEMASK = LHD_WORKING) (fails : Bool) (junk : Mem) :
    ∃ ph', Inv ⟨complete w.lh fails junk, w.io⟩ ph' ∧
      Serial (.completed w.lh.reg_sect (complete w.lh fails junk).reg_stat (w.lh.sectors w.lh.reg_sect) :: tr)
        ph' := by
  obtain ⟨t, io, ht, hpc, hwaits⟩ := h.waiter fun hidle => by
    rw [hidle] at hwork
    exact absurd hwork (by decide)
  cases hwaits with
  | works hstat hsect hdone hph =>
    obtain ⟨hclear, hdone', hover, hfetched⟩ := complete_spec hstat fails junk
    refine ⟨_, h.waits ht hpc hclear (.ended _ _ rfl hover (hdone'.trans hdone) rfl hfetched), ?_⟩
    rw [hsect]
    subst hph
    exact .complete _ _ hs
  | ended code data hstat hover =>
    rw [hstat] at hwork
    unfold IsOver at hover
    rw [hwork] at hover
    exact absurd hover (by decide)
  | told code data hstat =>
    rw [hstat] at hwork
    exact absurd hwork (by decide)

theorem irq (h : Inv w ph) : Inv ⟨lhd_irq w.lh, w.io⟩ ph := by
  unfold lhd_irq
  simp only
  split
  · rename_i hover
    obtain ⟨t, io, ht, hpc, hwaits⟩ := h.waiter fun hidle => by
      rw [hidle] at hover
      exact absurd hover (by decide)
    cases hwaits with
    | works hstat =>
      rw [hstat] at hover
      unfold Io.statval at hover
      cases hrw : io.uio.uio_rw <;> simp only [hrw] at hover <;> exact absurd hover (by decide)
    | ended code data hstat hcode hdone hph hbuf =>
      subst hstat
      have hone : (lhd_iodone { w.lh with reg_stat := 0 } (lhd_code_to_errno w.lh.reg_stat)).lh_done = 1 := by
        simp [lhd_iodone, hdone]
      exact h.waits ht hpc (by rfl) (.told _ data rfl hone rfl hph hbuf)
    | told code data hstat =>
      rw [hstat] at hover
      exact absurd hover (by decide)
  · exact h

end Inv

theorem inv_of_reach [DecidableEq ι] (h : Reach (disk ι) Any w tr) : ∃ ph, Inv w ph ∧ Serial tr ph := by
  refine h.invariant (I := fun w tr => ∃ ph, Inv w ph ∧ Serial tr ph) ?_ ?_
  · rintro w ⟨hclear, hdone, hstat, hio⟩
    refine ⟨.quiet, ⟨?_, by simp [hio], fun _ => ⟨hstat, hdone, .inl rfl⟩⟩, .nil⟩
    rw [hclear, tally_eq_zero.mpr fun t => by rw [hio t, inside, Option.any_none]]
  · rintro w w' c tr es _ ⟨ph, hinv, hs⟩ - hstep
    cases c with
    | call t uio => exact hinv.call hs hstep
    | run t =>
      simp only [disk, step] at hstep
      split at hstep
      · cases hstep
      · exact hinv.run hs (by assumption) hstep
    | complete fails junk =>
      simp only [disk, step] at hstep
      split at hstep
      · cases hstep
        exact hinv.complete hs (by assumption) fails junk
      · cases hstep
    | irq =>
      cases hstep
      exact ⟨ph, hinv.irq, hs⟩

theorem Inv.done_le (h : Inv w ph) : w.lh.lh_done ≤ 1 := by
  rcases h.owner with ⟨-, hquiet⟩ | ⟨t, io, -, -, hg⟩
  · rw [hquiet.done]
    omega
  · exact hg.done_le

/-! ## Results -/

theorem requests_apart [DecidableEq ι] (h : Reach (disk ι) Any w tr) :
    w.lh.lh_clear + tally inside w.io = 1 ∧ w.lh.lh_done ≤ 1 ∧
    (0 ≤ outstanding tr ∧ outstanding tr ≤ 1) ∧ (∃ ph, Serial tr ph) ∧
    ((∀ t, w.io t = none) → w.lh.lh_clear = 1) := by
  obtain ⟨ph, hinv, hs⟩ := inv_of_reach h
  refine ⟨hinv.clear, hinv.done_le, ?_, ⟨ph, hs⟩, fun hnone => ?_⟩
  · rw [hs.outstanding]
    cases ph.works <;> decide
  · have hzero : tally inside w.io = 0 := tally_eq_zero.mpr fun t => by rw [hnone t, inside, Option.any_none]
    have := hinv.clear
    omega

end Runs

/-- One thread reads a sector, and another one has the card after it. -/
theorem requests_apart_two_readers : ∃ w tr, Reach (disk (Fin 2)) Any w tr ∧ tr.length = 4 ∧
    tally inside w.io = 1 ∧ ∃ ph, Serial tr ph := by
  obtain ⟨w, tr, hr, hcheck⟩ := Machine.exists_runOk (M := disk (Fin 2))
    (s := ⟨⟨1, 0, none, fun _ => 0, LHD_IDLE, 0, 1, fun _ _ => 7⟩, fun _ => none⟩) Any
    [.call 0 (mk_kuio (fun _ => 0) 512 0 .UIO_READ), .run 0, .run 0,
      .call 1 (mk_kuio (fun _ => 0) 512 0 .UIO_READ), .run 1, .run 0, .run 0, .run 0, .complete false (fun _ => 0),
      .irq, .run 0, .run 0, .run 0, .run 0, .run 1]
    (fun x => decide (x.1.lh.lh_clear = 0 ∧ x.2.length = 4))
    ⟨rfl, rfl, rfl, fun _ => rfl⟩ (by decide +kernel)
  obtain ⟨hheld, hlen⟩ : w.lh.lh_clear = 0 ∧ tr.length = 4 := of_decide_eq_true hcheck
  obtain ⟨hclear, -, -, hs, -⟩ := requests_apart hr
  exact ⟨w, tr, hr, hlen, by omega, hs⟩

end Os161.Lhd
