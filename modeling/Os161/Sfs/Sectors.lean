import Os161.Dev.Requests
import Os161.Sfs.Retry

/-! # Which sectors the disk is asked for -/

namespace Os161

open Machine Prog Words

/-! ## The requests of the file system -/

def Uio.forBlock (u : Uio) (b : Nat) : Uio := u.request (toI32 (toU32 (b * SFS_BLOCKSIZE)))

/-- What `sfs_rblock`, `sfs_wblock` and `sfs_blockio` hand to `lhd_io` for a block, also after an error of a write. -/
inductive SfsRequest (b : Nat) : Uio → Prop where
  | rwblock (data : Mem) (rw : UioRw) : SfsRequest b (sfsuio data b rw)
  | blockio (u : Uio) : SfsRequest b (u.forBlock b)
  | again (u : Uio) (hres : u.uio_resid = 0) : SfsRequest b u

namespace Lhd

def Asks (nsect : Nat) (uio : Uio) (sec : Nat) : Prop :=
  (uio.sector + uio.uio_resid / LHD_SECTSIZE) % 2 ^ 32 ≤ nsect ∧
  ∃ i < uio.uio_resid / LHD_SECTSIZE, sec = (uio.sector + i) % 2 ^ 32

def Unwrapped (uio : Uio) : Prop := uio.sector + uio.uio_resid / LHD_SECTSIZE < 2 ^ 32

variable {uio : Uio} {b nsect sec : Nat}

theorem forBlock_offset (hb : b < 2 ^ 22) : (uio.forBlock b).uio_offset = 512 * b := by
  simp only [Uio.forBlock, Uio.request, diskoff_eq hb]

theorem Asks.unique (hb : b < 2 ^ 22) (hr : SfsRequest b uio) (h : Asks nsect uio sec) : sec = b := by
  obtain ⟨-, i, hi, rfl⟩ := h
  cases hr with
  | rwblock data rw =>
    have hi : i < 512 / 512 := hi
    rw [Uio.sector_eq (sfsuio_offset hb) (by omega), show i = 0 by omega, Nat.mod_eq_of_lt (by omega), Nat.add_zero]
  | blockio u =>
    have hi : i < 512 / 512 := hi
    rw [Uio.sector_eq (forBlock_offset hb) (by omega), show i = 0 by omega, Nat.mod_eq_of_lt (by omega), Nat.add_zero]
  | again u hres =>
    rw [hres, Nat.zero_div] at hi
    exact absurd hi (Nat.not_lt_zero i)

theorem Asks.lt (hu : Unwrapped uio) (h : Asks nsect uio sec) : sec < nsect := by
  obtain ⟨hle, i, hi, rfl⟩ := h
  rw [Nat.mod_eq_of_lt hu] at hle
  have := Nat.mod_le (uio.sector + i) (2 ^ 32)
  omega

/-! ## The card is started for a sector only if a call asks for it -/

section Runs

variable {ι : Type} [DecidableEq ι] {w w' : World ι} {es tr : List (Event ι)} {t : ι} {io : Io}

def Calls (C : ι → Uio → Prop) (_ : World ι) : Choice ι → Prop
  | .call t uio => C t uio
  | _ => True

def Io.Serves (io : Io) (nsect : Nat) (uio : Uio) : Prop :=
  (uio.sector + uio.uio_resid / LHD_SECTSIZE) % 2 ^ 32 ≤ nsect ∧ io.sector = uio.sector ∧
  io.len = uio.uio_resid / LHD_SECTSIZE ∧ (io.pc ≠ .test → io.i < io.len)

theorem Io.Serves.asks (h : io.Serves nsect uio) (hpc : io.pc ≠ .test) : Asks nsect uio io.asked := by
  obtain ⟨hle, hsector, hlen, hi⟩ := h
  exact ⟨hle, io.i, hlen ▸ hi hpc, by rw [Io.asked, hsector]⟩

structure Turn (w : World ι) (t : ι) (io : Io) (w' : World ι) (es : List (Event ι)) : Prop where
  nsect : w'.lh.reg_nsect = w.lh.reg_nsect
  serves : ∃ o, w'.io = Function.update w.io t o ∧
    ∀ io', o = some io' → ∀ uio, io.Serves w.lh.reg_nsect uio → io'.Serves w.lh.reg_nsect uio
  started : ∀ u sec, .started u sec ∈ es → u = t ∧ sec = io.asked ∧ io.pc = .start

theorem turn_next {lh : Softc} {io' : Io} (hn : lh.reg_nsect = w.lh.reg_nsect) (hsector : io'.sector = io.sector)
    (hlen : io'.len = io.len) (hi : io.pc ≠ .test ∧ io'.i = io.i ∨ io'.i < io.len ∨ io'.pc = .test)
    (hes : ∀ u sec, .started u sec ∈ es → u = t ∧ sec = io.asked ∧ io.pc = .start) :
    Turn w t io (w.next t lh io') es := by
  refine ⟨hn, ⟨some io', rfl, fun io'' ho uio hs => ?_⟩, hes⟩
  obtain rfl := Option.some.inj ho
  obtain ⟨hle, hsec, hl, hlt⟩ := hs
  refine ⟨hle, hsector.trans hsec, hlen.trans hl, fun hpc => ?_⟩
  rcases hi with ⟨hold, hsame⟩ | htested | htest
  · rw [hsame, hlen]
    exact hlt hold
  · rwa [hlen]
  · exact absurd htest hpc

theorem turn_ret {lh : Softc} (hn : lh.reg_nsect = w.lh.reg_nsect) (err : Option Errno) :
    Turn w t io ⟨lh, Function.update w.io t none⟩ [.returned t err] :=
  ⟨hn, ⟨none, rfl, fun _ ho => by cases ho⟩, by simp⟩

theorem run_serves (hr : run w t io = .ok (w', es)) : Turn w t io w' es := by
  have hturn {lh : Softc} {io' : Io} {es' : List (Event ι)} (hn : lh.reg_nsect = w.lh.reg_nsect)
      (hpc : io.pc ≠ .test) (hsame : io'.sector = io.sector ∧ io'.len = io.len ∧ io'.i = io.i)
      (hes : ∀ u sec, .started u sec ∈ es' → u = t ∧ sec = io.asked ∧ io.pc = .start) :
      Turn w t io (w.next t lh io') es' :=
    turn_next hn hsame.1 hsame.2.1 (.inl ⟨hpc, hsame.2.2⟩) hes
  unfold run at hr
  cases hpc : io.pc
  all_goals simp only [hpc] at hr
  case test =>
    split at hr <;> cases hr
    · rename_i hi
      exact turn_next rfl rfl rfl (.inr (.inl hi)) (by simp)
    · exact turn_ret rfl none
  case clear | done =>
    split at hr <;> cases hr
    exact hturn rfl (by simp [hpc]) ⟨rfl, rfl, rfl⟩ (by simp)
  case fill =>
    split at hr
    · cases hr
      exact hturn rfl (by simp [hpc]) ⟨rfl, rfl, rfl⟩ (by simp)
    · split at hr <;> cases hr
      · exact hturn rfl (by simp [hpc]) ⟨rfl, rfl, rfl⟩ (by simp)
      · exact hturn rfl (by simp [hpc]) ⟨rfl, rfl, rfl⟩ (by simp)
  case abort =>
    cases hr
    apply turn_ret
    rfl
  case sect | result | leave =>
    cases hr
    exact hturn rfl (by simp [hpc]) ⟨rfl, rfl, rfl⟩ (by simp)
  case start =>
    cases hr
    exact hturn rfl (by simp [hpc]) ⟨rfl, rfl, rfl⟩ (by simp [hpc])
  case drain =>
    split at hr
    · split at hr <;> cases hr
      · exact hturn rfl (by simp [hpc]) ⟨rfl, rfl, rfl⟩ (by simp)
      · exact hturn rfl (by simp [hpc]) ⟨rfl, rfl, rfl⟩ (by simp)
    · cases hr
      exact hturn rfl (by simp [hpc]) ⟨rfl, rfl, rfl⟩ (by simp)
  case check =>
    split at hr <;> cases hr
    · exact turn_next rfl rfl rfl (.inr (.inr rfl)) (by simp)
    · exact turn_ret rfl io.result

theorem call_serves (hr : call w t uio = .ok (w', es)) :
    w'.lh.reg_nsect = w.lh.reg_nsect ∧
    (∃ o, w'.io = Function.update w.io t o ∧ ∀ io', o = some io' → io'.Serves w.lh.reg_nsect uio) ∧
    ∀ u sec, .started u sec ∉ es := by
  unfold call at hr
  simp only at hr
  repeat' split at hr
  all_goals cases hr
  all_goals refine ⟨rfl, ⟨_, rfl, ?_⟩, ?_⟩
  all_goals simp_all [Io.Serves, Uio.sector]

structure Served (C : ι → Uio → Prop) (w : World ι) (tr : List (Event ι)) : Prop where
  calls : ∀ t io, w.io t = some io → ∃ uio, C t uio ∧ io.Serves w.lh.reg_nsect uio
  started : ∀ t sec, .started t sec ∈ tr → ∃ uio, C t uio ∧ Asks w.lh.reg_nsect uio sec

theorem served_of_reach {C : ι → Uio → Prop} (h : Machine.Reach (disk ι) (Calls C) w tr) : Served C w tr := by
  refine h.invariant (I := Served C) ?_ ?_
  · rintro w ⟨-, -, -, hio⟩
    exact ⟨fun t io ht => by simp [hio] at ht, by simp⟩
  · rintro w w' c tr es _ ⟨hcalls, hstarted⟩ hok hstep
    cases c with
    | call t uio =>
      obtain ⟨hn, ⟨o, hio, ho⟩, hes⟩ := call_serves hstep
      refine ⟨?_, fun u sec hu => ?_⟩
      · rw [hio, hn]
        exact Tally.forall_some_update (fun u io _ hu => hcalls u io hu) fun io hio => ⟨uio, hok, ho io hio⟩
      · rw [hn]
        exact hstarted u sec ((List.mem_append.mp hu).resolve_left (hes u sec))
    | run t =>
      simp only [disk, step] at hstep
      split at hstep
      · cases hstep
      rename_i io ht
      obtain ⟨uio, hC, hserves⟩ := hcalls t io ht
      obtain ⟨hn, ⟨o, hio, ho⟩, hes⟩ := run_serves hstep
      refine ⟨?_, fun u sec hu => ?_⟩
      · rw [hio, hn]
        refine Tally.forall_some_update (fun u io _ hu => hcalls u io hu) fun io' hio' => ?_
        exact ⟨uio, hC, ho io' hio' uio hserves⟩
      · rw [hn]
        rcases List.mem_append.mp hu with hu | hu
        · obtain ⟨rfl, rfl, hpc⟩ := hes u sec hu
          exact ⟨uio, hC, hserves.asks (by rw [hpc]; decide)⟩
        · exact hstarted u sec hu
    | complete fails junk =>
      simp only [disk, step] at hstep
      split at hstep
      · cases hstep
        have hn : (complete w.lh fails junk).reg_nsect = w.lh.reg_nsect := by
          unfold complete
          simp only
          repeat' split
          all_goals rfl
        refine ⟨fun t io ht => hn ▸ hcalls t io ht, fun u sec hu => ?_⟩
        rw [hn]
        exact hstarted u sec (by simpa using hu)
      · cases hstep
    | irq =>
      cases hstep
      have hn : (lhd_irq w.lh).reg_nsect = w.lh.reg_nsect := by
        unfold lhd_irq
        simp only
        split <;> rfl
      exact ⟨fun t io ht => hn ▸ hcalls t io ht, fun u sec hu => hn ▸ hstarted u sec hu⟩

/-! ## Every block its own sector -/

end Runs

def Event.sector {ι : Type} : Event ι → Option Nat
  | .started _ sec => some sec
  | _ => none

def idle (nsect : Nat) : World (Fin 1) := ⟨⟨1, 0, none, fun _ => 0, LHD_IDLE, 0, nsect, fun _ _ => 0⟩, fun _ => none⟩

def startedFor (nsect : Nat) (uio : Uio) : Option (List Nat) :=
  ((disk (Fin 1)).runOk Any [.call 0 uio, .run 0, .run 0, .run 0, .run 0, .run 0] (idle nsect, [])).map
    fun x => x.2.filterMap (·.sector)

end Lhd

end Os161
