import Os161.Kern.Uio
import Os161.Lib.Schrage

/-! # `dev/generic/pseudorand.c`: the random device

`int` arithmetic that does not fit in 32 bits is undefined in C, and stops the machine here.
-/

namespace Os161.Pseudorand

open Prog Words

def MULTIPLIER : Int := 16807
def MODULUS : Int := 0x7fffffff
def K1 : Nat := 127773
def K2 : Int := 2836

structure PseudorandSoftc where
  ps_seed : Nat
  deriving DecidableEq, Repr

inductive Stop where
  | int_overflow
  | uio (p : Panic)
  deriving DecidableEq, Repr

def int32 {σ : Type} (x : Int) : Prog Stop Errno σ Int := do
  ensure (-2 ^ 31 ≤ x ∧ x < 2 ^ 31) .int_overflow
  pure x

def pseudorand_random : Prog Stop Errno PseudorandSoftc Nat := do
  let ps ← get
  let hi := toI32 (ps.ps_seed / K1 : Nat)
  let lo := toI32 (ps.ps_seed % K1 : Nat)
  let x ← int32 (MULTIPLIER * lo)
  let y ← int32 (K2 * hi)
  let tmp ← int32 (x - y)
  let tmp ← if tmp ≤ 0 then int32 (tmp + MODULUS) else pure tmp
  let seed := toU32 tmp
  set { ps with ps_seed := seed }
  pure (toU32 (seed - 1))

def pseudorand_randmax : Nat := toU32 (MODULUS - 2)

def pseudoattach_pseudorand : Alloc (Option PseudorandSoftc) := fun h =>
  match kmalloc h with
  | (true, h) => (some ⟨305824⟩, h)
  | (false, h) => (none, h)

def bytes (val : Nat) : Mem
  | 0 => BitVec.ofNat 8 ((val &&& 0x00000ff0) >>> 4)
  | 1 => BitVec.ofNat 8 ((val &&& 0x000ff000) >>> 12)
  | 2 => BitVec.ofNat 8 ((val &&& 0x0ff00000) >>> 20)
  | _ => 0

def onUio {α : Type} (m : Prog Panic Errno Uio α) : Prog Stop Errno (PseudorandSoftc × Uio) α := fun s =>
  match m s.2 with
  | .ok (r, u) => .ok (r, (s.1, u))
  | .error p => .error (.uio p)

def read_loop : Nat → Prog Stop Errno (PseudorandSoftc × Uio) Unit
  | 0 => pure ()
  | fuel + 1 => do
    let (_, uio) ← get
    if uio.uio_resid > 0 then
      let val ← first pseudorand_random
      let _ ← onUio (uiomove (bytes val) 3)
      read_loop fuel
    else
      pure ()

def pseudorand_read : Prog Stop Errno (PseudorandSoftc × Uio) Unit := do
  let (_, uio) ← get
  read_loop (uio.iov_len + 1)

/-! ## One number -/

def parkMiller (x : Nat) : Nat := 16807 * x % (2 ^ 31 - 1)

def Seeded (x : Nat) : Prop := 1 ≤ x ∧ x ≤ 2 ^ 31 - 2

section Random

variable {ps : PseudorandSoftc} {x : Nat}

theorem int32_run {σ : Type} {s : σ} {x : Int} (h0 : -2 ^ 31 ≤ x) (h1 : x < 2 ^ 31) :
    int32 x s = .ok (.ok x, s) := by
  rw [int32, bind_ok (ensure_run s _ _ ⟨h0, h1⟩)]
  rfl

theorem parkMiller_eq (x : Nat) : (parkMiller x : Int) = 16807 * (x : Int) % 2147483647 := by
  unfold parkMiller
  push_cast
  rfl

theorem reduce_parkMiller (h : Seeded x) : Schrage.reduce MULTIPLIER MODULUS x = parkMiller x := by
  obtain ⟨h0, h1⟩ := h
  rw [parkMiller_eq]
  exact Schrage.reduce_eq (by decide) (by decide) (by decide) (by decide) (by omega)
    (show (x : Int) < 2147483647 by omega)

theorem parkMiller_seeded (h : Seeded x) : Seeded (parkMiller x) := by
  obtain ⟨h0, h1⟩ := h
  have hpos : (0 : Int) < 16807 * x % 2147483647 := Schrage.emod_pos (by decide) (by omega) (by omega)
  have hlt : (16807 * x % 2147483647 : Int) < 2147483647 := Int.emod_lt_of_pos _ (by decide)
  rw [← parkMiller_eq] at hpos hlt
  unfold Seeded
  omega

theorem toI32_natCast {n : Nat} (h : n < 2 ^ 31) : toI32 n = n := toI32_of_small (by omega) (by omega)

theorem pseudorand_random_run (h : Seeded ps.ps_seed) :
    pseudorand_random ps = .ok (.ok (parkMiller ps.ps_seed - 1), ⟨parkMiller ps.ps_seed⟩) := by
  obtain ⟨seed⟩ := ps
  have h : Seeded seed := h
  have ⟨h0, h1⟩ := h
  obtain ⟨hnext0, hnext1⟩ := parkMiller_seeded h
  dsimp only
  have ha : (0 : Int) < MULTIPLIER := by decide
  have ham : MULTIPLIER ≤ MODULUS := by decide
  have hhi : toI32 (seed / K1 : Nat) = (seed : Int) / (MODULUS / MULTIPLIER) := by
    rw [toI32_natCast (by have := Nat.div_le_self seed K1; omega), Int.natCast_ediv]
    rfl
  have hlo : toI32 (seed % K1 : Nat) = (seed : Int) % (MODULUS / MULTIPLIER) := by
    rw [toI32_natCast (by have := Nat.mod_le seed K1; omega), Int.natCast_emod]
    rfl
  have hlow := Schrage.low_nonneg (x := seed) ha ham
  have hlow' := Schrage.low_lt (x := seed) ha ham
  have hhigh := Schrage.high_nonneg (x := seed) ha ham (by omega)
  have hhigh' := Schrage.high_le (x := seed) ha ham (by decide) (by omega)
  have hM : MODULUS = 2147483647 := rfl
  have hK2 : K2 = MODULUS % MULTIPLIER := by decide
  have hreduce := reduce_parkMiller h
  rw [Schrage.reduce] at hreduce
  rw [pseudorand_random, bind_ok (get_run _)]
  dsimp only
  rw [hhi, hlo, hK2, bind_ok (int32_run (by omega) (by omega)), bind_ok (int32_run (by omega) (by omega)),
    bind_ok (int32_run (by omega) (by omega)), ← Schrage.split]
  have hval : toU32 ((parkMiller seed : Int) - 1) = parkMiller seed - 1 := by
    unfold toU32
    omega
  split
  · rename_i hneg
    rw [if_pos hneg] at hreduce
    rw [hreduce, bind_ok (int32_run (by omega) (by omega)), bind_ok (set_run _ _), toU32_natCast (by omega), hval,
      pure_run]
  · rename_i hpos
    rw [if_neg hpos] at hreduce
    rw [hreduce, bind_ok (pure_run _ _), bind_ok (set_run _ _), toU32_natCast (by omega), hval, pure_run]

end Random

/-! ## Any number of calls -/

def randoms : Nat → Prog Stop Errno PseudorandSoftc (List Nat)
  | 0 => pure []
  | n + 1 => do
    let val ← pseudorand_random
    let vals ← randoms n
    pure (val :: vals)

section Runs

variable {ps : PseudorandSoftc} {x n : Nat}

theorem iterate_seeded (h : Seeded x) (n : Nat) : Seeded (parkMiller^[n] x) := by
  induction n with
  | zero => exact h
  | succ n ih =>
    rw [Function.iterate_succ_apply']
    exact parkMiller_seeded ih

theorem iterate_parkMiller (h : Seeded x) (n : Nat) : parkMiller^[n] x = 16807 ^ n * x % (2 ^ 31 - 1) := by
  induction n with
  | zero =>
    obtain ⟨h0, h1⟩ := h
    rw [Function.iterate_zero_apply, pow_zero, one_mul, Nat.mod_eq_of_lt (by omega)]
  | succ n ih =>
    rw [Function.iterate_succ_apply', ih, parkMiller, Nat.mul_mod_mod, ← mul_assoc, ← pow_succ']

theorem randoms_run (h : Seeded ps.ps_seed) (n : Nat) :
    randoms n ps = .ok (.ok ((List.range n).map fun i => parkMiller^[i + 1] ps.ps_seed - 1),
      ⟨parkMiller^[n] ps.ps_seed⟩) := by
  induction n generalizing ps with
  | zero => rfl
  | succ n ih =>
    have hrest : randoms n ⟨parkMiller ps.ps_seed⟩ = _ := ih (parkMiller_seeded h)
    rw [randoms, bind_ok (pseudorand_random_run h), bind_ok hrest, pure_run, List.range_succ_eq_map, List.map_cons,
      List.map_map]
    rfl

theorem seeded_le_randmax (h : Seeded x) : x - 1 ≤ pseudorand_randmax := by
  obtain ⟨h0, h1⟩ := h
  have hmax : pseudorand_randmax = 2147483645 := by decide
  omega

/-- No `int` overflows, the seed goes on by the recurrence of Park and Miller and stays in its
range, and the value is at most `pseudorand_randmax`, for any number of calls. -/
theorem pseudorand_is_park_miller :
    (∀ ps : PseudorandSoftc, 1 ≤ ps.ps_seed → ps.ps_seed ≤ 2 ^ 31 - 2 →
      ∃ val ps', pseudorand_random ps = .ok (.ok val, ps') ∧ ps'.ps_seed = 16807 * ps.ps_seed % (2 ^ 31 - 1) ∧
        1 ≤ ps'.ps_seed ∧ ps'.ps_seed ≤ 2 ^ 31 - 2 ∧ val = ps'.ps_seed - 1 ∧ val ≤ pseudorand_randmax) ∧
    ∀ h h' ps, pseudoattach_pseudorand h = (some ps, h') → ∀ n,
      ∃ vals ps', randoms n ps = .ok (.ok vals, ps') ∧ vals.length = n ∧ (∀ val ∈ vals, val ≤ pseudorand_randmax) ∧
        ps'.ps_seed = 16807 ^ n * 305824 % (2 ^ 31 - 1) ∧ 1 ≤ ps'.ps_seed ∧ ps'.ps_seed ≤ 2 ^ 31 - 2 := by
  constructor
  · intro ps h0 h1
    have hnext := parkMiller_seeded ⟨h0, h1⟩
    exact ⟨_, _, pseudorand_random_run ⟨h0, h1⟩, rfl, hnext.1, hnext.2, rfl, seeded_le_randmax hnext⟩
  · intro h h' ps hattach n
    have hps : ps = ⟨305824⟩ := by
      unfold pseudoattach_pseudorand at hattach
      split at hattach
      · exact (Option.some.inj (Prod.mk.inj hattach).1).symm
      · cases (Prod.mk.inj hattach).1
    subst hps
    have hseeded : Seeded 305824 := ⟨by decide, by decide⟩
    refine ⟨_, _, randoms_run hseeded n, by simp, ?_, iterate_parkMiller hseeded n, iterate_seeded hseeded n⟩
    intro val hval
    obtain ⟨i, -, rfl⟩ := List.mem_map.mp hval
    exact seeded_le_randmax (iterate_seeded hseeded (i + 1))

theorem pseudorand_is_park_miller_first :
    (∃ val ps', pseudorand_random ⟨2147483646⟩ = .ok (.ok val, ps') ∧ ps'.ps_seed = 2147466840 ∧
      val ≤ pseudorand_randmax) ∧
    ∃ vals ps', randoms 3 ⟨305824⟩ = .ok (.ok vals, ps') ∧ vals.length = 3 ∧
      ps'.ps_seed = 16807 ^ 3 * 305824 % 2147483647 ∧ 1 ≤ ps'.ps_seed := by
  obtain ⟨hstep, hruns⟩ := pseudorand_is_park_miller
  obtain ⟨val, ps', hrun, hseed, -, -, -, hmax⟩ := hstep ⟨2147483646⟩ (by decide) (by decide)
  obtain ⟨vals, ps'', hrun', hlen, -, hseed', hpos, -⟩ := hruns [] [] ⟨305824⟩ rfl 3
  exact ⟨⟨val, ps', hrun, hseed, hmax⟩, vals, ps'', hrun', hlen, hseed', hpos⟩

end Runs

/-! ## Reading the device -/

def stream (x : Nat) : Mem := fun i => bytes (parkMiller^[i / 3 + 1] x - 1) (i % 3)

section Read

variable {ps : PseudorandSoftc} {u : Uio} {x : Nat}

theorem stream_first {i : Nat} (hi : i < 3) : stream x i = bytes (parkMiller x - 1) i := by
  rw [stream, Nat.div_eq_of_lt hi, Nat.mod_eq_of_lt hi]
  rfl

theorem stream_next (x : Nat) : (fun i => stream x (3 + i)) = stream (parkMiller x) := by
  funext i
  rw [stream, stream, show (3 + i) / 3 = i / 3 + 1 by omega, show (3 + i) % 3 = i % 3 by omega]
  rfl

theorem onUio_ok {α : Type} {m : Prog Panic Errno Uio α} {r : Except Errno α} {u' : Uio} (h : m u = .ok (r, u')) :
    onUio m (ps, u) = .ok (r, (ps, u')) := by
  rw [onUio, h]

theorem moved_bytes {n : Nat} (hn : n ≤ 3) :
    u.moved (bytes (parkMiller x - 1)) 0 n = u.moved (stream x) 0 n := by
  refine moved_congr fun i hi => ?_
  rw [Nat.zero_add, stream_first (by omega)]

theorem read_loop_run {fuel : Nat} (h : Seeded ps.ps_seed) (hsafe : u.Safe) (hlen : u.iov_len = u.uio_resid)
    (hpos : 0 < u.uio_resid) (h32 : u.uio_resid < 2 ^ 32) (hfuel : u.uio_resid < fuel) :
    read_loop fuel (ps, u) = .ok (.ok (), (⟨parkMiller^[(u.uio_resid + 2) / 3] ps.ps_seed⟩,
      u.moved (stream ps.ps_seed) 0 u.uio_resid)) := by
  induction fuel generalizing ps u with
  | zero => omega
  | succ fuel ih =>
    have hrandom := pseudorand_random_run h
    rw [read_loop, bind_ok (get_run _)]
    dsimp only
    rw [if_pos hpos, bind_ok (first_ok hrandom)]
    rcases Nat.lt_or_ge 3 u.uio_resid with hmore | hlast
    · have hmove := @uiomove_run u (bytes (parkMiller ps.ps_seed - 1)) 3 (by omega) (by omega) (by omega)
      rw [if_neg (by simp [faults_of_safe hsafe]), moved_bytes (Nat.le_refl 3)] at hmove
      have hresid : (u.moved (stream ps.ps_seed) 0 3).uio_resid = u.uio_resid - 3 := moved_resid (by omega) h32
      have hlen' : (u.moved (stream ps.ps_seed) 0 3).iov_len = u.iov_len - 3 := rfl
      have hrest : read_loop fuel (⟨parkMiller ps.ps_seed⟩, u.moved (stream ps.ps_seed) 0 3) = _ :=
        ih (parkMiller_seeded h) hsafe (by omega) (by omega) (by omega) (by omega)
      have hcalls : (u.uio_resid + 2) / 3 = (u.uio_resid - 3 + 2) / 3 + 1 := by omega
      rw [bind_ok (onUio_ok hmove), hrest, hresid, hcalls, Function.iterate_succ_apply, ← stream_next,
        moved_moved (by omega) h32, show 3 + (u.uio_resid - 3) = u.uio_resid by omega]
    · have hmove := uiomove_end (p := bytes (parkMiller ps.ps_seed - 1)) hlen hpos h32 hlast
      rw [if_neg (by simp [faults_of_safe hsafe]), moved_bytes hlast] at hmove
      have hresid : (u.moved (stream ps.ps_seed) 0 u.uio_resid).uio_resid = 0 := by
        rw [moved_resid (Nat.le_refl _) h32, Nat.sub_self]
      have hcalls : (u.uio_resid + 2) / 3 = 1 := by omega
      rw [bind_ok (onUio_ok hmove), hcalls]
      cases fuel with
      | zero => omega
      | succ fuel =>
        rw [read_loop, bind_ok (get_run _)]
        dsimp only
        rw [hresid, if_neg (Nat.lt_irrefl 0)]
        rfl

theorem pseudorand_read_run (h : Seeded ps.ps_seed) (hsafe : u.Safe) (hlen : u.iov_len = u.uio_resid)
    (hpos : 0 < u.uio_resid) (h32 : u.uio_resid < 2 ^ 32) :
    pseudorand_read (ps, u) = .ok (.ok (), (⟨parkMiller^[(u.uio_resid + 2) / 3] ps.ps_seed⟩,
      u.moved (stream ps.ps_seed) 0 u.uio_resid)) := by
  rw [pseudorand_read, bind_ok (get_run _)]
  exact read_loop_run h hsafe hlen hpos h32 (by omega)

def fourBytes : Uio := ⟨fun _ => 0, fun _ => true, 0, 4, 0, 4, .UIO_USERSPACE, .UIO_READ⟩

theorem pseudorand_read_run_four : pseudorand_read (⟨305824⟩, fourBytes) =
    .ok (.ok (), (⟨parkMiller (parkMiller 305824)⟩, fourBytes.moved (stream 305824) 0 4)) :=
  pseudorand_read_run (u := fourBytes) ⟨by decide, by decide⟩ (.inr fun _ => rfl) rfl (by decide) (by decide)

end Read

end Os161.Pseudorand
