import Mathlib.Data.List.Infix
import Os161.Lib.Count
import Os161.Lib.Lts
import Os161.Lib.Tally
import Os161.Lib.Words

/-! # `asst1/bowls.c`: cats, mice and their bowls -/

namespace Os161.Bowls

open Machine Tally Words

/-! ## The program -/

inductive Animal where
  | cat | mouse
  deriving DecidableEq, Repr

def Animal.other : Animal → Animal
  | .cat => .mouse
  | .mouse => .cat

/-- The statements of `cat_eat` and `mouse_eat`; what they print is left out. -/
inductive Stmt where
  | P | V | clocksleep
  | check_bowl | check_others | assert_free | assert_no_others | count_up | mark
  | assert_count | assert_mark | count_down | unmark
  deriving DecidableEq, Repr

def cat_eat : List Stmt :=
  [.P, .check_bowl, .check_others, .assert_free, .assert_no_others, .count_up, .mark, .V,
    .clocksleep,
    .P, .assert_count, .assert_mark, .count_down, .unmark, .V]

-- A mouse is taken off the count before its mark is looked at, a cat after it.
def mouse_eat : List Stmt :=
  [.P, .check_bowl, .check_others, .assert_free, .assert_no_others, .count_up, .mark, .V,
    .clocksleep,
    .P, .assert_count, .count_down, .assert_mark, .unmark, .V]

def eat : Animal → List Stmt
  | .cat => cat_eat
  | .mouse => mouse_eat

structure Shared where
  /-- `'c'`, `'m'`, or none for `'-'`. -/
  bowls : Nat → Option Animal
  num_bowls : Int
  /-- `eating_cats_count` and `eating_mice_count`. -/
  eating_count : Animal → Int
  mutex : Nat

inductive Stop where
  | invalid_bowl_number
  | two_eat
  | others_eat
  | assertion (s : Stmt)
  | blocked
  deriving DecidableEq, Repr

def exec (a : Animal) (b : Nat) (d : Shared) : Stmt → Except Stop Shared
  | .P => if 0 < d.mutex then .ok { d with mutex := d.mutex - 1 } else .error .blocked
  | .V => .ok { d with mutex := d.mutex + 1 }
  | .clocksleep => .ok d
  | .check_bowl => if d.bowls (b - 1) = some a then .error .two_eat else .ok d
  | .check_others => if d.eating_count a.other > 0 then .error .others_eat else .ok d
  | .assert_free => if d.bowls (b - 1) = none then .ok d else .error (.assertion .assert_free)
  | .assert_no_others =>
    if d.eating_count a.other = 0 then .ok d else .error (.assertion .assert_no_others)
  | .count_up => .ok { d with eating_count := Function.update d.eating_count a (d.eating_count a + 1) }
  | .mark => .ok { d with bowls := Function.update d.bowls (b - 1) (some a) }
  | .assert_count => if d.eating_count a > 0 then .ok d else .error (.assertion .assert_count)
  | .assert_mark => if d.bowls (b - 1) = some a then .ok d else .error (.assertion .assert_mark)
  | .count_down => .ok { d with eating_count := Function.update d.eating_count a (d.eating_count a - 1) }
  | .unmark => .ok { d with bowls := Function.update d.bowls (b - 1) none }

structure Meal where
  animal : Animal
  bowlnumber : Nat
  code : List Stmt
  deriving DecidableEq, Repr

structure World (ι : Type) where
  data : Shared
  meal : ι → Option Meal

inductive Choice (ι : Type) where
  | call (t : ι) (a : Animal) (bowlnumber : Nat)
  | run (t : ι)
  deriving DecidableEq, Repr

section

variable {ι : Type} [DecidableEq ι]

def World.call (w : World ι) (t : ι) (a : Animal) (bowlnumber : Nat) : Except Stop (World ι) :=
  if (w.meal t).isSome then .error .blocked
  else if bowlnumber = 0 ∨ toI32 bowlnumber > w.data.num_bowls then .error .invalid_bowl_number
  else .ok { w with meal := Function.update w.meal t (some ⟨a, bowlnumber, eat a⟩) }

def World.run (w : World ι) (t : ι) : Except Stop (World ι) :=
  match w.meal t with
  | none => .error .blocked
  | some ⟨_, _, []⟩ => .ok { w with meal := Function.update w.meal t none }
  | some ⟨a, b, s :: code⟩ =>
    (exec a b w.data s).map fun d => ⟨d, Function.update w.meal t (some ⟨a, b, code⟩)⟩

def step (w : World ι) : Choice ι → Except Stop (World ι)
  | .call t a bowlnumber => w.call t a bowlnumber
  | .run t => w.run t

def initialize_bowls (bowlcount : Nat) : Option Shared :=
  if bowlcount = 0 then none
  else some ⟨fun _ => none, toI32 bowlcount, fun _ => 0, 1⟩

def animals (ι : Type) [DecidableEq ι] : Machine (World ι) (Choice ι) Unit Stop where
  init w := ∃ bowlcount d, initialize_bowls bowlcount = some d ∧ w = ⟨d, fun _ => none⟩
  step w c := (step w c).map fun w' => (w', [])

def InRange (w : World ι) : Choice ι → Prop
  | .call _ _ bowlnumber => 1 ≤ bowlnumber ∧ (bowlnumber : Int) ≤ w.data.num_bowls
  | .run _ => True

instance decidableInRange (w : World ι) : (c : Choice ι) → Decidable (InRange w c)
  | .call _ _ bowlnumber => inferInstanceAs (Decidable (1 ≤ bowlnumber ∧ (bowlnumber : Int) ≤ w.data.num_bowls))
  | .run _ => inferInstanceAs (Decidable True)

end

/-! ## Where an animal is

Told by the statements that are left of its call.
-/

section Code

variable (code : List Stmt)

def inside : Bool := code.count .P < code.count .V

def between : Bool := code.count .P = 1 && code.count .V = 1

def counted : Bool := .count_up ∉ code && .count_down ∈ code

def marked : Bool := .mark ∉ code && .unmark ∈ code

def alone : Bool := .check_others ∉ code && .count_up ∈ code

def vacant : Bool := .assert_free ∉ code && .mark ∈ code

end Code

section Rest

variable {a : Animal} {s : Stmt} {code : List Stmt}

theorem forall_rest {p : List Stmt → Prop} (hcat : ∀ l ∈ cat_eat.tails, p l)
    (hmouse : ∀ l ∈ mouse_eat.tails, p l) (h : code <:+ eat a) : p code := by
  cases a with
  | cat => exact hcat code ((List.mem_tails _ _).mpr h)
  | mouse => exact hmouse code ((List.mem_tails _ _).mpr h)

structure Passes (s : Stmt) (code : List Stmt) : Prop where
  inside : (inside code).toNat + Bool.toNat (s = .V) = (inside (s :: code)).toNat + Bool.toNat (s = .P)
  counted : (counted code).toNat + Bool.toNat (s = .count_down) =
    (counted (s :: code)).toNat + Bool.toNat (s = .count_up)
  marked : (marked code).toNat + Bool.toNat (s = .unmark) = (marked (s :: code)).toNat + Bool.toNat (s = .mark)
  marked_of : Bowls.marked code = true → s = .mark ∨ Bowls.marked (s :: code) = true ∧ s ≠ .unmark
  alone_of : alone code = true → s = .check_others ∨ alone (s :: code) = true
  vacant_of : vacant code = true →
    s = .assert_free ∨ vacant (s :: code) = true ∧ s ≠ .mark ∧ s ≠ .unmark

theorem passes_of_rest (h : s :: code <:+ eat a) : Passes s code := by
  have hall := forall_rest (p := fun l => ∀ s ∈ l.head?,
    (inside l.tail).toNat + Bool.toNat (s = .V) = (inside l).toNat + Bool.toNat (s = .P) ∧
    (counted l.tail).toNat + Bool.toNat (s = .count_down) = (counted l).toNat + Bool.toNat (s = .count_up) ∧
    (marked l.tail).toNat + Bool.toNat (s = .unmark) = (marked l).toNat + Bool.toNat (s = .mark) ∧
    (marked l.tail = true → s = .mark ∨ marked l = true ∧ s ≠ .unmark) ∧
    (alone l.tail = true → s = .check_others ∨ alone l = true) ∧
    (vacant l.tail = true → s = .assert_free ∨ vacant l = true ∧ s ≠ .mark ∧ s ≠ .unmark))
    (by decide) (by decide) h
  obtain ⟨h1, h2, h3, h4, h5, h6⟩ := hall s rfl
  exact ⟨h1, h2, h3, h4, h5, h6⟩

theorem inside_of_writes (h : s :: code <:+ eat a)
    (hs : s = .count_up ∨ s = .mark ∨ s = .count_down ∨ s = .unmark) : inside (s :: code) = true := by
  have := forall_rest (p := fun l => l.head? = some .count_up ∨ l.head? = some .mark ∨
    l.head? = some .count_down ∨ l.head? = some .unmark → inside l = true) (by decide) (by decide) h
  exact this (by simpa using hs)

theorem inside_of_found (h : code <:+ eat a) (hf : alone code = true ∨ vacant code = true) :
    inside code = true :=
  forall_rest (p := fun l => alone l = true ∨ vacant l = true → inside l = true) (by decide) (by decide) h hf

theorem ready_of_rest (h : s :: code <:+ eat a) :
    (s = .P → inside (s :: code) = false) ∧ (s = .V → inside (s :: code) = true) ∧
    (s = .count_up → counted (s :: code) = false ∧ alone (s :: code) = true) ∧
    (s = .mark → marked (s :: code) = false ∧ vacant (s :: code) = true) ∧
    (s = .count_down ∨ s = .assert_count → counted (s :: code) = true) ∧
    (s = .unmark ∨ s = .assert_mark → marked (s :: code) = true) := by
  have := forall_rest (p := fun l =>
    (l.head? = some .P → inside l = false) ∧ (l.head? = some .V → inside l = true) ∧
    (l.head? = some .count_up → counted l = false ∧ alone l = true) ∧
    (l.head? = some .mark → marked l = false ∧ vacant l = true) ∧
    (l.head? = some .count_down ∨ l.head? = some .assert_count → counted l = true) ∧
    (l.head? = some .unmark ∨ l.head? = some .assert_mark → marked l = true)) (by decide) (by decide) h
  simpa using this

theorem between_of_outside (h : code <:+ eat a) (ho : inside code = false) :
    counted code = between code ∧ marked code = between code :=
  forall_rest (p := fun l => inside l = false → counted l = between l ∧ marked l = between l)
    (by decide) (by decide) h ho

end Rest

/-! ## What one statement does -/

structure Effect (a : Animal) (b : Nat) (d : Shared) (s : Stmt) (d' : Shared) : Prop where
  num_bowls : d'.num_bowls = d.num_bowls
  mutex : d'.mutex + Bool.toNat (s = .P) = d.mutex + Bool.toNat (s = .V)
  count : d'.eating_count a = d.eating_count a + Bool.toNat (s = .count_up) - Bool.toNat (s = .count_down)
  others : ∀ x ≠ a, d'.eating_count x = d.eating_count x
  bowls : d'.bowls = if s = .mark then Function.update d.bowls (b - 1) (some a)
    else if s = .unmark then Function.update d.bowls (b - 1) none else d.bowls
  free : s = .assert_free → d.bowls (b - 1) = none
  no_others : s = .check_others → d.eating_count a.other ≤ 0

theorem exec_effect {a : Animal} {b : Nat} {s : Stmt} {d d' : Shared} (h : exec a b d s = .ok d') :
    Effect a b d s d' := by
  cases s
  case P =>
    simp only [exec] at h
    split at h
    · cases h
      constructor <;> simp
      omega
    · cases h
  case V | clocksleep | mark | unmark =>
    cases h
    constructor <;> simp
  case count_up | count_down =>
    cases h
    constructor <;> simp_all
  case check_bowl | assert_free | assert_no_others | assert_count | assert_mark | check_others =>
    simp only [exec] at h
    split at h <;> cases h
    constructor <;> simp_all

theorem exec_assertion {a : Animal} {b : Nat} {s s' : Stmt} {d : Shared}
    (h : exec a b d s' = .error (.assertion s)) :
    s' = s ∧ (s = .assert_count → d.eating_count a ≤ 0) ∧ (s = .assert_mark → d.bowls (b - 1) ≠ some a) := by
  cases s' <;> simp only [exec] at h
  case assert_free | assert_no_others | assert_count | assert_mark =>
    split at h <;> cases h
    simp_all
  case P | check_bowl | check_others => split at h <;> cases h
  all_goals cases h

namespace Effect

variable {a : Animal} {b : Nat} {s : Stmt} {d d' : Shared}

theorem count_of_ne (h : Effect a b d s d') (hs : s ≠ .count_up ∧ s ≠ .count_down) (x : Animal) :
    d'.eating_count x = d.eating_count x := by
  by_cases hx : x = a
  · subst hx
    have := h.count
    simpa [hs.1, hs.2] using this
  · exact h.others x hx

theorem count_le (h : Effect a b d s d') (hs : s ≠ .count_up) (x : Animal) :
    d'.eating_count x ≤ d.eating_count x := by
  by_cases hx : s = .count_down
  · by_cases hxa : x = a
    · subst hxa
      have := h.count
      simp [hx] at this
      omega
    · rw [h.others x hxa]
  · rw [h.count_of_ne ⟨hs, hx⟩]

theorem bowls_of_ne (h : Effect a b d s d') (hs : s ≠ .mark ∧ s ≠ .unmark) : d'.bowls = d.bowls := by
  rw [h.bowls, if_neg hs.1, if_neg hs.2]

theorem bowls_other (h : Effect a b d s d') {i : Nat} (hi : i ≠ b - 1) : d'.bowls i = d.bowls i := by
  rw [h.bowls]
  split
  · exact Function.update_of_ne hi _ _
  · split
    · exact Function.update_of_ne hi _ _
    · rfl

end Effect

/-! ## What every statement keeps -/

section Runs

variable {ι : Type} [Fintype ι] {w w' : World ι} {t : ι} {a : Animal} {b : Nat} {s : Stmt}
  {code : List Stmt}

def isAt (p : List Stmt → Bool) (o : Option Meal) : Bool := o.any fun m => p m.code

def isAtFor (a : Animal) (p : List Stmt → Bool) (o : Option Meal) : Bool :=
  o.any fun m => m.animal = a && p m.code

def eating (w : World ι) (a : Animal) : Nat := tally (isAtFor a between) w.meal

structure Inv (w : World ι) : Prop where
  rest : ∀ t m, w.meal t = some m → m.code <:+ eat m.animal
  range : ∀ t m, w.meal t = some m → 1 ≤ m.bowlnumber ∧ (m.bowlnumber : Int) ≤ w.data.num_bowls
  mutex : w.data.mutex + tally (isAt inside) w.meal = 1
  count : ∀ a, w.data.eating_count a = tally (isAtFor a counted) w.meal
  bowls : ∀ a, Table.count w.data.num_bowls.toNat w.data.bowls a = tally (isAtFor a marked) w.meal
  mark : ∀ t m, w.meal t = some m → marked m.code = true → w.data.bowls (m.bowlnumber - 1) = some m.animal
  one : ∀ t m, w.meal t = some m → ∀ u m', w.meal u = some m' → marked m.code = true →
    marked m'.code = true → m.bowlnumber = m'.bowlnumber → t = u
  alone : ∀ t m, w.meal t = some m → alone m.code = true → w.data.eating_count m.animal.other ≤ 0
  vacant : ∀ t m, w.meal t = some m → vacant m.code = true → w.data.bowls (m.bowlnumber - 1) = none
  apart : w.data.eating_count .cat ≤ 0 ∨ w.data.eating_count .mouse ≤ 0

namespace Inv

theorem alone_inside (h : Inv w) {u : ι} {m : Meal} (ht : w.meal t = some ⟨a, b, s :: code⟩)
    (hs : s = .count_up ∨ s = .mark ∨ s = .count_down ∨ s = .unmark) (hu : w.meal u = some m)
    (hm : inside m.code = true) : u = t := by
  have hle : tally (isAt inside) w.meal ≤ 1 := by have := h.mutex; omega
  have hin := inside_of_writes (h.rest t _ ht) hs
  exact eq_of_tally_le hle (by simpa [isAt, hu] using hm) (by simpa [isAt, ht] using hin)

theorem start {bowlcount : Nat} {d : Shared} (hd : initialize_bowls bowlcount = some d) :
    Inv (⟨d, fun _ => none⟩ : World ι) := by
  have hzero (p : Option Meal → Bool) (hp : p none = false) : tally p (fun _ : ι => none) = 0 :=
    tally_eq_zero.mpr fun _ => hp
  unfold initialize_bowls at hd
  split at hd
  · cases hd
  · cases hd
    constructor
    case mutex => simp [hzero (isAt inside) rfl]
    case count => intro a; simp [hzero (isAtFor a counted) rfl]
    case bowls => intro a; simp [hzero (isAtFor a marked) rfl, Table.count]
    all_goals simp

theorem only_mark (h : Inv w) (ht : w.meal t = some ⟨a, b, s :: code⟩) (hm : marked code = true) {u : ι}
    {m : Meal} (hu : w.meal u = some m) (hmu : marked m.code = true) (hb : m.bowlnumber = b) : u = t := by
  have hrest := h.rest t _ ht
  rcases (passes_of_rest hrest).marked_of hm with hs | ⟨hmark, -⟩
  · have hfree := h.vacant t _ ht ((ready_of_rest hrest).2.2.2.1 hs).2
    have hmark := h.mark u m hu hmu
    rw [hb] at hmark
    simp [hfree] at hmark
  · exact h.one u m hu t _ ht hmu hmark hb

theorem bowls_exec (h : Inv w) {d : Shared} (ht : w.meal t = some ⟨a, b, s :: code⟩)
    (hd : exec a b w.data s = .ok d) (x : Animal) :
    (Table.count d.num_bowls.toNat d.bowls x : Int) =
      Table.count w.data.num_bowls.toNat w.data.bowls x +
        if x = a then (Bool.toNat (s = .mark) : Int) - Bool.toNat (s = .unmark) else 0 := by
  have heff := exec_effect hd
  obtain ⟨-, -, -, hset, -, hclear⟩ := ready_of_rest (h.rest t _ ht)
  obtain ⟨hb1, hbn⟩ : 1 ≤ b ∧ (b : Int) ≤ w.data.num_bowls := h.range t _ ht
  have hlt : b - 1 < w.data.num_bowls.toNat := by omega
  rw [heff.num_bowls, heff.bowls]
  by_cases hs : s = .mark
  · have hfree : w.data.bowls (b - 1) = none := h.vacant t _ ht (hset hs).2
    rw [if_pos hs, Table.count_update _ _ hlt, hfree]
    simp [hs, eq_comm]
  · rw [if_neg hs]
    by_cases hs' : s = .unmark
    · have hmine : w.data.bowls (b - 1) = some a := h.mark t _ ht (hclear (.inl hs'))
      rw [if_pos hs', Table.count_update _ _ hlt, hmine]
      simp [hs', eq_comm]
      split <;> omega
    · simp [hs, hs']

theorem between_of_free (h : Inv w) (hfree : w.data.mutex = 1) {m : Meal} (ht : w.meal t = some m) :
    counted m.code = between m.code ∧ marked m.code = between m.code := by
  have hnone : tally (isAt inside) w.meal = 0 := by have := h.mutex; omega
  have hout := tally_eq_zero.mp hnone t
  rw [ht] at hout
  exact between_of_outside (h.rest t m ht) hout

theorem eating_eq (h : Inv w) (hfree : w.data.mutex = 1) (a : Animal) :
    tally (isAtFor a counted) w.meal = eating w a ∧ tally (isAtFor a marked) w.meal = eating w a := by
  constructor
  all_goals
    refine tally_congr fun t => ?_
    cases ht : w.meal t with
    | none => rfl
    | some m => simp [isAtFor, h.between_of_free hfree ht]

variable [DecidableEq ι]

theorem tally_for {p : List Stmt → Bool} (ht : w.meal t = some ⟨a, b, s :: code⟩) (x : Animal) :
    (tally (isAtFor x p) (Function.update w.meal t (some ⟨a, b, code⟩)) : Int) =
      tally (isAtFor x p) w.meal + if x = a then ((p code).toNat : Int) - (p (s :: code)).toNat else 0 := by
  have htally := tally_update (isAtFor x p) w.meal t (some ⟨a, b, code⟩)
  rw [ht] at htally
  by_cases hx : x = a
  · subst hx
    simp only [isAtFor, Option.any_some, decide_true, Bool.true_and] at htally
    rw [if_pos rfl]
    omega
  · simp only [isAtFor, Option.any_some, Ne.symm hx, decide_false, Bool.false_and, Bool.toNat_false] at htally
    rw [if_neg hx]
    omega

theorem moves (h : Inv w) {o : Option Meal}
    (hold : ∀ p ∈ [inside, counted, marked, Bowls.alone, Bowls.vacant], isAt p (w.meal t) = false)
    (hnew : ∀ p ∈ [inside, counted, marked, Bowls.alone, Bowls.vacant], isAt p o = false)
    (hlegal : ∀ m, o = some m → m.code <:+ eat m.animal ∧ 1 ≤ m.bowlnumber ∧
      (m.bowlnumber : Int) ≤ w.data.num_bowls) :
    Inv { w with meal := Function.update w.meal t o } := by
  have hfor (a : Animal) {p : List Stmt → Bool} {o : Option Meal} (ho : isAt p o = false) :
      isAtFor a p o = false := by
    cases o <;> simp_all [isAt, isAtFor]
  have hnot {p : List Stmt → Bool} {m : Meal} (ho : isAt p o = false) (hm : o = some m) : p m.code = false := by
    simpa [hm, isAt] using ho
  simp only [List.forall_mem_cons] at hold hnew
  obtain ⟨hin, hcount, hmark, -, -, -⟩ := hold
  obtain ⟨hin', hcount', hmark', halone', hvacant', -⟩ := hnew
  constructor
  case rest => exact forall_some_update (fun u m _ hu => h.rest u m hu) fun m hm => (hlegal m hm).1
  case range => exact forall_some_update (fun u m _ hu => h.range u m hu) fun m hm => (hlegal m hm).2
  case mutex =>
    simp only [tally_update_same (hin'.trans hin.symm)]
    exact h.mutex
  case count =>
    intro a
    simp only [tally_update_same ((hfor a hcount').trans (hfor a hcount).symm)]
    exact h.count a
  case bowls =>
    intro a
    simp only [tally_update_same ((hfor a hmark').trans (hfor a hmark).symm)]
    exact h.bowls a
  case mark =>
    exact forall_some_update (fun u m _ hu => h.mark u m hu) fun m hm hp => by simp [hnot hmark' hm] at hp
  case one =>
    refine forall_some_update (fun u m _ hu => forall_some_update (fun v m' _ hv => h.one u m hu v m' hv) ?_) ?_
    · intro m' hm' _ hp
      simp [hnot hmark' hm'] at hp
    · intro m hm v m' _ hp
      simp [hnot hmark' hm] at hp
  case alone =>
    exact forall_some_update (fun u m _ hu => h.alone u m hu) fun m hm hp => by simp [hnot halone' hm] at hp
  case vacant =>
    exact forall_some_update (fun u m _ hu => h.vacant u m hu) fun m hm hp => by simp [hnot hvacant' hm] at hp
  case apart => exact h.apart

theorem exec (h : Inv w) {d : Shared} (ht : w.meal t = some ⟨a, b, s :: code⟩)
    (hd : exec a b w.data s = .ok d) : Inv ⟨d, Function.update w.meal t (some ⟨a, b, code⟩)⟩ := by
  have hrest := h.rest t _ ht
  have hpass := passes_of_rest hrest
  obtain ⟨hP, hV, hup, hset, hdown, hclear⟩ := ready_of_rest hrest
  have heff := exec_effect hd
  obtain ⟨hb1, hbn⟩ : 1 ≤ b ∧ (b : Int) ≤ w.data.num_bowls := h.range t _ ht
  have hother : a.other ≠ a := by cases a <;> decide
  constructor
  case rest =>
    exact forall_some_update (fun u m _ hu => h.rest u m hu) fun m hm => by
      cases hm
      exact (List.suffix_cons s code).trans hrest
  case range =>
    rw [heff.num_bowls]
    exact forall_some_update (fun u m _ hu => h.range u m hu) fun m hm => by
      cases hm
      exact ⟨hb1, hbn⟩
  case mutex =>
    have htally := tally_update (isAt inside) w.meal t (some ⟨a, b, code⟩)
    have := h.mutex
    have := heff.mutex
    have := hpass.inside
    simp only [ht, isAt, Option.any_some] at *
    omega
  case count =>
    intro x
    rw [tally_for ht]
    by_cases hx : x = a
    · subst hx
      have := hpass.counted
      rw [heff.count, h.count, if_pos rfl]
      omega
    · rw [heff.others x hx, h.count, if_neg hx, Int.add_zero]
  case bowls =>
    intro x
    have htally := tally_for (p := marked) ht x
    have hcount := h.bowls_exec ht hd x
    have := h.bowls x
    have := hpass.marked
    have hsame : (Table.count d.num_bowls.toNat d.bowls x : Int) =
        tally (isAtFor x marked) (Function.update w.meal t (some ⟨a, b, code⟩)) := by
      by_cases hx : x = a
      · simp only [hx, if_true] at *
        omega
      · simp only [hx, if_false] at *
        omega
    exact Int.ofNat.inj hsame
  case mark =>
    refine forall_some_update (fun u m hne hu hm => ?_) fun m hmeal hm => ?_
    · have hold := h.mark u m hu hm
      have hrange := (h.range u m hu).1
      by_cases hs : s ≠ .mark ∧ s ≠ .unmark
      · rw [heff.bowls_of_ne hs, hold]
      · rw [heff.bowls_other, hold]
        intro hb
        by_cases hmark : s = .mark
        · have hfree : w.data.bowls (b - 1) = none := h.vacant t _ ht (hset hmark).2
          rw [hb, hfree] at hold
          cases hold
        · have hmine := hclear (.inl (by simpa [hmark] using hs))
          exact hne (h.one u m hu t _ ht hm hmine (show m.bowlnumber = b by omega))
    · cases hmeal
      change d.bowls (b - 1) = some a
      rw [heff.bowls]
      rcases hpass.marked_of hm with hs | ⟨hm, hs⟩
      · simp [hs]
      · have hold : w.data.bowls (b - 1) = some a := h.mark t _ ht hm
        split
        · simp
        · simpa [hs] using hold
  case one =>
    refine forall_some_update (fun u m hne hu => forall_some_update (fun v m' _ hv => h.one u m hu v m' hv) ?_) ?_
    · intro m' hmeal hm hm' hb
      cases hmeal
      exact h.only_mark ht hm' hu hm hb
    · intro m hmeal
      cases hmeal
      refine forall_some_update (fun v m' _ hv hm hm' hb => ?_) fun _ _ _ _ _ => rfl
      exact (h.only_mark ht hm hv hm' hb.symm).symm
  case alone =>
    refine forall_some_update (fun u m hne hu hm => ?_) fun m hmeal hm => ?_
    · have hin := inside_of_found (h.rest u m hu) (.inl hm)
      rw [heff.count_of_ne]
      · exact h.alone u m hu hm
      · constructor <;> intro hs <;> exact hne (h.alone_inside ht (by simp [hs]) hu hin)
    · cases hmeal
      rw [heff.others _ hother]
      rcases hpass.alone_of hm with hs | hm
      · exact heff.no_others hs
      · exact h.alone t _ ht hm
  case vacant =>
    refine forall_some_update (fun u m hne hu hm => ?_) fun m hmeal hm => ?_
    · have hin := inside_of_found (h.rest u m hu) (.inr hm)
      rw [heff.bowls_of_ne]
      · exact h.vacant u m hu hm
      · constructor <;> intro hs <;> exact hne (h.alone_inside ht (by simp [hs]) hu hin)
    · cases hmeal
      rcases hpass.vacant_of hm with hs | ⟨hm, hs⟩
      · rw [heff.bowls_of_ne (by simp [hs])]
        exact heff.free hs
      · rw [heff.bowls_of_ne hs]
        exact h.vacant t ⟨a, b, s :: code⟩ ht hm
  case apart =>
    by_cases hs : s = .count_up
    · have hzero := h.alone t _ ht (hup hs).2
      rw [← heff.others _ hother] at hzero
      cases a with
      | cat => exact .inr hzero
      | mouse => exact .inl hzero
    · exact h.apart.imp (heff.count_le hs _).trans (heff.count_le hs _).trans

theorem run (h : Inv w) (hr : w.run t = .ok w') : Inv w' := by
  unfold World.run at hr
  rcases hmeal : w.meal t with _ | ⟨a, b, _ | ⟨s, code⟩⟩
  · simp [hmeal] at hr
  · simp only [hmeal, Except.ok.injEq] at hr
    subst hr
    refine h.moves ?_ (by simp [isAt]) (by simp)
    rw [hmeal]
    simp [isAt, inside, counted, marked, Bowls.alone, Bowls.vacant]
  · simp only [hmeal] at hr
    cases hd : Bowls.exec a b w.data s with
    | error e => simp [hd, Except.map] at hr
    | ok d =>
      simp only [hd, Except.map, Except.ok.injEq] at hr
      subst hr
      exact h.exec hmeal hd

theorem call (h : Inv w) (hb : 1 ≤ b ∧ (b : Int) ≤ w.data.num_bowls) (hc : w.call t a b = .ok w') :
    Inv w' := by
  have hstart : ∀ p ∈ [inside, counted, marked, Bowls.alone, Bowls.vacant], p (eat a) = false := by
    cases a <;> simp [eat, cat_eat, mouse_eat, inside, counted, marked, Bowls.alone, Bowls.vacant]
  unfold World.call at hc
  split at hc
  · cases hc
  · rename_i hnone
    have hnone : w.meal t = none := by simpa using hnone
    split at hc
    · cases hc
    · cases hc
      refine h.moves (by simp [hnone, isAt]) (by simpa [isAt] using hstart) ?_
      intro m hm
      cases hm
      exact ⟨List.suffix_refl _, hb⟩

end Inv

variable [DecidableEq ι]

theorem inv_of_reach {tr : List Unit} (h : Reach (animals ι) InRange w tr) : Inv w := by
  refine h.invariant (I := fun w _ => Inv w) ?_ ?_
  · rintro w ⟨bowlcount, d, hd, rfl⟩
    exact Inv.start hd
  · intro w w' c tr es _ hinv hok hs
    cases hc : step w c with
    | error e => simp [animals, hc, Except.map] at hs
    | ok w'' =>
      simp only [animals, hc, Except.map, Except.ok.injEq, Prod.mk.injEq] at hs
      obtain ⟨rfl, -⟩ := hs
      cases c with
      | call t a b => exact hinv.call hok hc
      | run t => exact hinv.run hc

/-! ## Results -/

theorem Inv.finishes (h : Inv w) (hs : s = .assert_count ∨ s = .assert_mark) :
    w.run t ≠ .error (.assertion s) := by
  intro hrun
  unfold World.run at hrun
  rcases hmeal : w.meal t with _ | ⟨a, b, _ | ⟨s', code⟩⟩
  · simp [hmeal] at hrun
  · simp [hmeal] at hrun
  · simp only [hmeal] at hrun
    cases hd : Bowls.exec a b w.data s' with
    | ok d => simp [hd, Except.map] at hrun
    | error e =>
      simp only [hd, Except.map, Except.error.injEq] at hrun
      subst hrun
      obtain ⟨rfl, hcount, hmark⟩ := exec_assertion hd
      obtain ⟨-, -, -, -, hcounted, hmarked⟩ := ready_of_rest (h.rest t _ hmeal)
      rcases hs with rfl | rfl
      · have hpos := tally_pos (p := isAtFor a counted) (t := t) (f := w.meal)
          (by simpa [isAtFor, hmeal] using hcounted)
        have := h.count a
        have := hcount rfl
        omega
      · exact hmark rfl (h.mark t _ hmeal (hmarked (.inr rfl)))

theorem legal_meals {tr : List Unit} (h : Reach (animals ι) InRange w tr) :
    (w.data.mutex = 1 →
      (∀ a, w.data.eating_count a = Table.count w.data.num_bowls.toNat w.data.bowls a ∧
        w.data.eating_count a = eating w a) ∧
      ¬ (0 < w.data.eating_count .cat ∧ 0 < w.data.eating_count .mouse) ∧
      ∀ t u m m', w.meal t = some m → w.meal u = some m' → between m.code = true → between m'.code = true →
        m.bowlnumber = m'.bowlnumber → t = u) ∧
    ∀ t s, s = .assert_count ∨ s = .assert_mark → step w (.run t) ≠ .error (.assertion s) := by
  have hinv := inv_of_reach h
  refine ⟨fun hfree => ⟨fun a => ?_, ?_, ?_⟩, fun t s hs => hinv.finishes hs⟩
  · obtain ⟨hcounted, hmarked⟩ := hinv.eating_eq hfree a
    exact ⟨by rw [hinv.count, hinv.bowls, hcounted, hmarked], by rw [hinv.count, hcounted]⟩
  · rintro ⟨hcat, hmouse⟩
    rcases hinv.apart with h | h <;> omega
  · intro t u m m' ht hu hm hm' hb
    rw [← (hinv.between_of_free hfree ht).2] at hm
    rw [← (hinv.between_of_free hfree hu).2] at hm'
    exact hinv.one t m ht u m' hu hm hm' hb

end Runs

theorem legal_meals_one_cat : ∃ w tr, Reach (animals (Fin 2)) InRange w tr ∧
    w.data.eating_count .cat = 1 ∧ eating w .cat = 1 ∧ Table.count 3 w.data.bowls .cat = 1 := by
  obtain ⟨w, tr, hr, hcheck⟩ := Machine.exists_runOk (M := animals (Fin 2))
    (s := ⟨⟨fun _ => none, 3, fun _ => 0, 1⟩, fun _ => none⟩) InRange
    ([.call 0 .cat 2, .call 1 .cat 1] ++ List.replicate 8 (.run 0))
    (fun x => decide (x.1.data.mutex = 1 ∧ x.1.data.eating_count .cat = 1 ∧ x.1.data.num_bowls = 3))
    ⟨3, _, rfl, rfl⟩ (by decide +kernel)
  obtain ⟨hfree, hcat, hn⟩ : w.data.mutex = 1 ∧ w.data.eating_count .cat = 1 ∧ w.data.num_bowls = 3 :=
    of_decide_eq_true hcheck
  obtain ⟨⟨hcount, -, -⟩, -⟩ := (legal_meals hr).imp_left fun h => h hfree
  obtain ⟨hbowls, heating⟩ := hcount .cat
  rw [hn] at hbowls
  rw [hcat] at hbowls heating
  exact ⟨w, tr, hr, hcat, by omega, by simpa using (Int.ofNat.inj hbowls).symm⟩

end Os161.Bowls
