import Os161.Kern.Basic
import Os161.Lib.Calls
import Os161.Lib.Prog

/-! # `lib/array.c` and the block its slots are in

The array with what the pointer `v` points to, so that an access outside the block, a failed assertion and an `int` that
overflows all stop the machine.
-/

namespace Os161.Slots

open Prog Calls

/-! ## The code -/

inductive Stop where
  | assertion | bounds | overflow
  deriving DecidableEq, Repr

/-- What the next `kmalloc` calls return: NULL, or a block with what happens to be in it. The calls after the last one
return NULL. -/
abbrev Blocks (α : Type) := List (Option (Nat → α))

abbrev ArrayProg (α β : Type) := Prog Stop Errno (Blocks α) β

structure SlotArray (α : Type) where
  num : Nat
  max : Nat
  v : Option (List α)

section Code

variable {α : Type}

def Blocks.next : Blocks α → Option (Nat → α) × Blocks α
  | [] => (none, [])
  | b :: h => (b, h)

def kmalloc (bytes : Nat) : ArrayProg α (Option (List α)) := fun h =>
  .ok (.ok (h.next.1.map fun junk => (List.range (bytes / 4)).map junk), h.next.2)

def load (v : Option (List α)) (i : Nat) : ArrayProg α α :=
  match (v.getD [])[i]? with
  | some x => pure x
  | none => stop .bounds

def store (v : Option (List α)) (i : Nat) (x : α) : ArrayProg α (Option (List α)) := do
  ensure (i < (v.getD []).length) .bounds
  return v.map (·.set i x)

def move (v : Option (List α)) (dst src n : Nat) : ArrayProg α (Option (List α)) := do
  ensure (dst + n ≤ (v.getD []).length ∧ src + n ≤ (v.getD []).length) .bounds
  return v.map fun slots => slots.take dst ++ (slots.drop src).take n ++ slots.drop (dst + n)

/-- NULL if there is no memory. -/
def array_create : ArrayProg α (Option (SlotArray α)) := do
  let a ← kmalloc 12
  return a.map fun _ => ⟨0, 0, none⟩

def array_getnum (a : SlotArray α) : Nat := a.num

def array_getguy (a : SlotArray α) (index : Nat) : ArrayProg α α := do
  ensure (a.num ≤ a.max) .assertion
  ensure (index < a.num) .assertion
  load a.v index

def array_newmax : Nat → Nat → Nat → ArrayProg α Nat
  | 0, newmax, _ => pure newmax
  | fuel + 1, newmax, nguys =>
    if nguys > newmax then do
      ensure ((newmax + 1) * 2 < 2 ^ 31) .overflow
      array_newmax fuel ((newmax + 1) * 2) nguys
    else pure newmax

def array_copy (v : Option (List α)) : Nat → Nat → Option (List α) → ArrayProg α (Option (List α))
  | 0, _, newv => pure newv
  | n + 1, i, newv => do
    let x ← load v i
    let newv ← store newv i x
    array_copy v n (i + 1) newv

def array_preallocate (a : SlotArray α) (nguys : Nat) : ArrayProg α (SlotArray α) := do
  ensure (a.num ≤ a.max) .assertion
  let newmax ← array_newmax nguys a.max nguys
  let newv ← kmalloc (newmax * 4 % 2 ^ 32)
  if newv.isNone then
    throw .ENOMEM
  let newv ← array_copy a.v a.num 0 newv
  return ⟨a.num, newmax, newv⟩

def array_resize (a : SlotArray α) (nguys : Nat) : ArrayProg α (SlotArray α) :=
  if nguys > a.max then
    array_preallocate a nguys
  else if nguys = 0 ∧ a.max > 16 then do
    ensure (a.v.isSome = true) .assertion
    return ⟨a.num, 0, none⟩
  else
    pure a

def array_setsize (a : SlotArray α) (nguys : Nat) : ArrayProg α (SlotArray α) := do
  ensure (a.num ≤ a.max) .assertion
  let a ← array_resize a nguys
  return { a with num := nguys }

def array_setguy (a : SlotArray α) (index : Nat) (ptr : α) : ArrayProg α (SlotArray α) := do
  ensure (a.num ≤ a.max) .assertion
  ensure (index < a.num) .assertion
  let v ← store a.v index ptr
  return { a with v := v }

def array_add (a : SlotArray α) (guy : α) : ArrayProg α (SlotArray α) := do
  let ix := a.num
  let a ← array_setsize a (ix + 1)
  let v ← store a.v ix guy
  return { a with v := v }

def array_remove (a : SlotArray α) (index : Nat) : ArrayProg α (SlotArray α) := do
  ensure (a.num ≤ a.max) .assertion
  ensure (index < a.num) .assertion
  let v ← move a.v index (index + 1) (a.num - (index + 1))
  return { a with num := a.num - 1, v := v }

end Code

/-! ## The block -/

structure SlotArray.Wf {α : Type} (a : SlotArray α) : Prop where
  num_le : a.num ≤ a.max
  slots : (a.v.getD []).length = a.max
  small : a.max < 2 ^ 30
  even : a.max % 2 = 0

def SlotArray.toList {α : Type} (a : SlotArray α) : List α := (a.v.getD []).take a.num

section Block

variable {α : Type} {a b : SlotArray α} {h : Blocks α} {slots : List α} {i n : Nat} {x : α}

theorem SlotArray.Wf.length_toList (ha : a.Wf) : a.toList.length = a.num := by
  have := ha.num_le
  rw [toList, List.length_take, ha.slots]
  omega

theorem load_run (hi : i < slots.length) : load (some slots) i h = .ok (.ok (slots.get ⟨i, hi⟩), h) := by
  unfold load
  rw [Option.getD_some, List.getElem?_eq_getElem hi]
  rfl

theorem store_run (hi : i < slots.length) : store (some slots) i x h = .ok (.ok (some (slots.set i x)), h) := by
  unfold store
  exact bind_ok (ensure_run h _ _ hi)

theorem SlotArray.Wf.exists_slots (ha : a.Wf) (hpos : 0 < a.max) : ∃ slots, a.v = some slots ∧ slots.length = a.max := by
  have hlen := ha.slots
  cases hv : a.v with
  | none =>
    rw [hv] at hlen
    simp at hlen
    omega
  | some slots =>
    rw [hv] at hlen
    exact ⟨slots, rfl, hlen⟩

theorem array_newmax_spec (fuel newmax nguys : Nat) (hf : nguys ≤ newmax + fuel) (hn : nguys < 2 ^ 30)
    (heven : newmax % 2 = 0) :
    ∃ n, array_newmax fuel newmax nguys h = .ok (.ok n, h) ∧ newmax ≤ n ∧ nguys ≤ n ∧ n % 2 = 0 ∧
      (n = newmax ∨ n ≤ 2 * nguys) := by
  induction fuel generalizing newmax with
  | zero => exact ⟨newmax, rfl, Nat.le_refl _, hf, heven, .inl rfl⟩
  | succ fuel ih =>
    rw [array_newmax]
    by_cases hlt : nguys > newmax
    · obtain ⟨n, hrun, hle, hge, hev, hbound⟩ := ih ((newmax + 1) * 2) (by omega) (by omega)
      rw [if_pos hlt, bind_ok (ensure_run h _ _ (by omega))]
      exact ⟨n, hrun, by omega, hge, hev, .inr (by omega)⟩
    · rw [if_neg hlt]
      exact ⟨newmax, rfl, Nat.le_refl _, by omega, heven, .inl rfl⟩

theorem array_copy_spec (old newv : List α) (n i : Nat) (hold : i + n ≤ old.length) (hnew : i + n ≤ newv.length)
    (hdone : newv.take i = old.take i) :
    ∃ slots, array_copy (some old) n i (some newv) h = .ok (.ok (some slots), h) ∧ slots.length = newv.length ∧
      slots.take (i + n) = old.take (i + n) := by
  induction n generalizing i newv with
  | zero => exact ⟨newv, rfl, rfl, hdone⟩
  | succ n ih =>
    have hi : i < old.length := by omega
    have hi' : i < newv.length := by omega
    have hnext : (newv.set i (old.get ⟨i, hi⟩)).take (i + 1) = old.take (i + 1) := by
      rw [List.take_succ_eq_append_getElem (by simpa using hi'), List.take_succ_eq_append_getElem hi, List.take_set,
        List.set_eq_of_length_le (by rw [List.length_take]; omega), hdone]
      simp
    obtain ⟨slots, hrun, hlen, htake⟩ := ih (newv.set i (old.get ⟨i, hi⟩)) (i + 1) (by omega)
      (by rw [List.length_set]; omega) hnext
    refine ⟨slots, ?_, by rw [hlen, List.length_set], ?_⟩
    · rw [array_copy, bind_ok (load_run hi), bind_ok (store_run hi')]
      exact hrun
    · rwa [show i + (n + 1) = i + 1 + n by omega]

def Blocks.Served (h h' : Blocks α) : Prop := h.next.1.isSome = true ∧ h' = h.next.2

def Blocks.Refused (h h' : Blocks α) : Prop := h.next.1 = none ∧ h' = h.next.2

theorem kmalloc_cases (bytes : Nat) (h : Blocks α) :
    (∃ h', h.Refused h' ∧ kmalloc bytes h = .ok (.ok none, h')) ∨
    ∃ h' slots, h.Served h' ∧ kmalloc bytes h = .ok (.ok (some slots), h') ∧ slots.length = bytes / 4 := by
  unfold kmalloc
  cases hb : h.next.1 with
  | none => exact .inl ⟨h.next.2, ⟨hb, rfl⟩, rfl⟩
  | some junk => exact .inr ⟨h.next.2, _, ⟨by rw [hb]; rfl, rfl⟩, rfl, by simp⟩

end Block

/-! ## Each function -/

section Functions

variable {α : Type} {a : SlotArray α} {h : Blocks α} {nguys index : Nat} {x : α}

def Grown (a : SlotArray α) (nguys : Nat) (h : Blocks α) (r : Except Errno (SlotArray α)) (h' : Blocks α) : Prop :=
  (r = .error .ENOMEM ∧ h.Refused h') ∨
  ∃ b, r = .ok b ∧ h.Served h' ∧ b.Wf ∧ b.num = a.num ∧ a.max ≤ b.max ∧ nguys ≤ b.max ∧ b.toList = a.toList

def Fits (nguys : Nat) (h : Blocks α) : Prop :=
  nguys < 2 ^ 29 ∨ nguys < 2 ^ 30 ∧ h.next.1 = none

theorem array_preallocate_spec (ha : a.Wf) (hfit : Fits nguys h) :
    Holds (fun _ => False) (array_preallocate a nguys) h (Grown a nguys h) := by
  have hsmall := ha.small
  have hnum := ha.num_le
  have hn : nguys < 2 ^ 30 := by
    rcases hfit with hf | hf <;> omega
  unfold array_preallocate
  refine holds_ensure_bind (.inl ha.num_le) fun _ => ?_
  obtain ⟨newmax, hrun, hle, hge, heven, hbound⟩ :=
    array_newmax_spec (h := h) nguys a.max nguys (by omega) hn ha.even
  refine holds_bind_run hrun ?_
  rcases kmalloc_cases (newmax * 4 % 2 ^ 32) h with ⟨h', hrefused, hk⟩ | ⟨h', newv, hserved, hk, hlen⟩
  · refine holds_bind_run hk ?_
    exact holds_of_run rfl (.inl ⟨rfl, hrefused⟩)
  · have hmax : newmax < 2 ^ 30 := by
      rcases hfit with hf | ⟨-, hnull⟩
      · omega
      · rw [Blocks.Served, hnull] at hserved
        exact absurd hserved.1 (by simp)
    have hblock : newv.length = newmax := by rw [hlen]; omega
    refine holds_bind_run hk ?_
    -- an array without a block has nothing to copy
    obtain ⟨slots, hcopy, hsame, htake⟩ : ∃ slots, array_copy a.v a.num 0 (some newv) h' = .ok (.ok (some slots), h') ∧
        slots.length = newv.length ∧ slots.take a.num = a.toList := by
      rcases Nat.eq_zero_or_pos a.num with hzero | hpos
      · exact ⟨newv, by rw [hzero]; rfl, rfl, by rw [SlotArray.toList, hzero]; rfl⟩
      · obtain ⟨old, hv, hold⟩ := ha.exists_slots (by omega)
        obtain ⟨slots, hcopy, hsame, htake⟩ :=
          array_copy_spec (h := h') old newv a.num 0 (by omega) (by omega) rfl
        refine ⟨slots, by rw [hv]; exact hcopy, hsame, ?_⟩
        rw [SlotArray.toList, hv]
        simpa using htake
    refine holds_bind_run hcopy (holds_pure (.inr ⟨_, rfl, hserved, ?_, rfl, hle, hge, htake⟩))
    exact ⟨by show a.num ≤ newmax; omega, by rw [← hblock, ← hsame]; rfl, hmax, heven⟩

theorem SlotArray.Wf.resize (ha : a.Wf) (hle : nguys ≤ a.max) :
    ({ a with num := nguys } : SlotArray α).Wf ∧
      ∃ ext, ({ a with num := nguys } : SlotArray α).toList = a.toList.take nguys ++ ext := by
  refine ⟨⟨hle, ha.slots, ha.small, ha.even⟩, ((a.v.getD []).take nguys).drop a.num, ?_⟩
  rw [SlotArray.toList, SlotArray.toList, List.take_take, Nat.min_comm, ← List.take_take, List.take_append_drop]

def Resized (a : SlotArray α) (nguys : Nat) (h : Blocks α) (r : Except Errno (SlotArray α)) (h' : Blocks α) : Prop :=
  (r = .error .ENOMEM ∧ h.Refused h' ∧ a.max < nguys) ∨
  ∃ b ext, r = .ok b ∧ (h' = h ∧ nguys ≤ a.max ∨ h.Served h' ∧ a.max < nguys) ∧ b.Wf ∧ b.num = nguys ∧
    b.toList = a.toList.take nguys ++ ext ∧ (nguys = 0 → a.max ≤ 16 → b.max = a.max) ∧ (nguys ≠ 0 → a.max ≤ b.max)

theorem array_setsize_spec (ha : a.Wf) (hfit : a.max < nguys → Fits nguys h) :
    Holds (fun _ => False) (array_setsize a nguys) h (Resized a nguys h) := by
  unfold array_setsize array_resize
  refine holds_ensure_bind (.inl ha.num_le) fun _ => ?_
  by_cases hgrow : nguys > a.max
  · rw [if_pos hgrow]
    refine (array_preallocate_spec ha (hfit hgrow)).bind ?_ ?_
    · rintro b h' (⟨hr, -⟩ | ⟨_, ⟨⟩, hserved, hb, hnum, hmax, hroom, hlist⟩)
      · cases hr
      obtain ⟨hwf, ext, hext⟩ := hb.resize hroom
      rw [hlist] at hext
      exact holds_pure (.inr ⟨_, ext, rfl, .inr ⟨hserved, hgrow⟩, hwf, rfl, hext, by omega, fun _ => hmax⟩)
    · rintro e h' (⟨⟨⟩, hrefused⟩ | ⟨_, hr, -⟩)
      · exact .inl ⟨rfl, hrefused, hgrow⟩
      · cases hr
  rw [if_neg hgrow]
  by_cases hfree : nguys = 0 ∧ a.max > 16
  · rw [if_pos hfree]
    obtain ⟨slots, hv, -⟩ := ha.exists_slots (by omega)
    refine holds_bind_run (bind_ok (ensure_run h _ _ (by rw [hv]; rfl))) (holds_pure (.inr ?_))
    rw [hfree.1]
    exact ⟨_, [], rfl, .inl ⟨rfl, Nat.zero_le _⟩, ⟨Nat.le_refl 0, rfl, Nat.two_pow_pos 30, rfl⟩, rfl,
      by simp [SlotArray.toList],
      fun _ h16 => absurd hfree.2 (by omega), fun hne => absurd rfl hne⟩
  · rw [if_neg hfree]
    obtain ⟨hwf, ext, hext⟩ := ha.resize (Nat.le_of_not_lt hgrow)
    refine holds_bind_run (pure_run h a) (holds_pure (.inr ?_))
    exact ⟨_, ext, rfl, .inl ⟨rfl, Nat.le_of_not_lt hgrow⟩, hwf, rfl, hext, fun _ _ => rfl, fun _ => Nat.le_refl _⟩

theorem SlotArray.Wf.store (ha : a.Wf) {i : Nat} (hi : i < a.max) (x : α) (h : Blocks α) :
    ∃ v, Slots.store a.v i x h = .ok (.ok v, h) ∧ ({ a with v := v } : SlotArray α).Wf ∧
      ({ a with v := v } : SlotArray α).toList = a.toList.set i x := by
  obtain ⟨slots, hv, hlen⟩ := ha.exists_slots (by omega)
  refine ⟨some (slots.set i x), by rw [hv]; exact store_run (by omega), ⟨ha.num_le, ?_, ha.small, ha.even⟩, ?_⟩
  · rw [Option.getD_some, List.length_set, hlen]
  · rw [SlotArray.toList, SlotArray.toList, hv, Option.getD_some, Option.getD_some, List.take_set]

def Added (a : SlotArray α) (x : α) (h : Blocks α) (r : Except Errno (SlotArray α)) (h' : Blocks α) : Prop :=
  (r = .error .ENOMEM ∧ h.Refused h' ∧ a.num = a.max) ∨
  ∃ b, r = .ok b ∧ (h' = h ∧ a.num < a.max ∨ h.Served h' ∧ a.num = a.max) ∧ b.Wf ∧ b.toList = a.toList ++ [x] ∧
    b.num = a.num + 1 ∧ a.max ≤ b.max

theorem array_add_spec (ha : a.Wf) (hfit : a.num = a.max → Fits (a.num + 1) h) (x : α) :
    Holds (fun _ => False) (array_add a x) h (Added a x h) := by
  have hnum := ha.num_le
  unfold array_add
  refine (array_setsize_spec ha fun hlt => hfit (by omega)).bind ?_ ?_
  · rintro b h' (⟨hr, -⟩ | ⟨_, ext, ⟨⟩, hmem, hb, hbnum, hlist, -, hmax⟩)
    · cases hr
    have hroom := hb.num_le
    have hmax := hmax (by omega)
    obtain ⟨v, hstore, hwf, hset⟩ := hb.store (i := a.num) (by omega) x h'
    refine holds_bind_run hstore (holds_pure (.inr ⟨_, rfl, ?_, hwf, ?_, hbnum, hmax⟩))
    · rcases hmem with ⟨rfl, hle⟩ | ⟨hs, hlt⟩
      · exact .inl ⟨rfl, by omega⟩
      · exact .inr ⟨hs, by omega⟩
    · -- one new slot, and `x` goes into it
      have hlen := congrArg List.length hlist
      rw [hb.length_toList, List.length_append, List.take_of_length_le (by rw [ha.length_toList]; omega),
        ha.length_toList, hbnum] at hlen
      obtain ⟨y, rfl⟩ := List.length_eq_one_iff.mp (show ext.length = 1 by omega)
      rw [hset, hlist, List.take_of_length_le (by rw [ha.length_toList]; omega),
        List.set_append_right _ _ (by rw [ha.length_toList]), ha.length_toList, Nat.sub_self]
      rfl
  · rintro e h' (⟨⟨⟩, hrefused, hlt⟩ | ⟨_, _, hr, -⟩)
    · exact .inl ⟨rfl, hrefused, by omega⟩
    · cases hr

theorem array_setguy_spec (ha : a.Wf) (hi : index < a.num) (x : α) :
    ∃ b, array_setguy a index x h = .ok (.ok b, h) ∧ b.Wf ∧ b.toList = a.toList.set index x := by
  have hnum := ha.num_le
  obtain ⟨v, hstore, hwf, hset⟩ := ha.store (i := index) (by omega) x h
  refine ⟨_, ?_, hwf, hset⟩
  unfold array_setguy
  rw [bind_ok (ensure_run h _ _ hnum), bind_ok (ensure_run h _ _ hi), bind_ok hstore]
  rfl

theorem array_getguy_spec (ha : a.Wf) (hi : index < a.num) :
    ∃ x, array_getguy a index h = .ok (.ok x, h) ∧ a.toList[index]? = some x := by
  have hnum := ha.num_le
  obtain ⟨slots, hv, hlen⟩ := ha.exists_slots (by omega)
  have hslot : index < slots.length := by omega
  refine ⟨slots.get ⟨index, hslot⟩, ?_, ?_⟩
  · unfold array_getguy
    rw [bind_ok (ensure_run h _ _ hnum), bind_ok (ensure_run h _ _ hi), hv]
    exact load_run hslot
  · rw [SlotArray.toList, hv, Option.getD_some, List.getElem?_take_of_lt hi, List.getElem?_eq_getElem hslot]
    rfl

theorem array_remove_spec (ha : a.Wf) (hi : index < a.num) :
    ∃ b, array_remove a index h = .ok (.ok b, h) ∧ b.Wf ∧ b.num = a.num - 1 ∧ b.max = a.max ∧
      b.toList = a.toList.eraseIdx index := by
  have hnum := ha.num_le
  obtain ⟨slots, hv, hlen⟩ := ha.exists_slots (by omega)
  obtain ⟨moved, hmoved⟩ : ∃ moved, moved = slots.take index ++ (slots.drop (index + 1)).take (a.num - (index + 1)) ++
      slots.drop (index + (a.num - (index + 1))) := ⟨_, rfl⟩
  have hmove : move a.v index (index + 1) (a.num - (index + 1)) h = .ok (.ok (some moved), h) := by
    unfold move
    rw [hv, hmoved]
    exact bind_ok (ensure_run h _ _ ⟨by simp only [Option.getD_some]; omega, by simp only [Option.getD_some]; omega⟩)
  refine ⟨⟨a.num - 1, a.max, some moved⟩, ?_, ⟨by show a.num - 1 ≤ a.max; omega, ?_, ha.small, ha.even⟩, rfl, rfl, ?_⟩
  · unfold array_remove
    rw [bind_ok (ensure_run h _ _ hnum), bind_ok (ensure_run h _ _ hi), bind_ok hmove]
    rfl
  · simp only [Option.getD_some, hmoved, List.length_append, List.length_take, List.length_drop]
    omega
  · rw [SlotArray.toList, SlotArray.toList, hv, Option.getD_some, Option.getD_some, hmoved,
      List.eraseIdx_eq_take_drop_succ, List.take_take, Nat.min_eq_left (by omega), List.drop_take]
    apply List.take_left'
    simp only [List.length_append, List.length_take, List.length_drop]
    omega

end Functions

end Os161.Slots
