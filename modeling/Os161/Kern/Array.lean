import Os161.Kern.Basic

/-! # `lib/array.c`: the resizable array -/

namespace Os161

/-- `struct array`. The assertions `num <= max` of `array.c` are the field `num_le`. Slots from `num`
on hold garbage. -/
structure KArray (α : Type) where
  num : Nat
  max : Nat
  v : Nat → α
  num_le : num ≤ max

namespace KArray

variable {α : Type}

def toList (a : KArray α) : List α := (List.range a.num).map a.v

end KArray

section Code

variable {α : Type}

def array_create [Inhabited α] : KArray α := ⟨0, 0, fun _ => default, Nat.le_refl 0⟩

def array_getnum (a : KArray α) : Nat := a.num

/-- The assertion on the index is its type. -/
def array_getguy (a : KArray α) (index : Fin a.num) : α := a.v index

def array_newmax : Nat → Nat → Nat → Nat
  | 0, newmax, _ => newmax
  | fuel + 1, newmax, nguys =>
    if nguys > newmax then array_newmax fuel ((newmax + 1) * 2) nguys else newmax

theorem le_array_newmax (fuel newmax nguys : Nat) : newmax ≤ array_newmax fuel newmax nguys := by
  induction fuel generalizing newmax with
  | zero => exact Nat.le_refl _
  | succ fuel ih =>
    rw [array_newmax]
    split
    · exact Nat.le_trans (by omega) (ih _)
    · exact Nat.le_refl _

theorem nguys_le_array_newmax (fuel newmax nguys : Nat) (h : nguys ≤ newmax + fuel) :
    nguys ≤ array_newmax fuel newmax nguys := by
  induction fuel generalizing newmax with
  | zero => simpa [array_newmax] using h
  | succ fuel ih =>
    rw [array_newmax]
    split
    · exact ih _ (by omega)
    · omega

def array_preallocate (a : KArray α) (nguys : Nat) : Alloc (Except Errno (KArray α)) := fun h =>
  match kmalloc h with
  | (false, h') => (.error .ENOMEM, h')
  | (true, h') =>
    (.ok { a with
      max := array_newmax nguys a.max nguys
      num_le := Nat.le_trans a.num_le (le_array_newmax _ _ _) }, h')

theorem preallocate_max {a b : KArray α} {nguys : Nat} {h h' : Heap}
    (hr : array_preallocate a nguys h = (.ok b, h')) :
    b.num = a.num ∧ b.v = a.v ∧ a.max ≤ b.max ∧ nguys ≤ b.max := by
  have : a.max ≤ array_newmax nguys a.max nguys := le_array_newmax _ _ _
  have : nguys ≤ array_newmax nguys a.max nguys := nguys_le_array_newmax _ _ _ (by omega)
  unfold array_preallocate at hr
  split at hr
  · simp at hr
  simp only [Prod.mk.injEq, Except.ok.injEq] at hr
  obtain ⟨rfl, -⟩ := hr
  exact ⟨rfl, rfl, by assumption, by assumption⟩

def array_setsize (a : KArray α) (nguys : Nat) : Alloc (Except Errno (KArray α)) := fun h =>
  if hg : nguys > a.max then
    match hr : array_preallocate a nguys h with
    | (.error e, h') => (.error e, h')
    | (.ok b, h') => (.ok { b with num := nguys, num_le := (preallocate_max hr).2.2.2 }, h')
  else if nguys = 0 ∧ a.max > 16 then
    (.ok { a with num := 0, max := 0, num_le := Nat.le_refl 0 }, h)
  else
    (.ok { a with num := nguys, num_le := by omega }, h)

def array_setguy (a : KArray α) (index : Fin a.num) (ptr : α) : KArray α :=
  { a with v := Function.update a.v index ptr }

def array_add (a : KArray α) (guy : α) : Alloc (Except Errno (KArray α)) := fun h =>
  match array_setsize a (a.num + 1) h with
  | (.error e, h') => (.error e, h')
  | (.ok b, h') => (.ok { b with v := Function.update b.v a.num guy }, h')

def array_remove (a : KArray α) (index : Fin a.num) : KArray α where
  num := a.num - 1
  max := a.max
  v := fun i => if i < index then a.v i else a.v (i + 1)
  num_le := Nat.le_trans (Nat.sub_le _ _) a.num_le

end Code

/-! ## The array is a list -/

namespace KArray

variable {α : Type}

@[simp] theorem length_toList (a : KArray α) : a.toList.length = a.num := by simp [toList]

theorem getElem?_toList (a : KArray α) (i : Nat) :
    a.toList[i]? = if i < a.num then some (a.v i) else none := by
  simp only [toList, List.getElem?_map]
  split <;> rename_i h
  · simp [List.getElem?_range h]
  · rw [List.getElem?_eq_none (by simpa using h)]; rfl

@[simp] theorem toList_create [Inhabited α] : (array_create : KArray α).toList = [] := rfl

end KArray

section Specs

variable {α : Type} {a b : KArray α} {h h' : Heap} {guy : α}

theorem array_setsize_zero (a : KArray α) (h : Heap) :
    ∃ b, array_setsize a 0 h = (.ok b, h) ∧ b.num = 0 ∧
      b.max = (if a.max > 16 then 0 else a.max) := by
  unfold array_setsize
  rw [dif_neg (by omega)]
  by_cases hm : a.max > 16
  · rw [if_pos ⟨rfl, hm⟩]; exact ⟨_, rfl, rfl, by rw [if_pos hm]⟩
  · rw [if_neg (by omega)]; exact ⟨_, rfl, rfl, by rw [if_neg hm]⟩

theorem array_add_room (guy : α) (hroom : a.num < a.max) :
    ∃ b, (∀ h, array_add a guy h = (.ok b, h)) ∧ b.max = a.max ∧ b.toList = a.toList ++ [guy] := by
  have hs : ∀ h, array_setsize a (a.num + 1) h = (.ok { a with num := a.num + 1, num_le := hroom }, h) := by
    intro h
    unfold array_setsize
    rw [dif_neg (by omega), if_neg (by omega)]
  refine ⟨{ a with num := a.num + 1, v := Function.update a.v a.num guy, num_le := hroom },
    fun h => by rw [array_add, hs], rfl, ?_⟩
  simp only [KArray.toList, List.range_succ, List.map_append, List.map_cons, List.map_nil,
    Function.update_self]
  congr 1
  apply List.map_congr_left
  intro i hi
  rw [Function.update_of_ne (by simp at hi; omega)]

theorem array_add_cases (hr : array_add a guy h = (.ok b, h')) :
    b.toList = a.toList ++ [guy] ∧ a.max ≤ b.max := by
  unfold array_add at hr
  split at hr
  · simp at hr
  rename_i c k hs
  simp only [Prod.mk.injEq, Except.ok.injEq] at hr
  obtain ⟨rfl, -⟩ := hr
  have hc : c.num = a.num + 1 ∧ c.v = a.v ∧ a.max ≤ c.max := by
    unfold array_setsize at hs
    split at hs
    · split at hs
      · simp at hs
      rename_i d k' hp
      simp only [Prod.mk.injEq, Except.ok.injEq] at hs
      obtain ⟨-, hv, hmax, -⟩ := preallocate_max hp
      obtain ⟨rfl, -⟩ := hs
      exact ⟨rfl, hv, hmax⟩
    · rw [if_neg (by omega)] at hs
      simp only [Prod.mk.injEq, Except.ok.injEq] at hs
      obtain ⟨rfl, -⟩ := hs
      exact ⟨rfl, rfl, Nat.le_refl _⟩
  refine ⟨?_, hc.2.2⟩
  simp only [KArray.toList, hc.1, hc.2.1, List.range_succ, List.map_append, List.map_cons, List.map_nil,
    Function.update_self]
  congr 1
  apply List.map_congr_left
  intro i hi
  rw [Function.update_of_ne (by simp at hi; omega)]

theorem array_setguy_toList (a : KArray α) (index : Fin a.num) (ptr : α) :
    (array_setguy a index ptr).toList = a.toList.set index ptr := by
  apply List.ext_getElem?
  intro i
  have hnum : (array_setguy a index ptr).num = a.num := rfl
  have hv : (array_setguy a index ptr).v = Function.update a.v index ptr := rfl
  rw [List.getElem?_set, KArray.getElem?_toList, KArray.getElem?_toList, KArray.length_toList, hnum, hv]
  by_cases hi : index.val = i
  · subst hi
    rw [Function.update_self, if_pos index.isLt, if_pos rfl]
  · rw [if_neg hi, Function.update_of_ne (Ne.symm hi)]

theorem array_remove_toList (a : KArray α) (index : Fin a.num) :
    (array_remove a index).toList = a.toList.eraseIdx index := by
  apply List.ext_getElem?
  intro i
  have hix := index.isLt
  have hnum : (array_remove a index).num = a.num - 1 := rfl
  have hv : (array_remove a index).v i = if i < index then a.v i else a.v (i + 1) := rfl
  rw [List.getElem?_eraseIdx, KArray.getElem?_toList, KArray.getElem?_toList, KArray.getElem?_toList,
    hnum, hv]
  by_cases hi : i < index.val
  · rw [if_pos hi, if_pos hi, if_pos (by omega), if_pos (by omega)]
  · rw [if_neg hi, if_neg hi]
    by_cases hn : i + 1 < a.num
    · rw [if_pos (by omega), if_pos hn]
    · rw [if_neg (by omega), if_neg hn]

end Specs

end Os161
