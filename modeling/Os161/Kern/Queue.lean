import Os161.Kern.Basic
import Os161.Lib.Prog
import Os161.Lib.Ring

/-! # `lib/queue.c`: the ring of pointers -/

namespace Os161

inductive QPanic where
  | grow_nsize | grow_result | remhead_empty
  deriving DecidableEq, Repr

/-- `struct queue`. The assertions `q->size > 0` are the field `size_pos`. -/
structure Queue (α : Type) where
  size : Nat
  nextwrite : Nat
  nextread : Nat
  data : Nat → α
  size_pos : 0 < size
  write_lt : nextwrite < size
  read_lt : nextread < size

def Queue.length {α : Type} (q : Queue α) : Nat := Ring.gap q.size q.nextread q.nextwrite

def Queue.toList {α : Type} (q : Queue α) : List α := Ring.window q.size q.nextread q.length q.data

section Code

variable {α : Type}

def q_create (size : Nat) (h : 0 < size) (data : Nat → α) : Queue α := ⟨size, 0, 0, data, h, h, h⟩

def q_empty (q : Queue α) : Bool := q.nextwrite == q.nextread

/-- `nextnext == q->nextread`: the last free slot is never used. -/
def q_full (q : Queue α) : Bool := (q.nextwrite + 1) % q.size == q.nextread

def q_put (q : Queue α) (ptr : α) : Queue α :=
  { q with
    data := Function.update q.data q.nextwrite ptr
    nextwrite := (q.nextwrite + 1) % q.size
    write_lt := Nat.mod_lt _ q.size_pos }

/-- The first loop of `q_grow`. A product of `2^31` or more is not a positive `int`. -/
def q_newsize : Nat → Nat → Nat → Except QPanic Nat
  | 0, nsize, _ => .ok nsize
  | fuel + 1, nsize, targetsize =>
    if nsize < targetsize then
      if nsize * 2 < 2 ^ 31 then q_newsize fuel (nsize * 2) targetsize else .error .grow_nsize
    else .ok nsize

theorem q_newsize_spec {fuel nsize targetsize n : Nat} (hn : 0 < nsize) (hf : targetsize ≤ nsize + fuel)
    (h : q_newsize fuel nsize targetsize = .ok n) : nsize ≤ n ∧ targetsize ≤ n := by
  induction fuel generalizing nsize with
  | zero => cases h; omega
  | succ fuel ih =>
    rw [q_newsize] at h
    split at h
    · split at h
      · have := ih (by omega) (by omega) h
        omega
      · cases h
    · cases h; omega

/-- The second loop of `q_grow`, from slot `i` of the old ring. Its `q_addtail` finds a free slot. -/
def q_copy (old : Queue α) : Nat → Nat → Queue α → Except QPanic (Queue α)
  | 0, _, q => .ok q
  | fuel + 1, i, q =>
    if i = old.nextwrite then .ok q
    else if q_full q then .error .grow_result
    else q_copy old fuel ((i + 1) % old.size) (q_put q (old.data i))

def q_grow (q : Queue α) (targetsize : Nat) : Prog QPanic Errno Heap (Queue α) := fun h =>
  match hn : q_newsize targetsize q.size targetsize with
  | .error p => .error p
  | .ok nsize =>
    match kmalloc h with
    | (false, h') => .ok (.error .ENOMEM, h')
    | (true, h') =>
      have hpos := Nat.lt_of_lt_of_le q.size_pos (q_newsize_spec q.size_pos (by omega) hn).1
      match q_copy q q.size q.nextread (q_create nsize hpos q.data) with
      | .error p => .error p
      | .ok q' => .ok (.ok q', h')

def q_preallocate (q : Queue α) (size : Nat) : Prog QPanic Errno Heap (Queue α) :=
  if size > q.size then q_grow q size else pure q

def q_addtail (q : Queue α) (ptr : α) : Prog QPanic Errno Heap (Queue α) :=
  if q_full q then (q_put · ptr) <$> q_grow q (q.size + 1) else pure (q_put q ptr)

def q_remhead (q : Queue α) : Except QPanic (α × Queue α) :=
  if q_empty q then .error .remhead_empty
  else .ok (q.data q.nextread,
    { q with nextread := (q.nextread + 1) % q.size, read_lt := Nat.mod_lt _ q.size_pos })

end Code

/-! ## The ring is a list -/

section Specs

variable {α : Type} {q q' : Queue α} {h h' : Heap} {ptr : α}

@[simp] theorem Queue.length_toList (q : Queue α) : q.toList.length = q.length := Ring.length_window

theorem Queue.length_lt (q : Queue α) : q.length < q.size := Ring.gap_lt q.size_pos

theorem Queue.read_add_length (q : Queue α) : (q.nextread + q.length) % q.size = q.nextwrite :=
  Ring.read_add_gap q.read_lt q.write_lt

@[simp] theorem toList_create (size : Nat) (hs : 0 < size) (data : Nat → α) :
    (q_create size hs data).toList = [] := by
  have : (q_create size hs data).length = 0 := by
    simp [Queue.length, q_create, Ring.gap]
  rw [Queue.toList, this]; rfl

theorem q_empty_iff : q_empty q = true ↔ q.toList = [] := by
  rw [← List.length_eq_zero_iff, Queue.length_toList, q_empty, beq_iff_eq]
  constructor
  · intro hw
    rw [Queue.length, hw, Ring.gap, Nat.add_sub_cancel_left, Nat.mod_self]
  · intro hl
    rw [← q.read_add_length, hl, Nat.add_zero, Nat.mod_eq_of_lt q.read_lt]

theorem q_full_iff : q_full q = true ↔ q.length + 1 = q.size := by
  have hlt := q.length_lt
  rw [q_full, beq_iff_eq, ← q.read_add_length, Nat.mod_add_mod, Nat.add_assoc]
  constructor
  · intro hw
    by_contra hne
    have hslot := Ring.slot_ne q.nextread (show q.length + 1 < q.size by omega) q.size_pos (by omega)
    rw [hw, Nat.add_zero, Nat.mod_eq_of_lt q.read_lt] at hslot
    exact hslot rfl
  · intro hl
    rw [hl, Nat.add_mod_right, Nat.mod_eq_of_lt q.read_lt]

theorem q_put_spec (hroom : q.length + 1 < q.size) :
    (q_put q ptr).length = q.length + 1 ∧ (q_put q ptr).toList = q.toList ++ [ptr] := by
  have hw : (q_put q ptr).nextwrite = (q.nextread + (q.length + 1)) % q.size := by
    rw [← Nat.add_assoc, ← Nat.mod_add_mod, q.read_add_length]; rfl
  have hl : (q_put q ptr).length = q.length + 1 := by
    rw [Queue.length, hw]
    exact Ring.gap_eq q.read_lt hroom
  refine ⟨hl, ?_⟩
  rw [Queue.toList, hl]
  have := Ring.window_write q.nextread q.data ptr q.length_lt
  rwa [q.read_add_length] at this

theorem q_copy_spec (old q : Queue α) (fuel n : Nat) (hn : n ≤ old.length) (hf : old.length < n + fuel)
    (hq : q.toList = Ring.window old.size old.nextread n old.data) (hs : old.size ≤ q.size) :
    ∃ q', q_copy old fuel ((old.nextread + n) % old.size) q = .ok q' ∧ q'.toList = old.toList ∧
      q'.size = q.size := by
  induction fuel generalizing n q with
  | zero => omega
  | succ fuel ih =>
    have hlen : q.length = n := by rw [← Queue.length_toList, hq, Ring.length_window]
    have hold := old.length_lt
    rw [q_copy]
    by_cases hend : n = old.length
    · subst hend
      rw [if_pos old.read_add_length]
      exact ⟨q, rfl, hq, rfl⟩
    · have hne : (old.nextread + n) % old.size ≠ old.nextwrite := by
        rw [← old.read_add_length]
        exact Ring.slot_ne _ (by omega) hold hend
      have hroom : q.length + 1 < q.size := by omega
      rw [if_neg hne, if_neg (by rw [q_full_iff]; omega), Nat.mod_add_mod, Nat.add_assoc]
      refine ih _ _ (by omega) (by omega) ?_ hs
      rw [(q_put_spec hroom).2, hq, Ring.window_succ]

theorem q_grow_stops {targetsize : Nat} {p : QPanic} (hn : q_newsize targetsize q.size targetsize = .error p) :
    q_grow q targetsize h = .error p := by
  unfold q_grow
  split
  · rename_i hn'
    rw [hn] at hn'
    cases hn'
    rfl
  · rename_i hn'
    rw [hn] at hn'
    cases hn'

theorem q_grow_nomem {targetsize n : Nat} (hn : q_newsize targetsize q.size targetsize = .ok n)
    (hm : kmalloc h = (false, h')) : q_grow q targetsize h = .ok (.error .ENOMEM, h') := by
  unfold q_grow
  split
  · rename_i hn'
    rw [hn] at hn'
    cases hn'
  · rw [hm]

theorem q_grow_copied {targetsize n : Nat} {r : Queue α} (hn : q_newsize targetsize q.size targetsize = .ok n)
    (hm : kmalloc h = (true, h')) (hpos : 0 < n)
    (hc : q_copy q q.size q.nextread (q_create n hpos q.data) = .ok r) : q_grow q targetsize h = .ok (.ok r, h') := by
  unfold q_grow
  split
  · rename_i hn'
    rw [hn] at hn'
    cases hn'
  · rename_i hn'
    rw [hn] at hn'
    cases hn'
    rw [hm]
    dsimp only
    rw [hc]

theorem q_grow_copy {targetsize n : Nat} (q : Queue α) (hn : q_newsize targetsize q.size targetsize = .ok n) :
    ∃ (hpos : 0 < n) (r : Queue α), q_copy q q.size q.nextread (q_create n hpos q.data) = .ok r ∧
      r.toList = q.toList ∧ r.size = n := by
  have hns := q_newsize_spec q.size_pos (by omega) hn
  have hpos := q.size_pos
  obtain ⟨r, hc, hl, hsz⟩ := q_copy_spec q (q_create n (by omega) q.data) q.size 0
    (Nat.zero_le _) (by simpa using q.length_lt) (by rw [toList_create]; rfl) hns.1
  rw [Nat.add_zero, Nat.mod_eq_of_lt q.read_lt] at hc
  exact ⟨_, r, hc, hl, hsz⟩

theorem q_grow_spec {targetsize : Nat} (hr : q_grow q targetsize h = .ok (.ok q', h')) :
    q'.toList = q.toList ∧ q.size ≤ q'.size ∧ targetsize ≤ q'.size := by
  cases hn : q_newsize targetsize q.size targetsize with
  | error p =>
    rw [q_grow_stops hn] at hr
    cases hr
  | ok n =>
    obtain ⟨hns, hnt⟩ := q_newsize_spec q.size_pos (by omega) hn
    obtain ⟨hpos, r, hc, hl, hsz⟩ := q_grow_copy q hn
    rcases hm : kmalloc h with ⟨ok, h₁⟩
    cases ok with
    | false =>
      rw [q_grow_nomem hn hm] at hr
      cases hr
    | true =>
      rw [q_grow_copied hn hm hpos hc] at hr
      cases hr
      exact ⟨hl, by rwa [hsz], by rwa [hsz]⟩

theorem q_preallocate_spec {size : Nat} (hr : q_preallocate q size h = .ok (.ok q', h')) :
    q'.toList = q.toList ∧ q.size ≤ q'.size ∧ size ≤ q'.size := by
  rw [q_preallocate] at hr
  split at hr
  · exact q_grow_spec hr
  · cases hr
    exact ⟨rfl, Nat.le_refl _, by omega⟩

theorem q_addtail_room (hroom : q.length + 1 < q.size) :
    q_addtail q ptr h = .ok (.ok (q_put q ptr), h) := by
  rw [q_addtail, if_neg (by rw [q_full_iff]; omega)]
  rfl

theorem q_addtail_spec (hr : q_addtail q ptr h = .ok (.ok q', h')) :
    q'.toList = q.toList ++ [ptr] ∧ q.size ≤ q'.size := by
  have hlt := q.length_lt
  rw [q_addtail] at hr
  split at hr
  · rename_i hfull
    rw [Prog.map_run, Prog.bind_run] at hr
    split at hr
    · rename_i q₁ h₁ hg
      obtain ⟨hl, hs, hs'⟩ := q_grow_spec hg
      cases hr
      have hlen : q₁.length = q.length := by rw [← Queue.length_toList, hl, Queue.length_toList]
      have := q_full_iff.mp hfull
      exact ⟨by rw [(q_put_spec (by omega)).2, hl], hs⟩
    · cases hr
    · cases hr
  · rename_i hfull
    cases hr
    have : q.length + 1 ≠ q.size := fun h => hfull (q_full_iff.mpr h)
    exact ⟨(q_put_spec (by omega)).2, Nat.le_refl _⟩

theorem q_newsize_run {fuel nsize targetsize k : Nat} (hpos : 0 < nsize) (hf : targetsize ≤ nsize + fuel)
    (hk : targetsize ≤ nsize * 2 ^ k) (hmax : nsize * 2 ^ k < 2 ^ 31) :
    ∃ n, q_newsize fuel nsize targetsize = .ok n ∧ n ≤ nsize * 2 ^ k := by
  induction fuel generalizing nsize k with
  | zero => exact ⟨nsize, rfl, Nat.le_mul_of_pos_right _ (Nat.two_pow_pos k)⟩
  | succ fuel ih =>
    rw [q_newsize]
    by_cases hlt : nsize < targetsize
    · cases k with
      | zero => omega
      | succ k =>
        have hdouble : nsize * 2 ^ (k + 1) = nsize * 2 * 2 ^ k := by rw [Nat.pow_succ', ← Nat.mul_assoc]
        rw [hdouble] at hk hmax ⊢
        have := Nat.le_mul_of_pos_right (nsize * 2) (Nat.two_pow_pos k)
        rw [if_pos hlt, if_pos (by omega)]
        exact ih (by omega) (by omega) hk hmax
    · rw [if_neg hlt]
      exact ⟨nsize, rfl, Nat.le_mul_of_pos_right _ (Nat.two_pow_pos k)⟩

theorem q_grow_cases {targetsize k : Nat} (q : Queue α) (h : Heap) (hk : targetsize ≤ q.size * 2 ^ k)
    (hmax : q.size * 2 ^ k < 2 ^ 31) :
    (∃ h', kmalloc h = (false, h') ∧ q_grow q targetsize h = .ok (.error .ENOMEM, h')) ∨
    ∃ q' h', kmalloc h = (true, h') ∧ q_grow q targetsize h = .ok (.ok q', h') ∧ q'.size ≤ q.size * 2 ^ k := by
  obtain ⟨n, hn, hle⟩ := q_newsize_run q.size_pos (Nat.le_add_left targetsize q.size) hk hmax
  obtain ⟨hpos, r, hc, -, hsz⟩ := q_grow_copy q hn
  cases hm : kmalloc h with
  | mk ok h' =>
    cases ok with
    | false => exact .inl ⟨h', rfl, q_grow_nomem hn hm⟩
    | true => exact .inr ⟨r, h', rfl, q_grow_copied hn hm hpos hc, by rw [hsz]; exact hle⟩

theorem q_grow_run (hsize : q.size < 2 ^ 30) (hmem : ∀ b ∈ h, b = true) :
    ∃ q' h', q_grow q (q.size + 1) h = .ok (.ok q', h') ∧ ∀ b ∈ h', b = true := by
  have hpos := q.size_pos
  have hserved : ∃ h', kmalloc h = (true, h') ∧ ∀ b ∈ h', b = true := by
    cases h with
    | nil => exact ⟨[], rfl, hmem⟩
    | cons b rest =>
      refine ⟨rest, ?_, fun c hc => hmem c (.tail _ hc)⟩
      rw [kmalloc, hmem b (.head _)]
  obtain ⟨h', hk, hmem'⟩ := hserved
  rcases q_grow_cases (k := 1) q h (show q.size + 1 ≤ q.size * 2 ^ 1 by omega) (by omega) with
    ⟨_, hk', -⟩ | ⟨q', _, hk', hrun, -⟩
  · rw [hk] at hk'
    cases hk'
  · rw [hk] at hk'
    cases hk'
    exact ⟨q', h', hrun, hmem'⟩

def Queue.Room (q : Queue α) (n : Nat) (h : Heap) : Prop :=
  q.length + n < q.size ∨ (∀ b ∈ h, b = true) ∧ q.length + n < 2 ^ 30

theorem q_addtail_run {n : Nat} (hroom : q.Room (n + 1) h) (ptr : α) :
    ∃ q' h', q_addtail q ptr h = .ok (.ok q', h') ∧ q'.Room n h' := by
  by_cases hfull : q_full q = true
  · have hlen := q_full_iff.mp hfull
    have hlt := q.length_lt
    rcases hroom with hroom | ⟨hmem, hroom⟩
    · omega
    obtain ⟨q₁, h₁, hg, hmem₁⟩ := q_grow_run (q := q) (by omega) hmem
    obtain ⟨hl, -, hs⟩ := q_grow_spec hg
    have hlen₁ : q₁.length = q.length := by rw [← Queue.length_toList, hl, Queue.length_toList]
    have hput : (q_put q₁ ptr).length = q₁.length + 1 := (q_put_spec (by omega)).1
    refine ⟨q_put q₁ ptr, h₁, ?_, .inr ⟨hmem₁, by omega⟩⟩
    rw [q_addtail, if_pos hfull, Prog.map_run, Prog.bind_run, hg]
    rfl
  · have hlt := q.length_lt
    have hne : q.length + 1 ≠ q.size := fun hl => hfull (q_full_iff.mpr hl)
    have hput : (q_put q ptr).length = q.length + 1 := (q_put_spec (by omega)).1
    refine ⟨q_put q ptr, h, q_addtail_room (by omega), ?_⟩
    rcases hroom with hroom | ⟨hmem, hroom⟩
    · exact .inl (by rw [hput]; show _ < q.size; omega)
    · exact .inr ⟨hmem, by omega⟩

theorem q_remhead_spec {r : α × Queue α} (hr : q_remhead q = .ok r) :
    q.toList = r.1 :: r.2.toList ∧ r.2.size = q.size := by
  rw [q_remhead] at hr
  split at hr
  · cases hr
  rename_i hne
  simp only [Except.ok.injEq] at hr
  subst hr
  have hlt := q.length_lt
  have hpos : q.length ≠ 0 := by
    rw [← Queue.length_toList, ne_eq, List.length_eq_zero_iff]
    exact fun h => hne (q_empty_iff.mpr h)
  obtain ⟨n, hn⟩ := Nat.exists_eq_succ_of_ne_zero hpos
  refine ⟨?_, rfl⟩
  rw [Queue.toList, hn, Ring.window_cons q.read_lt]
  congr 1
  rw [Queue.toList]
  congr 1
  -- the reader has moved one slot towards the writer
  have hw : q.nextwrite = ((q.nextread + 1) % q.size + n) % q.size := by
    rw [Nat.mod_add_mod, ← q.read_add_length, hn]
    congr 1; omega
  have hg := Ring.gap_eq (Nat.mod_lt (q.nextread + 1) q.size_pos) (show n < q.size by omega)
  rw [← hw] at hg
  exact hg.symm

end Specs

end Os161
