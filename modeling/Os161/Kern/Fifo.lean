import Os161.Kern.Queue
import Os161.Lib.Calls

/-! # The ring is a FIFO list

`q_grow` and `q_addtail` call each other. In `Kern/Queue` the inner `q_addtail` has no growth; here it has any growth at
all, and it is never used.
-/

namespace Os161

open Prog Calls

/-! ## `q_addtail` inside `q_grow` -/

section Inner

variable {α : Type}

def q_addtail_by (grow : Queue α → Nat → Prog QPanic Errno Heap (Queue α)) (q : Queue α) (ptr : α) :
    Prog QPanic Errno Heap (Queue α) :=
  if q_full q then (q_put · ptr) <$> grow q (q.size + 1) else pure (q_put q ptr)

/-- `result = q_addtail(q, olddata[i]); assert(result==0);` for the slots from `i` on. -/
def q_copy_by (grow : Queue α → Nat → Prog QPanic Errno Heap (Queue α)) (old : Queue α) :
    Nat → Nat → Queue α → Prog QPanic Errno Heap (Queue α)
  | 0, _, q => pure q
  | fuel + 1, i, q =>
    if i = old.nextwrite then pure q
    else do
      let result ← attempt (q_addtail_by grow q (old.data i))
      match result with
      | .ok q => q_copy_by grow old fuel ((i + 1) % old.size) q
      | .error _ => stop .grow_result

theorem q_newsize_pos {q : Queue α} {targetsize n : Nat} (hn : q_newsize targetsize q.size targetsize = .ok n) : 0 < n :=
  Nat.lt_of_lt_of_le q.size_pos (q_newsize_spec q.size_pos (by omega) hn).1

def q_grow_by (grow : Queue α → Nat → Prog QPanic Errno Heap (Queue α)) (q : Queue α) (targetsize : Nat) :
    Prog QPanic Errno Heap (Queue α) := fun h =>
  match hn : q_newsize targetsize q.size targetsize with
  | .error p => .error p
  | .ok nsize =>
    match kmalloc h with
    | (false, h') => .ok (.error .ENOMEM, h')
    | (true, h') =>
      q_copy_by grow q q.size q.nextread (q_create nsize (q_newsize_pos hn) q.data) h'

variable (grow : Queue α → Nat → Prog QPanic Errno Heap (Queue α))

theorem q_copy_by_eq {old q q' : Queue α} {fuel i : Nat} (hc : q_copy old fuel i q = .ok q') (h : Heap) :
    q_copy_by grow old fuel i q h = .ok (.ok q', h) := by
  induction fuel generalizing i q with
  | zero =>
    cases hc
    rfl
  | succ fuel ih =>
    rw [q_copy] at hc
    rw [q_copy_by]
    split at hc
    · rename_i hend
      cases hc
      rw [if_pos hend]
      rfl
    · rename_i hend
      split at hc
      · cases hc
      · rename_i hroom
        have hadd : attempt (q_addtail_by grow q (old.data i)) h = .ok (.ok (.ok (q_put q (old.data i))), h) := by
          apply attempt_ok
          rw [q_addtail_by, if_neg hroom]
          rfl
        rw [if_neg hend, bind_ok hadd]
        exact ih hc

theorem q_grow_by_stops {q : Queue α} {targetsize : Nat} {p : QPanic}
    (hn : q_newsize targetsize q.size targetsize = .error p) (h : Heap) : q_grow_by grow q targetsize h = .error p := by
  unfold q_grow_by
  split
  · rename_i hn'
    rw [hn] at hn'
    cases hn'
    rfl
  · rename_i hn'
    rw [hn] at hn'
    cases hn'

theorem q_grow_by_nomem {q : Queue α} {targetsize n : Nat} {h h' : Heap}
    (hn : q_newsize targetsize q.size targetsize = .ok n) (hm : kmalloc h = (false, h')) :
    q_grow_by grow q targetsize h = .ok (.error .ENOMEM, h') := by
  unfold q_grow_by
  split
  · rename_i hn'
    rw [hn] at hn'
    cases hn'
  · rw [hm]

theorem q_grow_by_copied {q r : Queue α} {targetsize n : Nat} {h h' : Heap}
    (hn : q_newsize targetsize q.size targetsize = .ok n) (hm : kmalloc h = (true, h')) (hpos : 0 < n)
    (hc : q_copy q q.size q.nextread (q_create n hpos q.data) = .ok r) :
    q_grow_by grow q targetsize h = .ok (.ok r, h') := by
  unfold q_grow_by
  split
  · rename_i hn'
    rw [hn] at hn'
    cases hn'
  · rename_i hn'
    rw [hn] at hn'
    cases hn'
    rw [hm]
    exact q_copy_by_eq grow hc h'

theorem q_grow_by_eq (q : Queue α) (targetsize : Nat) (h : Heap) :
    q_grow_by grow q targetsize h = q_grow q targetsize h := by
  cases hn : q_newsize targetsize q.size targetsize with
  | error p => rw [q_grow_by_stops grow hn, q_grow_stops hn]
  | ok n =>
    obtain ⟨hpos, r, hc, -⟩ := q_grow_copy q hn
    cases hm : kmalloc h with
    | mk ok h' =>
      cases ok with
      | false => rw [q_grow_by_nomem grow hn hm, q_grow_nomem hn hm]
      | true => rw [q_grow_by_copied grow hn hm hpos hc, q_grow_copied hn hm hpos hc]

end Inner

/-! ## Calls -/

inductive QueueCall (α : Type) where
  | addtail (ptr : α)
  | remhead
  | preallocate (size : Int)
  | empty
  deriving DecidableEq, Repr

inductive QueueAnswer (α : Type) where
  | done
  | failed (e : Errno)
  | head (ptr : α)
  | empty (b : Bool)
  deriving DecidableEq, Repr

section Call

variable {α : Type}

/-- `q_create` with its two `kmalloc` calls; the ring holds whatever is in the block. -/
def q_create_alloc (size : Nat) (hs : 0 < size) (data : Nat → α) : Alloc (Option (Queue α)) := fun h =>
  if (kmalloc h).1 then
    if (kmalloc (kmalloc h).2).1 then (some (q_create size hs data), (kmalloc (kmalloc h).2).2)
    else (none, (kmalloc (kmalloc h).2).2)
  else (none, (kmalloc h).2)

def queue_answer (q : Queue α) : Except QPanic (Except Errno (Queue α) × Heap) →
    Option (QueueAnswer α × Queue α × Heap)
  | .ok (.ok q', h) => some (.done, q', h)
  | .ok (.error e, h) => some (.failed e, q, h)
  | .error _ => none

def queue_call : QueueCall α → Queue α × Heap → Option (QueueAnswer α × Queue α × Heap)
  | .addtail ptr, (q, h) => queue_answer q (q_addtail q ptr h)
  | .remhead, (q, h) =>
    match q_remhead q with
    | .ok (ptr, q') => some (.head ptr, q', h)
    | .error _ => none
  | .preallocate size, (q, h) => queue_answer q (q_preallocate q size.toNat h)
  | .empty, (q, h) => some (.empty (q_empty q), q, h)

def Queue.CanGrow (q : Queue α) (targetsize : Nat) : Prop :=
  ∃ k < 30, targetsize ≤ q.size * 2 ^ k ∧ q.size * 2 ^ k < 2 ^ 30

def QueueMay (s : Queue α × Heap) : QueueCall α → Prop
  | .addtail _ => s.1.length + 1 = s.1.size → s.1.CanGrow (s.1.size + 1)
  | .remhead => s.1.length ≠ 0
  | .preallocate size => s.1.CanGrow size.toNat
  | .empty => True

instance Queue.decidableCanGrow (q : Queue α) (targetsize : Nat) : Decidable (q.CanGrow targetsize) :=
  inferInstanceAs (Decidable (∃ k < 30, targetsize ≤ q.size * 2 ^ k ∧ q.size * 2 ^ k < 2 ^ 30))

instance decidableQueueMay (s : Queue α × Heap) : (c : QueueCall α) → Decidable (QueueMay s c)
  | .addtail _ => inferInstanceAs (Decidable (s.1.length + 1 = s.1.size → s.1.CanGrow (s.1.size + 1)))
  | .remhead => inferInstanceAs (Decidable (s.1.length ≠ 0))
  | .preallocate size => inferInstanceAs (Decidable (s.1.CanGrow size.toNat))
  | .empty => isTrue trivial

def Enough (h h' : Heap) : Prop := h' = h ∨ kmalloc h = (true, h')

inductive Fifo : List α × Heap → QueueCall α → QueueAnswer α → List α × Heap → Prop
  | addtail {l : List α} {h h' : Heap} {ptr : α} : Enough h h' → Fifo (l, h) (.addtail ptr) .done (l ++ [ptr], h')
  | addtail_nomem {l : List α} {h h' : Heap} {ptr : α} : kmalloc h = (false, h') →
      Fifo (l, h) (.addtail ptr) (.failed .ENOMEM) (l, h')
  | remhead {l : List α} {h : Heap} {ptr : α} : Fifo (ptr :: l, h) .remhead (.head ptr) (l, h)
  | preallocate {l : List α} {h h' : Heap} {size : Int} : Enough h h' → Fifo (l, h) (.preallocate size) .done (l, h')
  | preallocate_nomem {l : List α} {h h' : Heap} {size : Int} : kmalloc h = (false, h') →
      Fifo (l, h) (.preallocate size) (.failed .ENOMEM) (l, h')
  | empty {l : List α} {h : Heap} : Fifo (l, h) .empty (.empty l.isEmpty) (l, h)

theorem q_empty_eq (q : Queue α) : q_empty q = q.toList.isEmpty := by
  rw [Bool.eq_iff_iff, q_empty_iff, List.isEmpty_iff]

theorem queue_addtail_fifo (q : Queue α) (h : Heap) (ptr : α) (hsize : q.size < 2 ^ 30)
    (hmay : q.length + 1 = q.size → q.CanGrow (q.size + 1)) :
    ∃ r q' h', queue_answer q (q_addtail q ptr h) = some (r, q', h') ∧ q'.size < 2 ^ 30 ∧
      Fifo (q.toList, h) (.addtail ptr) r (q'.toList, h') := by
  have hlt := q.length_lt
  by_cases hfull : q.length + 1 = q.size
  · obtain ⟨k, -, hk, hmax⟩ := hmay hfull
    rcases q_grow_cases q h hk (by omega) with ⟨h', hm, hrun⟩ | ⟨q₁, h', hm, hrun, hle⟩
    · refine ⟨.failed .ENOMEM, q, h', ?_, hsize, .addtail_nomem hm⟩
      rw [q_addtail, if_pos (q_full_iff.mpr hfull), map_run, bind_error hrun]
      rfl
    · have hadd : q_addtail q ptr h = .ok (.ok (q_put q₁ ptr), h') := by
        rw [q_addtail, if_pos (q_full_iff.mpr hfull), map_run, bind_ok hrun]
        rfl
      refine ⟨.done, q_put q₁ ptr, h', by rw [hadd]; rfl, Nat.lt_of_le_of_lt hle hmax, ?_⟩
      rw [(q_addtail_spec hadd).1]
      exact .addtail (.inr hm)
  · have hadd : q_addtail q ptr h = .ok (.ok (q_put q ptr), h) := q_addtail_room (by omega)
    refine ⟨.done, q_put q ptr, h, by rw [hadd]; rfl, hsize, ?_⟩
    rw [(q_addtail_spec hadd).1]
    exact .addtail (.inl rfl)

theorem queue_preallocate_fifo (q : Queue α) (h : Heap) (size : Int) (hsize : q.size < 2 ^ 30)
    (hmay : q.CanGrow size.toNat) :
    ∃ r q' h', queue_answer q (q_preallocate q size.toNat h) = some (r, q', h') ∧ q'.size < 2 ^ 30 ∧
      Fifo (q.toList, h) (.preallocate size) r (q'.toList, h') := by
  rw [q_preallocate]
  split
  · obtain ⟨k, -, hk, hmax⟩ := hmay
    rcases q_grow_cases q h hk (by omega) with ⟨h', hm, hrun⟩ | ⟨q', h', hm, hrun, hle⟩
    · exact ⟨.failed .ENOMEM, q, h', by rw [hrun]; rfl, hsize, .preallocate_nomem hm⟩
    · refine ⟨.done, q', h', by rw [hrun]; rfl, Nat.lt_of_le_of_lt hle hmax, ?_⟩
      rw [(q_grow_spec hrun).1]
      exact .preallocate (.inr hm)
  · exact ⟨.done, q, h, rfl, hsize, .preallocate (.inl rfl)⟩

theorem queue_call_fifo (c : QueueCall α) (s : Queue α × Heap) (hsize : s.1.size < 2 ^ 30) (hmay : QueueMay s c) :
    ∃ r t, queue_call c s = some (r, t) ∧ t.1.size < 2 ^ 30 ∧ Fifo (s.1.toList, s.2) c r (t.1.toList, t.2) := by
  obtain ⟨q, h⟩ := s
  cases c with
  | addtail ptr =>
    obtain ⟨r, q', h', hrun, hsize', hfifo⟩ := queue_addtail_fifo q h ptr hsize hmay
    exact ⟨r, (q', h'), hrun, hsize', hfifo⟩
  | remhead =>
    have hne : ¬ q_empty q = true := by
      rw [q_empty_iff, ← List.length_eq_zero_iff, Queue.length_toList]
      exact hmay
    cases hr : q_remhead q with
    | error p =>
      rw [q_remhead, if_neg hne] at hr
      cases hr
    | ok r =>
      obtain ⟨hlist, hsame⟩ := q_remhead_spec hr
      refine ⟨.head r.1, (r.2, h), by rw [queue_call, hr], by rw [hsame]; exact hsize, ?_⟩
      rw [hlist]
      exact .remhead
  | preallocate size =>
    obtain ⟨r, q', h', hrun, hsize', hfifo⟩ := queue_preallocate_fifo q h size hsize hmay
    exact ⟨r, (q', h'), hrun, hsize', hfifo⟩
  | empty =>
    refine ⟨.empty (q_empty q), (q, h), rfl, hsize, ?_⟩
    rw [q_empty_eq]
    exact .empty

end Call

/-! ## Every sequence of calls -/

section Sequences

variable {α : Type} {q : Queue α} {h₀ h : Heap} {data : Nat → α} {size : Nat}

theorem q_create_alloc_eq {hs : 0 < size} (hq : q_create_alloc size hs data h₀ = (some q, h)) :
    q = q_create size hs data := by
  unfold q_create_alloc at hq
  split at hq
  · split at hq
    · simp only [Prod.mk.injEq, Option.some.injEq] at hq
      exact hq.1.symm
    · cases hq
  · cases hq

/-- After `q_create`, every sequence of calls is answered as a FIFO list answers it, whatever `kmalloc` returns. -/
theorem queue_is_fifo (hs : 0 < size) (hsize : size < 2 ^ 30) (hq : q_create_alloc size hs data h₀ = (some q, h))
    (calls : List (QueueCall α)) (hl : Legal queue_call QueueMay calls (q, h)) :
    (∃ answers q' h', run queue_call calls (q, h) = some (answers, q', h') ∧
      Trace Fifo ([], h) calls answers (q'.toList, h') ∧ q'.size < 2 ^ 30) ∧
    ∀ grow (p : Queue α) targetsize k, q_grow_by grow p targetsize k = q_grow p targetsize k := by
  refine ⟨?_, q_grow_by_eq⟩
  obtain rfl := q_create_alloc_eq hq
  obtain ⟨answers, ⟨q', h'⟩, hrun, hsize', htrace⟩ :=
    run_trace (fun s => s.1.size < 2 ^ 30) (fun s => (s.1.toList, s.2)) queue_call_fifo calls hsize hl
  rw [toList_create] at htrace
  exact ⟨answers, q', h', hrun, htrace, hsize'⟩

end Sequences

theorem queue_is_fifo_wrapped :
    (∃ answers q' h', run queue_call
        [.addtail 1, .addtail 2, .remhead, .addtail 3, .addtail 4, .addtail 4, .remhead, .remhead, .remhead, .empty]
        (q_create 3 (by decide) (fun _ => 0), [false]) = some (answers, q', h') ∧
      Trace Fifo ([], [false])
        [.addtail 1, .addtail 2, .remhead, .addtail 3, .addtail 4, .addtail 4, .remhead, .remhead, .remhead, .empty]
        answers (q'.toList, h') ∧ q'.size < 2 ^ 30) ∧
    ∀ grow (p : Queue Nat) targetsize k, q_grow_by grow p targetsize k = q_grow p targetsize k := by
  have hq : q_create_alloc 3 (by decide) (fun _ => 0) [true, true, false] =
    (some (q_create 3 (by decide) fun _ => 0), [false]) := rfl
  exact queue_is_fifo (by decide) (by decide) hq _ (by decide)

end Os161
