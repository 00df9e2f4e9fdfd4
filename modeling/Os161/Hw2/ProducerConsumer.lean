import Mathlib.Algebra.BigOperators.Fin
import Os161.Lib.Monitor
import Os161.Lib.Ring
import Os161.Lib.Tally

/-! # `hw2/producer_consumer.c`

The `int` counters stay between 0 and the arguments of `main`, so they do not overflow.
-/

namespace Os161.ProducerConsumer

open Machine (Any)
open Monitor

/-! ## The program -/

structure Config where
  N_PRODUCERS : Nat
  N_CONSUMERS : Nat
  N_ITEMS : Int
  QUEUE_SIZE : Nat

inductive Cond where
  | not_full | not_empty
  deriving DecidableEq, Repr

structure ThreadInfo where
  id : Nat
  n_sleeps : Nat
  n_contribs : Int

structure Shared (c : Config) where
  n_produced : Int
  n_consumed : Int
  queue : Nat → Nat
  queue_head : Nat
  queue_tail : Nat
  queue_len : Int
  producer_info : Fin c.N_PRODUCERS → ThreadInfo
  consumer_info : Fin c.N_CONSUMERS → ThreadInfo

inductive Event where
  | put (id : Nat)
  | got (producer_id : Nat)
  deriving DecidableEq, Repr

variable {c : Config}

def ThreadInfo.slept (info : ThreadInfo) : ThreadInfo := { info with n_sleeps := info.n_sleeps + 1 }
def ThreadInfo.contributed (info : ThreadInfo) : ThreadInfo := { info with n_contribs := info.n_contribs + 1 }

def producer (i : Fin c.N_PRODUCERS) (d : Shared c) : Outcome Cond (Shared c) Event :=
  let info := d.producer_info i
  if d.queue_len = c.QUEUE_SIZE ∧ d.n_produced < c.N_ITEMS then
    .waits .not_full { d with producer_info := Function.update d.producer_info i info.slept }
  else if d.n_produced ≥ c.N_ITEMS then
    .leaves (.broadcast .not_full) true d []
  else
    .leaves (.signal .not_empty) false
      { d with
        queue := Function.update d.queue d.queue_tail info.id
        queue_tail := (d.queue_tail + 1) % c.QUEUE_SIZE
        queue_len := d.queue_len + 1
        n_produced := d.n_produced + 1
        producer_info := Function.update d.producer_info i info.contributed }
      [.put info.id]

def consumer (i : Fin c.N_CONSUMERS) (d : Shared c) : Outcome Cond (Shared c) Event :=
  let info := d.consumer_info i
  if d.queue_len = 0 ∧ d.n_consumed < c.N_ITEMS then
    .waits .not_empty { d with consumer_info := Function.update d.consumer_info i info.slept }
  else if d.n_consumed ≥ c.N_ITEMS then
    .leaves (.broadcast .not_empty) true d []
  else
    .leaves (.signal .not_full) false
      { d with
        queue_head := (d.queue_head + 1) % c.QUEUE_SIZE
        queue_len := d.queue_len - 1
        n_consumed := d.n_consumed + 1
        consumer_info := Function.update d.consumer_info i info.contributed }
      [.got (d.queue d.queue_head)]

abbrev Thread (c : Config) := Fin c.N_PRODUCERS ⊕ Fin c.N_CONSUMERS

def body : Thread c → Shared c → Outcome Cond (Shared c) Event
  | .inl i => producer i
  | .inr i => consumer i

/-- What `main` sets up; `queue` is not initialised. -/
def start (c : Config) (queue : Nat → Nat) : Shared c where
  n_produced := 0
  n_consumed := 0
  queue := queue
  queue_head := 0
  queue_tail := 0
  queue_len := 0
  producer_info i := ⟨i, 0, 0⟩
  consumer_info i := ⟨i, 0, 0⟩

def threads (c : Config) (queue : Nat → Nat) : Machine (State (Thread c) Cond (Shared c)) (Choice (Thread c)) Event Unit :=
  machine body (start c queue)

/-! ## What the sections keep -/

def produced (tr : List Event) : List Nat :=
  tr.reverse.filterMap fun e => match e with
    | .put id => some id
    | .got _ => none

def consumed (tr : List Event) : List Nat :=
  tr.reverse.filterMap fun e => match e with
    | .put _ => none
    | .got id => some id

section Traces

variable {tr : List Event} {id : Nat}

@[simp] theorem produced_put : produced (.put id :: tr) = produced tr ++ [id] := by simp [produced]
@[simp] theorem produced_got : produced (.got id :: tr) = produced tr := by simp [produced]
@[simp] theorem consumed_put : consumed (.put id :: tr) = consumed tr := by simp [consumed]
@[simp] theorem consumed_got : consumed (.got id :: tr) = consumed tr ++ [id] := by simp [consumed]

end Traces

structure Inv (d : Shared c) (tr : List Event) : Prop where
  len_nonneg : 0 ≤ d.queue_len
  len_le : d.queue_len ≤ c.QUEUE_SIZE
  balance : d.n_produced = d.n_consumed + d.queue_len
  produced_le : d.n_produced ≤ c.N_ITEMS
  head_lt : d.queue_head < c.QUEUE_SIZE
  tail : d.queue_tail = (d.queue_head + d.queue_len.toNat) % c.QUEUE_SIZE
  producers : ∑ i, (d.producer_info i).n_contribs = d.n_produced
  consumers : ∑ i, (d.consumer_info i).n_contribs = d.n_consumed
  ids : produced tr = consumed tr ++ Ring.window c.QUEUE_SIZE d.queue_head d.queue_len.toNat d.queue
  length : ((consumed tr).length : Int) = d.n_consumed

section Sections

variable {d d' : Shared c} {tr es : List Event} {k : Cond} {n : Notify Cond} {done : Bool}

theorem sum_update {m : Nat} (info : Fin m → ThreadInfo) (i : Fin m) (x : ThreadInfo) :
    ∑ j, (Function.update info i x j).n_contribs =
      ∑ j, (info j).n_contribs - (info i).n_contribs + x.n_contribs :=
  Tally.total_update ThreadInfo.n_contribs info i x

theorem sum_slept {m : Nat} (info : Fin m → ThreadInfo) (i : Fin m) :
    ∑ j, (Function.update info i (info i).slept j).n_contribs = ∑ j, (info j).n_contribs := by
  rw [sum_update]
  simp [ThreadInfo.slept]

theorem sum_contributed {m : Nat} (info : Fin m → ThreadInfo) (i : Fin m) :
    ∑ j, (Function.update info i (info i).contributed j).n_contribs = ∑ j, (info j).n_contribs + 1 := by
  rw [sum_update]
  simp only [ThreadInfo.contributed]
  omega

theorem start_inv (hsize : 1 ≤ c.QUEUE_SIZE) (hitems : 0 ≤ c.N_ITEMS) (queue : Nat → Nat) :
    Inv (start c queue) [] := by
  constructor <;> simp [start, produced, consumed, Ring.window] <;> omega

theorem producer_waits {i : Fin c.N_PRODUCERS} (h : Inv d tr) (hb : producer i d = .waits k d') :
    Inv d' tr ∧ k = .not_full ∧ (d'.queue_len = d.queue_len ∧ d'.n_consumed = d.n_consumed) ∧
      d'.queue_len = c.QUEUE_SIZE ∧ d'.n_produced < c.N_ITEMS := by
  unfold producer at hb
  simp only at hb
  split at hb
  · rename_i hfull
    cases hb
    exact ⟨{ h with producers := by rw [← h.producers, sum_slept] }, rfl, ⟨rfl, rfl⟩, hfull⟩
  · split at hb <;> cases hb

theorem consumer_waits {i : Fin c.N_CONSUMERS} (h : Inv d tr) (hb : consumer i d = .waits k d') :
    Inv d' tr ∧ k = .not_empty ∧ (d'.queue_len = d.queue_len ∧ d'.n_produced = d.n_produced) ∧
      d'.queue_len = 0 ∧ d'.n_consumed < c.N_ITEMS := by
  unfold consumer at hb
  simp only at hb
  split at hb
  · rename_i hempty
    cases hb
    exact ⟨{ h with consumers := by rw [← h.consumers, sum_slept] }, rfl, ⟨rfl, rfl⟩, hempty⟩
  · split at hb <;> cases hb

theorem producer_leaves {i : Fin c.N_PRODUCERS} (h : Inv d tr) (hb : producer i d = .leaves n done d' es) :
    Inv d' (es ++ tr) ∧
      (done = true ∧ n = .broadcast .not_full ∧ d' = d ∧ c.N_ITEMS ≤ d.n_produced ∨
        done = false ∧ n = .signal .not_empty ∧ d'.n_consumed = d.n_consumed) := by
  unfold producer at hb
  simp only at hb
  split at hb
  · cases hb
  rename_i hfull
  split at hb
  · rename_i hdone
    cases hb
    exact ⟨h, .inl ⟨rfl, rfl, rfl, hdone⟩⟩
  · rename_i hmore
    cases hb
    have hnonneg := h.len_nonneg
    have hle := h.len_le
    have hlt : d.queue_len.toNat < c.QUEUE_SIZE := by omega
    have hlen : (d.queue_len + 1).toNat = d.queue_len.toNat + 1 := by omega
    have hbal := h.balance
    refine ⟨⟨?_, ?_, ?_, ?_, h.head_lt, ?_, ?_, h.consumers, ?_, ?_⟩, .inr ⟨rfl, rfl, rfl⟩⟩ <;> dsimp only
    · omega
    · omega
    · omega
    · omega
    · rw [hlen, h.tail, Nat.mod_add_mod, Nat.add_assoc]
    · rw [sum_contributed, h.producers]
    · rw [hlen, h.tail, Ring.window_write _ _ _ hlt]
      simp [h.ids]
    · simpa using h.length

theorem consumer_leaves {i : Fin c.N_CONSUMERS} (h : Inv d tr) (hb : consumer i d = .leaves n done d' es) :
    Inv d' (es ++ tr) ∧
      (done = true ∧ n = .broadcast .not_empty ∧ d' = d ∧ c.N_ITEMS ≤ d.n_consumed ∨
        done = false ∧ n = .signal .not_full ∧ d'.n_produced = d.n_produced) := by
  unfold consumer at hb
  simp only at hb
  split at hb
  · cases hb
  rename_i hempty
  split at hb
  · rename_i hdone
    cases hb
    exact ⟨h, .inl ⟨rfl, rfl, rfl, hdone⟩⟩
  · rename_i hmore
    cases hb
    have hnonneg := h.len_nonneg
    have hle := h.len_le
    obtain ⟨len, hlen⟩ : ∃ len : Nat, d.queue_len = len + 1 := ⟨(d.queue_len - 1).toNat, by omega⟩
    have hbal := h.balance
    have htail := h.tail
    have hids := h.ids
    have hto : d.queue_len.toNat = len + 1 := by omega
    have hto' : (d.queue_len - 1).toNat = len := by omega
    rw [hto] at htail hids
    rw [Ring.window_cons h.head_lt] at hids
    have hpos : 0 < c.QUEUE_SIZE := Nat.lt_of_le_of_lt (Nat.zero_le _) h.head_lt
    refine ⟨⟨?_, ?_, ?_, h.produced_le, Nat.mod_lt _ hpos, ?_, h.producers, ?_, ?_, ?_⟩, .inr ⟨rfl, rfl, rfl⟩⟩ <;>
      dsimp only
    · omega
    · omega
    · omega
    · rw [hto', htail, Nat.mod_add_mod]
      congr 1
      omega
    · rw [sum_contributed, h.consumers]
    · rw [hto']
      simp [hids]
    · have := h.length
      simp
      omega

end Sections

/-! ## Every run -/

section Runs

variable {s : State (Thread c) Cond (Shared c)} {tr : List Event} {queue : Nat → Nat}

theorem reach_inv (hsize : 1 ≤ c.QUEUE_SIZE) (hitems : 0 ≤ c.N_ITEMS)
    (h : (threads c queue).Reach Any s tr) : Inv s.data tr := by
  refine data_invariant (start_inv hsize hitems queue) ?_ ?_ h
  · rintro (i | i) d k d' tr hd hb
    · exact (producer_waits hd hb).1
    · exact (consumer_waits hd hb).1
  · rintro (i | i) d n done d' es tr hd hb
    · exact (producer_leaves hd hb).1
    · exact (consumer_leaves hd hb).1

theorem enough_of_done (hsize : 1 ≤ c.QUEUE_SIZE) (hitems : 0 ≤ c.N_ITEMS)
    (h : (threads c queue).Reach Any s tr) {t : Thread c} (ht : s.place t = .done) :
    c.N_ITEMS ≤ s.data.n_produced ∧ (t.isRight → c.N_ITEMS ≤ s.data.n_consumed) := by
  refine done_rule (I := fun d => ∃ tr, Inv d tr)
    (D := fun t d => c.N_ITEMS ≤ d.n_produced ∧ (t.isRight → c.N_ITEMS ≤ d.n_consumed))
    (fun s tr hr => ⟨tr, reach_inv hsize hitems hr⟩) ?_ ?_ h ht
  · rintro (i | i) d n d' es ⟨tr, hd⟩ hb
    · rcases (producer_leaves hd hb).2 with ⟨-, -, rfl, hle⟩ | ⟨hf, -⟩
      · exact ⟨hle, by simp⟩
      · cases hf
    · rcases (consumer_leaves hd hb).2 with ⟨-, -, rfl, hle⟩ | ⟨hf, -⟩
      · have := hd.balance
        have := hd.len_nonneg
        exact ⟨by omega, fun _ => hle⟩
      · cases hf
  -- the totals only grow
  · rintro t (i | i) d - hD
    · show c.N_ITEMS ≤ (producer i d).data.n_produced ∧ (t.isRight → c.N_ITEMS ≤ (producer i d).data.n_consumed)
      unfold producer
      simp only
      split
      · exact hD
      split
      · exact hD
      · exact ⟨by simp only [Outcome.data]; omega, hD.2⟩
    · show c.N_ITEMS ≤ (consumer i d).data.n_produced ∧ (t.isRight → c.N_ITEMS ≤ (consumer i d).data.n_consumed)
      unfold consumer
      simp only
      split
      · exact hD
      split
      · exact hD
      · refine ⟨hD.1, fun ht => ?_⟩
        have := hD.2 ht
        simp only [Outcome.data]
        omega

end Runs

/-- The counters, the ring and the order of the items. -/
theorem queue_in_order {s : State (Thread c) Cond (Shared c)} {tr : List Event} {queue : Nat → Nat}
    (hsize : 1 ≤ c.QUEUE_SIZE) (hitems : 0 ≤ c.N_ITEMS) (h : (threads c queue).Reach Any s tr) :
    0 ≤ s.data.queue_len ∧ s.data.queue_len ≤ c.QUEUE_SIZE ∧
    s.data.n_produced - s.data.n_consumed = s.data.queue_len ∧ s.data.n_produced ≤ c.N_ITEMS ∧
    (s.data.queue_tail : Int) = (s.data.queue_head + s.data.queue_len) % c.QUEUE_SIZE ∧
    ∑ i, (s.data.producer_info i).n_contribs = s.data.n_produced ∧
    ∑ i, (s.data.consumer_info i).n_contribs = s.data.n_consumed ∧
    ((produced tr).length = s.data.n_produced ∧ ((consumed tr).length : Int) = s.data.n_consumed ∧
      consumed tr = (produced tr).take (consumed tr).length) ∧
    (0 < c.N_CONSUMERS → (∀ t, s.place t = .done) →
      s.data.n_produced = c.N_ITEMS ∧ s.data.n_consumed = c.N_ITEMS) := by
  have hinv := reach_inv hsize hitems h
  have hnonneg := hinv.len_nonneg
  have hbal := hinv.balance
  refine ⟨hnonneg, hinv.len_le, by omega, hinv.produced_le, ?_, hinv.producers, hinv.consumers,
    ⟨?_, hinv.length, ?_⟩, ?_⟩
  · have hcast : (s.data.queue_len.toNat : Int) = s.data.queue_len := Int.toNat_of_nonneg hnonneg
    rw [hinv.tail, Int.natCast_mod, Nat.cast_add, hcast]
  · have := hinv.length
    rw [hinv.ids, List.length_append, Ring.length_window]
    omega
  · rw [hinv.ids, List.take_left]
  · intro hpos hall
    obtain ⟨-, hcons⟩ := enough_of_done hsize hitems h (hall (.inr ⟨0, hpos⟩))
    have := hcons rfl
    have := hinv.produced_le
    constructor <;> omega

theorem queue_in_order_one_item : ∃ s tr, (threads ⟨1, 1, 1, 1⟩ fun _ => 0).Reach Any s tr ∧
    (∀ t, s.place t = .done) ∧ s.data.n_produced = 1 ∧ s.data.n_consumed = 1 ∧ s.data.queue_len = 0 := by
  obtain ⟨s, tr, hr, hcheck⟩ := Machine.exists_runOk (M := threads ⟨1, 1, 1, 1⟩ fun _ => 0) Any
    [.lock (.inl 0), .run (.inl 0) none, .lock (.inl 0), .run (.inl 0) none, .lock (.inr 0), .run (.inr 0) none,
      .lock (.inr 0), .run (.inr 0) none]
    (fun x => decide (∀ t, x.1.place t = .done)) rfl (by decide +kernel)
  have hall := of_decide_eq_true hcheck
  obtain ⟨-, -, hlen, -, -, -, -, -, hdone⟩ := queue_in_order (by decide) (by decide) hr
  obtain ⟨hp, hc⟩ := hdone (by decide) hall
  exact ⟨s, tr, hr, hall, hp, hc, by rw [← hlen, hp, hc]; rfl⟩

/-- Without a consumer, a producer returns when it has put its item into the queue. -/
theorem nothing_consumed : ∃ s tr, (threads ⟨1, 0, 1, 1⟩ fun _ => 0).Reach Any s tr ∧
    (∀ t, s.place t = .done) ∧ s.data.n_produced = 1 ∧ s.data.n_consumed = 0 := by
  obtain ⟨s, tr, hr, hcheck⟩ := Machine.exists_runOk (M := threads ⟨1, 0, 1, 1⟩ fun _ => 0) Any
    [.lock (.inl 0), .run (.inl 0) none, .lock (.inl 0), .run (.inl 0) none]
    (fun x => decide ((∀ t, x.1.place t = .done) ∧ x.1.data.n_produced = 1 ∧ x.1.data.n_consumed = 0)) rfl
    (by decide +kernel)
  exact ⟨s, tr, hr, of_decide_eq_true hcheck⟩

/-! ## Deadlock -/

section Deadlock

variable {s : State (Thread c) Cond (Shared c)} {tr : List Event} {queue : Nat → Nat}

theorem full_of_waits (hsize : 1 ≤ c.QUEUE_SIZE) (hitems : 0 ≤ c.N_ITEMS) (h : (threads c queue).Reach Any s tr)
    {t : Thread c} (ht : s.place t = .waits .not_full) :
    (∃ u : Thread c, u.isLeft ∧ (s.place u).Active) ∨
      s.data.queue_len = c.QUEUE_SIZE ∧ s.data.n_produced < c.N_ITEMS := by
  refine signal_rule (I := fun d => ∃ tr, Inv d tr) (A := fun t => t.isLeft)
    (G := fun d => d.queue_len = c.QUEUE_SIZE ∧ d.n_produced < c.N_ITEMS)
    (fun s tr hr => ⟨tr, reach_inv hsize hitems hr⟩) ?_ ?_ ?_ ?_ ?_ h ht
  · rintro (i | i) d k d' ⟨tr, hd⟩ hb
    · simp [(producer_waits hd hb).2.1]
    · simp [(consumer_waits hd hb).2.1]
  · rintro (i | i) d k d' hA ⟨tr, hd⟩ hb
    · exact (producer_waits hd hb).2.2.2
    · cases hA
  · rintro (i | i) d k d' hA ⟨tr, hd⟩ hG hb
    · exact absurd rfl hA
    · obtain ⟨hlen, hprod⟩ := (consumer_waits hd hb).2.2.1
      rwa [hlen, hprod]
  · rintro (i | i) d n d' es hA ⟨tr, hd⟩ hb
    · rcases (producer_leaves hd hb).2 with ⟨-, hn, -⟩ | ⟨hf, -⟩
      · exact hn
      · cases hf
    · cases hA
  · rintro (i | i) d n done d' es hA ⟨tr, hd⟩ hG hb
    · exact absurd rfl hA
    · rcases (consumer_leaves hd hb).2 with ⟨-, -, rfl, -⟩ | ⟨-, hn, -⟩
      · exact .inl hG
      · exact .inr (.inl hn)

theorem empty_of_waits (hsize : 1 ≤ c.QUEUE_SIZE) (hitems : 0 ≤ c.N_ITEMS) (h : (threads c queue).Reach Any s tr)
    {t : Thread c} (ht : s.place t = .waits .not_empty) :
    (∃ u : Thread c, u.isRight ∧ (s.place u).Active) ∨
      s.data.queue_len = 0 ∧ s.data.n_consumed < c.N_ITEMS := by
  refine signal_rule (I := fun d => ∃ tr, Inv d tr) (A := fun t => t.isRight)
    (G := fun d => d.queue_len = 0 ∧ d.n_consumed < c.N_ITEMS)
    (fun s tr hr => ⟨tr, reach_inv hsize hitems hr⟩) ?_ ?_ ?_ ?_ ?_ h ht
  · rintro (i | i) d k d' ⟨tr, hd⟩ hb
    · simp [(producer_waits hd hb).2.1]
    · simp [(consumer_waits hd hb).2.1]
  · rintro (i | i) d k d' hA ⟨tr, hd⟩ hb
    · cases hA
    · exact (consumer_waits hd hb).2.2.2
  · rintro (i | i) d k d' hA ⟨tr, hd⟩ hG hb
    · obtain ⟨hlen, hcons⟩ := (producer_waits hd hb).2.2.1
      rwa [hlen, hcons]
    · exact absurd rfl hA
  · rintro (i | i) d n d' es hA ⟨tr, hd⟩ hb
    · cases hA
    · rcases (consumer_leaves hd hb).2 with ⟨-, hn, -⟩ | ⟨hf, -⟩
      · exact hn
      · cases hf
  · rintro (i | i) d n done d' es hA ⟨tr, hd⟩ hG hb
    · rcases (producer_leaves hd hb).2 with ⟨-, -, rfl, -⟩ | ⟨-, hn, -⟩
      · exact .inl hG
      · exact .inr (.inl hn)
    · exact absurd rfl hA

theorem waits_on (hsize : 1 ≤ c.QUEUE_SIZE) (hitems : 0 ≤ c.N_ITEMS) (h : (threads c queue).Reach Any s tr)
    {t : Thread c} {k : Cond} (ht : s.place t = .waits k) : k = if t.isLeft then .not_full else .not_empty := by
  refine waits_rule (I := fun d => ∃ tr, Inv d tr) (A := fun t => k = if t.isLeft then .not_full else .not_empty)
    (fun s tr hr => ⟨tr, reach_inv hsize hitems hr⟩) ?_ h ht
  rintro (i | i) d d' ⟨tr, hd⟩ hb
  · exact (producer_waits hd hb).2.1
  · exact (consumer_waits hd hb).2.1

end Deadlock

/-- As long as a thread has not returned, one of them is not blocked. -/
theorem no_deadlock {s : State (Thread c) Cond (Shared c)} {tr : List Event} {queue : Nat → Nat}
    (hproducers : 1 ≤ c.N_PRODUCERS) (hconsumers : 1 ≤ c.N_CONSUMERS) (hsize : 1 ≤ c.QUEUE_SIZE)
    (hitems : 0 ≤ c.N_ITEMS) (h : (threads c queue).Reach Any s tr) :
    ¬ ((∃ t, s.place t ≠ .done) ∧ ∀ t, s.place t ≠ .done → ∃ k, s.place t = .waits k) := by
  rintro ⟨⟨t, ht⟩, hblocked⟩
  have hinv := reach_inv hsize hitems h
  have hbal := hinv.balance
  have hinactive : ∀ u, ¬ (s.place u).Active := by
    intro u hact
    have hne : s.place u ≠ .done := by
      rintro hu
      rw [hu] at hact
      simp [Place.Active] at hact
    obtain ⟨k, hk⟩ := hblocked u hne
    rw [hk] at hact
    simp [Place.Active] at hact
  -- a producer that has not returned waits for room, and a consumer for an item
  have hfull : ∀ i : Fin c.N_PRODUCERS, s.place (.inl i) ≠ .done →
      s.data.queue_len = c.QUEUE_SIZE ∧ s.data.n_produced < c.N_ITEMS := by
    intro i hi
    obtain ⟨k, hk⟩ := hblocked _ hi
    obtain rfl := waits_on hsize hitems h hk
    apply (full_of_waits hsize hitems h hk).resolve_left
    rintro ⟨u, -, hu⟩
    exact hinactive u hu
  have hempty : ∀ i : Fin c.N_CONSUMERS, s.place (.inr i) ≠ .done →
      s.data.queue_len = 0 ∧ s.data.n_consumed < c.N_ITEMS := by
    intro i hi
    obtain ⟨k, hk⟩ := hblocked _ hi
    obtain rfl := waits_on hsize hitems h hk
    apply (empty_of_waits hsize hitems h hk).resolve_left
    rintro ⟨u, -, hu⟩
    exact hinactive u hu
  rcases t with i | i
  · obtain ⟨hlen, hless⟩ := hfull i ht
    by_cases hc : s.place (.inr ⟨0, hconsumers⟩) = .done
    · have := (enough_of_done hsize hitems h hc).2 rfl
      omega
    · have := (hempty _ hc).1
      omega
  · obtain ⟨hlen, hless⟩ := hempty i ht
    by_cases hp : s.place (.inl ⟨0, hproducers⟩) = .done
    · have := (enough_of_done hsize hitems h hp).1
      omega
    · have := (hfull _ hp).1
      omega

theorem no_deadlock_full_queue : ∃ s tr, (threads ⟨1, 1, 2, 1⟩ fun _ => 0).Reach Any s tr ∧
    s.place (.inl 0) = .waits .not_full ∧ ∀ k, s.place (.inr 0) ≠ .waits k := by
  obtain ⟨s, tr, hr, hcheck⟩ := Machine.exists_runOk (M := threads ⟨1, 1, 2, 1⟩ fun _ => 0) Any
    [.lock (.inl 0), .run (.inl 0) none, .lock (.inl 0), .run (.inl 0) none]
    (fun x => decide (x.1.place (.inl 0) = .waits .not_full)) rfl (by decide +kernel)
  have hwaits : s.place (.inl 0) = .waits .not_full := of_decide_eq_true hcheck
  refine ⟨s, tr, hr, hwaits, fun k hk => ?_⟩
  refine no_deadlock (by decide) (by decide) (by decide) (by decide) hr ⟨⟨.inl 0, by simp [hwaits]⟩, ?_⟩
  rintro (i | i) -
  · rw [Fin.fin_one_eq_zero i]
    exact ⟨_, hwaits⟩
  · rw [Fin.fin_one_eq_zero i]
    exact ⟨k, hk⟩

end Os161.ProducerConsumer
