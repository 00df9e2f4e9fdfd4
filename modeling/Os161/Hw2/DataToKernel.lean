import Mathlib.Data.Fintype.Sum
import Os161.Lib.Monitor
import Os161.Lib.Ring

/-! # `hw2/data_to_kernel.c`

User level threads put their ids into packets, in the order of the ids, and kernel threads serve them.
-/

namespace Os161.DataToKernel

open Machine (Any)
open Monitor

/-! ## The program -/

structure Config where
  N_PACKETS : Nat
  N_PRODUCERS : Nat
  N_CONSUMERS : Nat

inductive Cond where
  | not_full | not_empty
  deriving DecidableEq, Repr

structure Shared where
  avail_packets : Int
  curr_producer_id : Int
  packets : Nat → Int
  packet_head : Nat
  packet_tail : Nat

inductive Event where
  | filled (id : Int)
  | served (id : Int)
  deriving DecidableEq, Repr

variable {c : Config}

def producerId (i : Fin c.N_PRODUCERS) : Int := i + 1

def producer (c : Config) (id : Int) (d : Shared) : Outcome Cond Shared Event :=
  if d.avail_packets = 0 ∨ d.curr_producer_id ≠ id then
    .waits .not_full d
  else
    .leaves (.broadcast .not_empty) true
      { d with
        packets := Function.update d.packets d.packet_tail id
        packet_tail := (d.packet_tail + 1) % c.N_PACKETS
        avail_packets := d.avail_packets - 1
        curr_producer_id := d.curr_producer_id + 1 }
      [.filled id]

def consumer (c : Config) (d : Shared) : Outcome Cond Shared Event :=
  if d.avail_packets = c.N_PACKETS then
    if d.curr_producer_id = c.N_PRODUCERS + 1 then .leaves .nobody true d []
    else .waits .not_empty d
  else
    .leaves (.broadcast .not_full) false
      { d with
        packet_head := (d.packet_head + 1) % c.N_PACKETS
        avail_packets := d.avail_packets + 1 }
      [.served (d.packets d.packet_head)]

abbrev Thread (c : Config) := Fin c.N_PRODUCERS ⊕ Fin c.N_CONSUMERS

def body : Thread c → Shared → Outcome Cond Shared Event
  | .inl i => producer c (producerId i)
  | .inr _ => consumer c

/-- What `main` sets up; `packets` is not initialised. -/
def start (c : Config) (packets : Nat → Int) : Shared where
  avail_packets := c.N_PACKETS
  curr_producer_id := 1
  packets := packets
  packet_head := 0
  packet_tail := 0

def threads (c : Config) (packets : Nat → Int) : Machine (State (Thread c) Cond Shared) (Choice (Thread c)) Event Unit :=
  machine body (start c packets)

/-! ## What the sections keep -/

def filled (tr : List Event) : List Int :=
  tr.reverse.filterMap fun e => match e with
    | .filled id => some id
    | .served _ => none

def served (tr : List Event) : List Int :=
  tr.reverse.filterMap fun e => match e with
    | .filled _ => none
    | .served id => some id

def firstIds (k : Nat) : List Int := (List.range k).map fun i : Nat => (i : Int) + 1

section Traces

variable {tr : List Event} {id : Int} {k m : Nat}

@[simp] theorem filled_filled : filled (.filled id :: tr) = filled tr ++ [id] := by simp [filled]
@[simp] theorem filled_served : filled (.served id :: tr) = filled tr := by simp [filled]
@[simp] theorem served_filled : served (.filled id :: tr) = served tr := by simp [served]
@[simp] theorem served_served : served (.served id :: tr) = served tr ++ [id] := by simp [served]

@[simp] theorem length_firstIds : (firstIds k).length = k := by simp [firstIds]

theorem firstIds_succ : firstIds (k + 1) = firstIds k ++ [(k : Int) + 1] := by
  simp [firstIds, List.range_succ]

theorem take_firstIds (h : m ≤ k) : (firstIds k).take m = firstIds m := by
  unfold firstIds
  rw [← List.map_take, List.take_range, Nat.min_eq_left h]

end Traces

structure Inv (c : Config) (d : Shared) (tr : List Event) : Prop where
  avail_nonneg : 0 ≤ d.avail_packets
  avail_le : d.avail_packets ≤ c.N_PACKETS
  curr_pos : 1 ≤ d.curr_producer_id
  curr_le : d.curr_producer_id ≤ c.N_PRODUCERS + 1
  head_lt : d.packet_head < c.N_PACKETS
  tail : d.packet_tail = (d.packet_head + (c.N_PACKETS - d.avail_packets).toNat) % c.N_PACKETS
  filled : filled tr = firstIds (d.curr_producer_id - 1).toNat
  ids : DataToKernel.filled tr =
    served tr ++ Ring.window c.N_PACKETS d.packet_head (c.N_PACKETS - d.avail_packets).toNat d.packets

section Sections

variable {d d' : Shared} {tr es : List Event} {k : Cond} {n : Notify Cond} {done : Bool}

theorem start_inv (hpackets : 1 ≤ c.N_PACKETS) (packets : Nat → Int) : Inv c (start c packets) [] := by
  constructor <;> simp [start, DataToKernel.filled, served, firstIds, Ring.window]
  omega

theorem producer_waits {id : Int} (hb : producer c id d = .waits k d') :
    d' = d ∧ k = .not_full ∧ (d.avail_packets = 0 ∨ d.curr_producer_id ≠ id) := by
  unfold producer at hb
  split at hb
  · rename_i hwait
    cases hb
    exact ⟨rfl, rfl, hwait⟩
  · cases hb

theorem consumer_waits (hb : consumer c d = .waits k d') :
    d' = d ∧ k = .not_empty ∧ d.avail_packets = c.N_PACKETS ∧ d.curr_producer_id ≠ c.N_PRODUCERS + 1 := by
  unfold consumer at hb
  split at hb
  · rename_i hall
    split at hb
    · cases hb
    · rename_i hmore
      cases hb
      exact ⟨rfl, rfl, hall, hmore⟩
  · cases hb

theorem producer_leaves {i : Fin c.N_PRODUCERS} (h : Inv c d tr)
    (hb : producer c (producerId i) d = .leaves n done d' es) :
    Inv c d' (es ++ tr) ∧ n = .broadcast .not_empty ∧ done = true ∧ d.curr_producer_id = producerId i ∧
      d'.curr_producer_id = d.curr_producer_id + 1 ∧ d'.avail_packets < c.N_PACKETS := by
  unfold producer at hb
  split at hb
  · cases hb
  rename_i hturn
  cases hb
  obtain ⟨havail, hcurr⟩ := not_or.mp hturn
  rw [not_not] at hcurr
  have hnonneg := h.avail_nonneg
  have hle := h.avail_le
  have hi := i.isLt
  set len := (c.N_PACKETS - d.avail_packets).toNat with hlen
  have hlt : len < c.N_PACKETS := by omega
  have hlen' : (c.N_PACKETS - (d.avail_packets - 1)).toNat = len + 1 := by omega
  have hpos := h.curr_pos
  have hid : ((d.curr_producer_id - 1).toNat : Int) + 1 = producerId i := by omega
  have hnext : (d.curr_producer_id + 1 - 1).toNat = (d.curr_producer_id - 1).toNat + 1 := by omega
  refine ⟨⟨?_, ?_, ?_, ?_, h.head_lt, ?_, ?_, ?_⟩, rfl, rfl, hcurr, rfl, ?_⟩ <;> dsimp only
  · omega
  · omega
  · omega
  · rw [hcurr, producerId]
    omega
  · rw [hlen', h.tail, Nat.mod_add_mod, Nat.add_assoc]
  · simp only [List.cons_append, List.nil_append, filled_filled, h.filled]
    rw [hnext, firstIds_succ, hid]
  · rw [hlen', h.tail, Ring.window_write _ _ _ hlt]
    simp [h.ids, hlen]
  · omega

theorem consumer_leaves (h : Inv c d tr) (hb : consumer c d = .leaves n done d' es) :
    Inv c d' (es ++ tr) ∧
      (done = true ∧ d' = d ∧ d.avail_packets = c.N_PACKETS ∧ d.curr_producer_id = c.N_PRODUCERS + 1 ∨
        done = false ∧ n = .broadcast .not_full ∧ d.avail_packets ≠ c.N_PACKETS ∧
          d'.curr_producer_id = d.curr_producer_id) := by
  unfold consumer at hb
  split at hb
  · rename_i hall
    split at hb
    · rename_i hlast
      cases hb
      exact ⟨h, .inl ⟨rfl, rfl, hall, hlast⟩⟩
    · cases hb
  · rename_i hsome
    cases hb
    have hnonneg := h.avail_nonneg
    have hle := h.avail_le
    have htail := h.tail
    have hids := h.ids
    obtain ⟨len, hlen⟩ : ∃ len : Nat, c.N_PACKETS - d.avail_packets = len + 1 :=
      ⟨(c.N_PACKETS - d.avail_packets - 1).toNat, by omega⟩
    have hto : (c.N_PACKETS - d.avail_packets).toNat = len + 1 := by omega
    have hto' : (c.N_PACKETS - (d.avail_packets + 1)).toNat = len := by omega
    rw [hto] at htail hids
    rw [Ring.window_cons h.head_lt] at hids
    have hpos : 0 < c.N_PACKETS := Nat.lt_of_le_of_lt (Nat.zero_le _) h.head_lt
    refine ⟨⟨?_, ?_, h.curr_pos, h.curr_le, Nat.mod_lt _ hpos, ?_, ?_, ?_⟩, .inr ⟨rfl, rfl, hsome, rfl⟩⟩ <;>
      dsimp only
    · omega
    · omega
    · rw [hto', htail, Nat.mod_add_mod]
      congr 1
      omega
    · simpa using h.filled
    · rw [hto']
      simp [hids]

end Sections

/-! ## Every run -/

section Runs

variable {s : State (Thread c) Cond Shared} {tr : List Event} {packets : Nat → Int}

theorem reach_inv (hpackets : 1 ≤ c.N_PACKETS) (h : (threads c packets).Reach Any s tr) : Inv c s.data tr := by
  refine data_invariant (start_inv hpackets packets) ?_ ?_ h
  · rintro (i | i) d k d' tr hd hb
    · exact (producer_waits hb).1 ▸ hd
    · exact (consumer_waits hb).1 ▸ hd
  · rintro (i | i) d n done d' es tr hd hb
    · exact (producer_leaves hd hb).1
    · exact (consumer_leaves hd hb).1

theorem same_of_waits {t : Thread c} {d d' : Shared} {k : Cond} (hb : body t d = .waits k d') : d' = d := by
  rcases t with i | i
  · exact (producer_waits hb).1
  · exact (consumer_waits hb).1

theorem waits_on (h : (threads c packets).Reach Any s tr) {t : Thread c} {k : Cond} (ht : s.place t = .waits k) :
    k = if t.isLeft then .not_full else .not_empty := by
  refine waits_rule (I := fun _ => True) (A := fun t => k = if t.isLeft then .not_full else .not_empty)
    (fun _ _ _ => trivial) ?_ h ht
  rintro (i | i) d d' - hb
  · exact (producer_waits hb).2.1
  · exact (consumer_waits hb).2.1

theorem all_of_done (hpackets : 1 ≤ c.N_PACKETS) (h : (threads c packets).Reach Any s tr) {i : Fin c.N_CONSUMERS}
    (hi : s.place (.inr i) = .done) :
    s.data.avail_packets = c.N_PACKETS ∧ s.data.curr_producer_id = c.N_PRODUCERS + 1 := by
  refine done_rule (I := fun d => ∃ tr, Inv c d tr) (D := fun t d => t.isRight →
      d.avail_packets = c.N_PACKETS ∧ d.curr_producer_id = c.N_PRODUCERS + 1)
    (fun s tr hr => ⟨tr, reach_inv hpackets hr⟩) ?_ ?_ h hi rfl
  · rintro (i | i) d n d' es ⟨tr, hd⟩ hb hA
    · cases hA
    · rcases (consumer_leaves hd hb).2 with ⟨-, rfl, hall⟩ | ⟨hf, -⟩
      · exact hall
      · cases hf
  · rintro t u d ⟨tr, hd⟩ hD hA
    have hall := hD hA
    cases hb : body u d with
    | waits k d' =>
      obtain rfl := same_of_waits hb
      exact hall
    | leaves n done d' es =>
      show d'.avail_packets = c.N_PACKETS ∧ d'.curr_producer_id = c.N_PRODUCERS + 1
      rcases u with j | j
      · -- there is no producer with the id that comes next
        have hturn := (producer_leaves hd hb).2.2.2.1
        have hj := j.isLt
        rw [hall.2, producerId] at hturn
        omega
      · rcases (consumer_leaves hd hb).2 with ⟨-, rfl, -⟩ | ⟨-, -, hsome, -⟩
        · exact hall
        · exact absurd hall.1 hsome

theorem producer_done (hpackets : 1 ≤ c.N_PACKETS) (h : (threads c packets).Reach Any s tr)
    {i : Fin c.N_PRODUCERS} : s.place (.inl i) = .done ↔ producerId i < s.data.curr_producer_id := by
  have hI : ∀ s tr, (threads c packets).Reach Any s tr → ∃ tr, Inv c s.data tr :=
    fun s tr hr => ⟨tr, reach_inv hpackets hr⟩
  constructor
  · intro hi
    refine done_rule (I := fun d => ∃ tr, Inv c d tr)
      (D := fun t d => ∀ j, t = .inl j → producerId j < d.curr_producer_id) hI ?_ ?_ h hi i rfl
    · rintro (i | i) d n d' es ⟨tr, hd⟩ hb j hj
      · cases hj
        obtain ⟨-, -, -, hturn, hnext, -⟩ := producer_leaves hd hb
        omega
      · cases hj
    · rintro t u d ⟨tr, hd⟩ hD j hj
      have hlt := hD j hj
      cases hb : body u d with
      | waits k d' =>
        obtain rfl := same_of_waits hb
        exact hlt
      | leaves n done d' es =>
        show producerId j < d'.curr_producer_id
        rcases u with v | v
        · obtain ⟨-, -, -, -, hnext, -⟩ := producer_leaves hd hb
          omega
        · rcases (consumer_leaves hd hb).2 with ⟨-, rfl, -⟩ | ⟨-, -, -, hsame⟩
          · exact hlt
          · omega
  · intro hlt
    by_contra hi
    refine absurd hlt (Int.not_lt.mpr ?_)
    refine until_rule (I := fun d => ∃ tr, Inv c d tr)
      (E := fun t d => ∀ j, t = .inl j → d.curr_producer_id ≤ producerId j) hI ?_ ?_ ?_ h hi i rfl
    · intro t j _
      simp only [start, producerId]
      omega
    · intro t u d k d' _ hE hb
      rw [same_of_waits hb]
      exact hE
    · rintro t (v | v) d n done d' es ⟨tr, hd⟩ hE hb
      · obtain ⟨-, -, rfl, hturn, hnext, -⟩ := producer_leaves hd hb
        by_cases ht : t = .inl v
        · exact .inr ⟨ht.symm, rfl⟩
        · refine .inl fun j hj => ?_
          have hle := hE j hj
          have hne : (j : Nat) ≠ v := fun hjv => ht (by rw [hj, Fin.ext hjv])
          simp only [producerId] at *
          omega
      · refine .inl fun j hj => ?_
        have hle := hE j hj
        rcases (consumer_leaves hd hb).2 with ⟨-, rfl, -⟩ | ⟨-, -, -, hsame⟩
        · exact hle
        · omega

theorem empty_of_waits (hpackets : 1 ≤ c.N_PACKETS) (h : (threads c packets).Reach Any s tr) {t : Thread c}
    (ht : s.place t = .waits .not_empty) :
    s.data.avail_packets = c.N_PACKETS ∧ s.data.curr_producer_id ≠ c.N_PRODUCERS + 1 := by
  refine wait_rule (I := fun d => ∃ tr, Inv c d tr)
    (G := fun _ d => d.avail_packets = c.N_PACKETS ∧ d.curr_producer_id ≠ c.N_PRODUCERS + 1)
    (fun s tr hr => ⟨tr, reach_inv hpackets hr⟩) ?_ ?_ ?_ h ht
  · rintro (i | i) d d' - hb
    · cases (producer_waits hb).2.1
    · obtain ⟨rfl, -, hall⟩ := consumer_waits hb
      exact hall
  · intro t u d k d' _ hG hb
    rw [same_of_waits hb]
    exact hG
  · rintro t (i | i) d n done d' es ⟨tr, hd⟩ hG hb
    · exact .inr (producer_leaves hd hb).2.1
    · rcases (consumer_leaves hd hb).2 with ⟨-, rfl, -⟩ | ⟨-, -, hsome, -⟩
      · exact .inl hG
      · exact absurd hG.1 hsome

theorem filled_of_waits (hpackets : 1 ≤ c.N_PACKETS) (h : (threads c packets).Reach Any s tr)
    {i : Fin c.N_PRODUCERS} (hi : s.place (.inl i) = .waits .not_full)
    (hturn : s.data.curr_producer_id = producerId i) : s.data.avail_packets < c.N_PACKETS := by
  refine wait_rule (I := fun d => ∃ tr, Inv c d tr)
    (G := fun t d => ∀ j, t = .inl j → d.curr_producer_id = producerId j → d.avail_packets < c.N_PACKETS)
    (fun s tr hr => ⟨tr, reach_inv hpackets hr⟩) ?_ ?_ ?_ h hi i rfl hturn
  · rintro (i | i) d d' - hb j hj hturn
    · cases hj
      obtain ⟨rfl, -, hwait⟩ := producer_waits hb
      have := hwait.resolve_right (not_not.mpr hturn)
      omega
    · cases hj
  · intro t u d k d' _ hG hb
    rw [same_of_waits hb]
    exact hG
  · rintro t (i | i) d n done d' es ⟨tr, hd⟩ hG hb
    · exact .inl fun _ _ _ => (producer_leaves hd hb).2.2.2.2.2
    · rcases (consumer_leaves hd hb).2 with ⟨-, rfl, -⟩ | ⟨-, hn, -⟩
      · exact .inl hG
      · exact .inr hn

end Runs

/-- The packets are filled and served in the order of the ids, and the threads do not block one
another for good. -/
theorem packets_in_order {s : State (Thread c) Cond Shared} {tr : List Event} {packets : Nat → Int}
    (hpackets : 1 ≤ c.N_PACKETS) (hconsumers : 1 ≤ c.N_CONSUMERS) (h : (threads c packets).Reach Any s tr) :
    0 ≤ s.data.avail_packets ∧ s.data.avail_packets ≤ c.N_PACKETS ∧
    (c.N_PACKETS - s.data.avail_packets = (filled tr).length - (served tr).length) ∧
    served tr = firstIds (served tr).length ∧
    (∀ i, s.place (.inr i) = .done → served tr = firstIds c.N_PRODUCERS) ∧
    ¬ ((∃ t, s.place t ≠ .done) ∧ ∀ t, s.place t ≠ .done → ∃ k, s.place t = .waits k) := by
  have hinv := reach_inv hpackets h
  have hle := hinv.avail_le
  have hlen : (filled tr).length = (served tr).length + (c.N_PACKETS - s.data.avail_packets).toNat := by
    rw [hinv.ids, List.length_append, Ring.length_window]
  have hserved : served tr = firstIds (served tr).length := by
    have htake : served tr = (filled tr).take (served tr).length := by rw [hinv.ids, List.take_left]
    rw [hinv.filled, take_firstIds] at htake
    · exact htake
    · rw [← length_firstIds (k := (s.data.curr_producer_id - 1).toNat), ← hinv.filled]
      omega
  refine ⟨hinv.avail_nonneg, hle, by omega, hserved, fun i hi => ?_, ?_⟩
  · obtain ⟨hall, hlast⟩ := all_of_done hpackets h hi
    have hfilled := hinv.filled
    have hids := hinv.ids
    rw [hall, Int.sub_self] at hids
    rw [hlast] at hfilled
    rw [hids] at hfilled
    simpa [Ring.window] using hfilled
  · rintro ⟨⟨t, ht⟩, hblocked⟩
    have hcurr := hinv.curr_le
    have hpos := hinv.curr_pos
    -- a consumer that has not returned waits for a packet
    have hempty : ∀ i : Fin c.N_CONSUMERS, s.place (.inr i) ≠ .done →
        s.data.avail_packets = c.N_PACKETS ∧ s.data.curr_producer_id ≠ c.N_PRODUCERS + 1 := by
      intro i hi
      obtain ⟨k, hk⟩ := hblocked _ hi
      obtain rfl := waits_on h hk
      exact empty_of_waits hpackets h hk
    by_cases hlast : s.data.curr_producer_id = c.N_PRODUCERS + 1
    · rcases t with i | i
      · refine ht ((producer_done hpackets h).mpr ?_)
        have := i.isLt
        rw [hlast, producerId]
        omega
      · exact (hempty i ht).2 hlast
    · -- the producer whose turn it is waits until a packet is served
      obtain ⟨n, hn⟩ : ∃ n : Nat, s.data.curr_producer_id = n + 1 :=
        ⟨(s.data.curr_producer_id - 1).toNat, by omega⟩
      have hturn : s.data.curr_producer_id = producerId (⟨n, by omega⟩ : Fin c.N_PRODUCERS) := hn
      have hnot : s.place (.inl ⟨n, by omega⟩) ≠ .done := by
        rw [Ne, producer_done hpackets h, ← hturn]
        exact Int.lt_irrefl _
      obtain ⟨k, hk⟩ := hblocked _ hnot
      obtain rfl := waits_on h hk
      have hlt := filled_of_waits hpackets h hk hturn
      by_cases hc : s.place (.inr ⟨0, hconsumers⟩) = .done
      · exact hlast (all_of_done hpackets h hc).2
      · have := (hempty _ hc).1
        omega

/-- The second thread comes first and waits for its turn; a consumer serves the first and wakes it. -/
theorem packets_in_order_two_threads : ∃ s tr, (threads ⟨1, 2, 1⟩ fun _ => 0).Reach Any s tr ∧
    s.place (.inr 0) = .done ∧ served tr = firstIds 2 := by
  obtain ⟨s, tr, hr, hcheck⟩ := Machine.exists_runOk (M := threads ⟨1, 2, 1⟩ fun _ => 0) Any
    [.lock (.inl 1), .run (.inl 1) none, .lock (.inl 0), .run (.inl 0) none, .lock (.inr 0), .run (.inr 0) none,
      .lock (.inl 1), .run (.inl 1) none, .lock (.inr 0), .run (.inr 0) none, .lock (.inr 0), .run (.inr 0) none]
    (fun x => decide (x.1.place (.inr 0) = .done)) rfl (by decide +kernel)
  have hdone : s.place (.inr 0) = .done := of_decide_eq_true hcheck
  obtain ⟨-, -, -, -, hall, -⟩ := packets_in_order (by decide) (by decide) hr
  exact ⟨s, tr, hr, hdone, hall 0 hdone⟩

end Os161.DataToKernel
