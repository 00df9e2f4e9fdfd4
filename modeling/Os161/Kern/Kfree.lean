import Mathlib
import Os161.Kern.Kmalloc

/-! # `kfree`, and runs of the subpage allocator -/

namespace Os161

open Prog Links

section Heap

variable {s s' : Kheap} {live live' : List (Nat × Nat)} {k : Nat} {r r' : Pageref} {a b sz : Nat} {hole : Nat → Prop}

/-! ## `kfree` -/

theorem fill_deadbeef_of_out {ptr len : Nat} {mem : Nat → Nat} (hend : ptr + len ≤ 2 ^ 32)
    (ha : a < ptr ∨ ptr + len ≤ a) : fill_deadbeef ptr len mem a = mem a := by
  have hfold : ∀ n ≤ len / 4, (List.range n).foldl
      (fun mem i => Function.update mem (u32 (ptr + 4 * i)) 0xdeadbeef) mem a = mem a := by
    intro n hn
    induction n with
    | zero => rfl
    | succ n ih =>
      have hu : u32 (ptr + 4 * n) = ptr + 4 * n := Nat.mod_eq_of_lt (by omega)
      rw [List.range_succ, List.foldl_append, List.foldl_cons, List.foldl_nil, hu, Function.update_of_ne (by omega),
        ih (by omega)]
  exact hfold _ (Nat.le_refl _)

theorem Pageref.has_iff (hlt : PR_PAGEADDR r + PAGE_SIZE < 2 ^ 32) : r.has a = true ↔ r.InPage a := by
  rw [has, u32, Nat.mod_eq_of_lt hlt]
  simp [InPage]

theorem mem_addrs_filter {x : Nat} : x ∈ addrs (live.filter fun p => p.1 ≠ a) ↔ x ∈ addrs live ∧ x ≠ a := by
  simp only [mem_addrs, List.mem_filter, decide_eq_true_eq]
  constructor
  · rintro ⟨p, ⟨hp, hne⟩, rfl⟩
    exact ⟨⟨p, hp, rfl⟩, hne⟩
  · rintro ⟨⟨p, hp, rfl⟩, hne⟩
    exact ⟨p, ⟨hp, hne⟩, rfl⟩

theorem putback_run {l : List Nat} {P : Nat → Prop} (h : PageOk s.mem P (s.pagerefs k) l) (ha : (s.pagerefs k).Block a) :
    ∃ next, putback k (a - PR_PAGEADDR (s.pagerefs k)) s = .ok (.ok (), { s.store a next with
        pagerefs := Function.update s.pagerefs k
          { s.pagerefs k with freelist_offset := a - PR_PAGEADDR (s.pagerefs k), nfree := l.length + 1 } }) ∧
      ∀ mem, nodeNext (Function.update mem a next) a = (s.pagerefs k).head := by
  have hlt := h.page_lt
  have hpos := h.page_pos
  have hlen := h.length_le_256
  obtain ⟨⟨hle, hend⟩, -⟩ := ha
  simp only [PAGE_SIZE] at hlt hend
  have hfla : u32 (PR_PAGEADDR (s.pagerefs k) + (a - PR_PAGEADDR (s.pagerefs k))) = a := by rw [u32]; omega
  refine ⟨if (s.pagerefs k).freelist_offset = INVALID_OFFSET then 0
    else u32 (PR_PAGEADDR (s.pagerefs k) + (s.pagerefs k).freelist_offset), ?_, fun mem => ?_⟩
  · rw [putback, bind_ok (get_run s), hfla, h.nfree, Nat.mod_eq_of_lt (show a - PR_PAGEADDR (s.pagerefs k) < 2 ^ 16 by omega),
      Nat.mod_eq_of_lt (show l.length + 1 < 2 ^ 16 by omega)]
    rfl
  · rw [nodeNext, Function.update_self, Pageref.head]
    split
    · rfl
    · rename_i hoff
      have hhead : (s.pagerefs k).head = some (PR_PAGEADDR (s.pagerefs k) + (s.pagerefs k).freelist_offset) := if_neg hoff
      cases l with
      | nil =>
        have := h.path
        rw [hhead] at this
        cases this
      | cons x l =>
        have hx := (follows_cons_iff.mp h.path).1
        rw [hhead] at hx
        obtain ⟨⟨-, hxlt⟩, -⟩ := h.block x List.mem_cons_self
        rw [← Option.some.inj hx] at hxlt
        simp only [PAGE_SIZE] at hxlt
        rw [u32, Nat.mod_eq_of_lt (by omega), if_neg (by omega)]

structure Pageref.Same (r r' : Pageref) : Prop where
  pab : r.pageaddr_and_blocktype = r'.pageaddr_and_blocktype
  offset : r.freelist_offset = r'.freelist_offset
  nfree : r.nfree = r'.nfree

theorem PageOk.of_same {mem : Nat → Nat} {P : Nat → Prop} {l : List Nat} (h : PageOk mem P r l) (hr : r'.Same r) :
    PageOk mem P r' l := by
  have hlike : r'.Like r := hr.pab
  have hhead : r'.head = r.head := by rw [Pageref.head, Pageref.head, hr.offset, hlike.pageaddr]
  exact ⟨by rw [hlike.blocktype]; exact h.type, by rw [hlike.pageaddr]; exact h.page_pos,
    by rw [hlike.pageaddr]; exact h.page_lt, by rw [hhead]; exact h.path, h.nodup, hr.nfree.trans h.nfree, fun a ha => hlike.block.mpr (h.block a ha), fun a ha => h.split a (hlike.block.mp ha)⟩

theorem HeapInv.putback (h : HeapInv (fun _ => False) s live) (hk : s.InUse k) (ha : (s.pagerefs k).Block a)
    (hlive : a ∈ addrs live) {mem' : Nat → Nat} {l : List Nat} {o : Nat}
    (hmem : ∀ x, x < a ∨ a + (s.pagerefs k).size ≤ x → mem' x = s.mem x)
    (hok : PageOk s.mem (· ∈ addrs live) (s.pagerefs k) l) (hnext : nodeNext mem' a = (s.pagerefs k).head)
    (ho : Pageref.head { s.pagerefs k with freelist_offset := o } = some a) :
    HeapInv (· = k) { s with
        mem := mem'
        pagerefs := Function.update s.pagerefs k
          { s.pagerefs k with freelist_offset := o, nfree := l.length + 1 } } (live.filter fun p => p.1 ≠ a) := by
  have hlike : Pageref.Like { s.pagerefs k with freelist_offset := o, nfree := l.length + 1 } (s.pagerefs k) := rfl
  have hend := ha.le_end hok.type
  have hout : ∀ x, ¬ (s.pagerefs k).InPage x → x < a ∨ a + (s.pagerefs k).size ≤ x := by
    intro x hx
    have := ha.1.1
    rw [Pageref.InPage] at hx
    omega
  refine ⟨?_, ?_, fun j hj => ?_⟩
  · refine h.lists.congr rfl rfl rfl (like_update hlike) fun j => ?_
    by_cases hj : j = k
    · subst hj
      simp
    · simp [Function.update_of_ne hj]
  · refine h.pages.update hk hlike (fun x hx => hmem x (hout x hx)) (fun x hx => ?_)
      ⟨a :: l, hok.push ha hlive (fun x _ => mem_addrs_filter) (fun x hx => hmem x ?_) hnext ho⟩ ?_ fun p hp => ?_
    · rw [mem_addrs_filter, and_iff_left]
      rintro rfl
      exact hx ha.1
    · -- a free block is not the one that comes back
      have hxa : x ≠ a := fun he => (hok.split a ha).mp (he ▸ hx) hlive
      rcases Nat.lt_or_gt_of_ne hxa with hlt | hgt
      · exact .inl hlt
      · exact .inr (ha.apart (hok.block x hx) hgt)
    · exact h.pages.nodup.sublist ((List.filter_sublist).map _)
    · exact .inl (List.mem_of_mem_filter hp)
  · by_cases hjk : j = k
    · exact .inl hjk
    · obtain ⟨p, hp, hbl⟩ := (h.busy j hj).resolve_left id
      refine .inr ⟨p, List.mem_filter.mpr ⟨hp, ?_⟩, (like_update hlike j).block.mpr hbl⟩
      rw [decide_eq_true_eq]
      rintro rfl
      exact hjk (h.pages.apart j k hj hk ((Pageref.inPage_iff.mp hbl.1).symm.trans (Pageref.inPage_iff.mp ha.1)))

/-! ## A page that goes -/

structure Unlinked (k : Nat) (s s' : Kheap) : Prop where
  mem : s'.mem = s.mem
  bits : s'.pagerefs_inuse = s.pagerefs_inuse
  kpages : s'.kpages = s.kpages
  same : ∀ j, (s'.pagerefs j).Same (s.pagerefs j)

theorem Pageref.Same.refl (r : Pageref) : r.Same r := ⟨rfl, rfl, rfl⟩

theorem same_update (h : r'.Same (s.pagerefs k)) (j : Nat) : (Function.update s.pagerefs k r' j).Same (s.pagerefs j) := by
  by_cases hj : j = k
  · subst hj; rwa [Function.update_self]
  · rw [Function.update_of_ne hj]; exact .refl _

theorem remove_samesize_run (h : Lists s) (hk : s.InUse k) (hb : PR_BLOCKTYPE (s.pagerefs k) = b) (hb8 : b < NSIZES) :
    ∃ s', remove_samesize k b s = .ok (.ok (), s') ∧ Unlinked k s s' ∧ s'.allbase = s.allbase ∧
      (∀ j, (s'.pagerefs j).next_all = (s.pagerefs j).next_all) ∧
      ∀ b' < NSIZES, Spans (fun j => (s'.pagerefs j).next_samesize) (s'.sizebases b')
        fun j => (s.InUse j ∧ PR_BLOCKTYPE (s.pagerefs j) = b') ∧ j ≠ k := by
  obtain ⟨c, hfind, hc, hspans⟩ := (h.same b hb8).unlink (n := NPAGEREFS + 1) ⟨hk, hb⟩ (fun j => Iff.rfl)
    fun l hn hl => (inUse_length hn fun j hj => (hl j hj).1).trans (Nat.le_succ _)
  refine ⟨s.writeSamesize b (s.pagerefs k).next_samesize c, ?_, ?_, ?_, ?_, fun b' hb' => ?_⟩
  · rw [remove_samesize, bind_ok (get_run s), hfind]
    rfl
  · cases c with
    | first => exact ⟨rfl, rfl, rfl, fun j => .refl _⟩
    | after i => exact ⟨rfl, rfl, rfl, same_update ⟨rfl, rfl, rfl⟩⟩
  · cases c <;> rfl
  · intro j
    cases c with
    | first => rfl
    | after i =>
      by_cases hj : j = i
      · subst hj
        simp [Kheap.writeSamesize, Kheap.setPageref]
      · simp [Kheap.writeSamesize, Kheap.setPageref, Function.update_of_ne hj]
  · by_cases hbb : b' = b
    · subst hbb
      cases c with
      | first =>
        simp only [Kheap.writeSamesize, Function.update_self]
        exact hspans
      | after i =>
        simp only [Kheap.writeSamesize, Kheap.setPageref]
        rw [field_update Pageref.next_samesize]
        exact hspans
    · have hmem : ∀ j, (s.InUse j ∧ PR_BLOCKTYPE (s.pagerefs j) = b') ∧ j ≠ k ↔
          s.InUse j ∧ PR_BLOCKTYPE (s.pagerefs j) = b' := by
        intro j
        refine and_iff_left_of_imp fun hj he => hbb ?_
        rw [← hj.2, he, hb]
      cases c with
      | first =>
        simp only [Kheap.writeSamesize, Function.update_of_ne hbb]
        exact (h.same b' hb').congr (fun _ _ => rfl) hmem
      | after i =>
        simp only [Kheap.writeSamesize, Kheap.setPageref]
        rw [field_update Pageref.next_samesize]
        refine (h.same b' hb').congr (fun j hj => Function.update_of_ne ?_ _ _) hmem
        rintro rfl
        exact hbb (hj.2.symm.trans (hc j rfl).2)

theorem remove_all_run (h : Spans (fun j => (s.pagerefs j).next_all) s.allbase s.InUse) (hk : s.InUse k) :
    ∃ s', remove_all k s = .ok (.ok (), s') ∧ Unlinked k s s' ∧ s'.sizebases = s.sizebases ∧
      (∀ j, (s'.pagerefs j).next_samesize = (s.pagerefs j).next_samesize) ∧
      Spans (fun j => (s'.pagerefs j).next_all) s'.allbase fun j => s.InUse j ∧ j ≠ k := by
  obtain ⟨c, hfind, -, hspans⟩ := h.unlink (n := NPAGEREFS + 1) hk (fun j => Iff.rfl)
    fun l hn hl => (inUse_length hn hl).trans (Nat.le_succ _)
  refine ⟨s.writeAll (s.pagerefs k).next_all c, ?_, ?_, ?_, fun j => ?_, ?_⟩
  · rw [remove_all, bind_ok (get_run s), hfind]
    rfl
  · cases c with
    | first => exact ⟨rfl, rfl, rfl, fun j => .refl _⟩
    | after i => exact ⟨rfl, rfl, rfl, same_update ⟨rfl, rfl, rfl⟩⟩
  · cases c <;> rfl
  · cases c with
    | first => rfl
    | after i =>
      by_cases hj : j = i
      · subst hj
        simp [Kheap.writeAll, Kheap.setPageref]
      · simp [Kheap.writeAll, Kheap.setPageref, Function.update_of_ne hj]
  · cases c with
    | first => exact hspans
    | after i =>
      simp only [Kheap.writeAll, Kheap.setPageref]
      rw [field_update Pageref.next_all]
      exact hspans

instance (r : Pageref) (a : Nat) : Decidable (r.InPage a) := inferInstanceAs (Decidable (_ ∧ _))

instance (r : Pageref) (a : Nat) : Decidable (r.Block a) := inferInstanceAs (Decidable (_ ∧ _))

def Pageref.liveBlocks (r : Pageref) (live : List (Nat × Nat)) : List Nat := (addrs live).filter fun a => r.Block a

theorem Pages.count (h : Pages s live) (hk : s.InUse k) :
    ((s.pagerefs k).liveBlocks live).length + (s.pagerefs k).nfree = PAGE_SIZE / (s.pagerefs k).size := by
  obtain ⟨l, hl⟩ := h.page k hk
  refine hl.count (h.nodup.filter _) fun x => ?_
  rw [Pageref.liveBlocks, List.mem_filter, decide_eq_true_eq, and_comm]

theorem Pages.nfree_le (h : Pages s live) (hk : s.InUse k) :
    (s.pagerefs k).nfree ≤ PAGE_SIZE / sizeAt (PR_BLOCKTYPE (s.pagerefs k)) := by
  have := h.count hk
  rw [Pageref.size] at this
  omega

theorem Pages.busy_iff (h : Pages s live) (hk : s.InUse k) :
    (s.pagerefs k).nfree ≠ PAGE_SIZE / sizeAt (PR_BLOCKTYPE (s.pagerefs k)) ↔
      ∃ p ∈ live, (s.pagerefs k).Block p.1 := by
  have hcount := h.count hk
  rw [Pageref.size] at hcount
  have hlen : (s.pagerefs k).nfree ≠ PAGE_SIZE / sizeAt (PR_BLOCKTYPE (s.pagerefs k)) ↔
      0 < ((s.pagerefs k).liveBlocks live).length := by omega
  rw [hlen, List.length_pos_iff_exists_mem]
  simp only [Pageref.liveBlocks, List.mem_filter, decide_eq_true_eq, mem_addrs]
  constructor
  · rintro ⟨_, ⟨p, hp, rfl⟩, hb⟩
    exact ⟨p, hp, hb⟩
  · rintro ⟨p, hp, hb⟩
    exact ⟨p.1, ⟨p, hp, rfl⟩, hb⟩

theorem HeapInv.remove (h : HeapInv (· = k) s live) (hk : s.InUse k) (hdead : ∀ p ∈ live, ¬ (s.pagerefs k).Block p.1)
    (huse : ∀ j, s'.InUse j ↔ s.InUse j ∧ j ≠ k) (hrefs : ∀ j, (s'.pagerefs j).Same (s.pagerefs j)) (hmem : s'.mem = s.mem)
    (hkpages : s'.kpages = s.kpages.erase (PR_PAGEADDR (s.pagerefs k))) (hlists : Lists s') :
    HeapInv (fun _ => False) s' live := by
  have hlike : ∀ j, (s'.pagerefs j).Like (s.pagerefs j) := fun j => (hrefs j).pab
  refine ⟨hlists, ⟨fun j hj => ?_, fun i j hi hj he => ?_, fun j hj => ?_, h.pages.nodup, fun p hp => ?_⟩, fun j hj => ?_⟩
  · obtain ⟨l, hl⟩ := h.pages.page j ((huse j).mp hj).1
    rw [hmem]
    exact ⟨l, hl.of_same (hrefs j)⟩
  · rw [(hlike i).pageaddr, (hlike j).pageaddr] at he
    exact h.pages.apart i j ((huse i).mp hi).1 ((huse j).mp hj).1 he
  · obtain ⟨hj, hjk⟩ := (huse j).mp hj
    rw [(hlike j).pageaddr, hkpages]
    exact (List.mem_erase_of_ne fun he => hjk (h.pages.apart j k hj hk he)).mpr (h.pages.owned j hj)
  · obtain ⟨j, hj, hb, hsz⟩ := h.pages.live p hp
    refine ⟨j, (huse j).mpr ⟨hj, ?_⟩, (hlike j).block.mpr hb, (hlike j).size ▸ hsz⟩
    rintro rfl
    exact hdead p hp hb
  · obtain ⟨hj, hjk⟩ := (huse j).mp hj
    obtain ⟨p, hp, hb⟩ := (h.busy j hj).resolve_left hjk
    exact .inr ⟨p, hp, (hlike j).block.mpr hb⟩

theorem release_spec (h : HeapInv (· = k) s live) (hk : s.InUse k) :
    ∃ s', release k s = .ok (.ok (), s') ∧ HeapInv (fun _ => False) s' live := by
  obtain ⟨l, hl⟩ := h.pages.page k hk
  rw [release, bind_ok (get_run s), bind_ok (ensure_run s _ _ (h.pages.nfree_le hk))]
  split
  · rename_i hfull
    obtain ⟨s₁, hrun₁, hun₁, hall₁, hnext₁, hsame₁⟩ := remove_samesize_run h.lists hk rfl hl.type
    have huse₁ : ∀ j, s₁.InUse j ↔ s.InUse j := fun j => by rw [Kheap.InUse, Kheap.InUse, hun₁.bits]
    have hspans : Spans (fun j => (s₁.pagerefs j).next_all) s₁.allbase s₁.InUse :=
      hall₁ ▸ h.lists.all.congr (fun j _ => hnext₁ j) huse₁
    obtain ⟨s₂, hrun₂, hun₂, hbases₂, hnext₂, hall₂⟩ := remove_all_run hspans ((huse₁ k).mpr hk)
    set s₃ : Kheap := { s₂ with kpages := s₂.kpages.erase (PR_PAGEADDR (s.pagerefs k)) } with hs₃
    have huse₃ : ∀ j, s₃.InUse j ↔ s.InUse j := fun j => by
      rw [← huse₁, Kheap.InUse, Kheap.InUse, hs₃, hun₂.bits]
    obtain ⟨i, w, hrun₄, huse₄⟩ := freepageref_run ((huse₃ k).mpr hk)
    have huse : ∀ j, (s₃.setInuse i w).InUse j ↔ s.InUse j ∧ j ≠ k := fun j => by rw [huse₄, huse₃]
    have hrefs : ∀ j, (s₂.pagerefs j).Same (s.pagerefs j) := fun j =>
      ⟨(hun₂.same j).pab.trans (hun₁.same j).pab, (hun₂.same j).offset.trans (hun₁.same j).offset,
        (hun₂.same j).nfree.trans (hun₁.same j).nfree⟩
    refine ⟨s₃.setInuse i w, ?_, h.remove hk (fun p hp hb => ?_) huse hrefs (hun₂.mem.trans hun₁.mem) ?_ ?_⟩
    · rw [remove_lists, bind_ok ((bind_ok (ensure_run s _ _ hl.type)).trans ((bind_ok hrun₁).trans hrun₂))]
      exact (bind_ok (modify_run _ _)).trans hrun₄
    · exact (h.pages.busy_iff hk).mpr ⟨p, hp, hb⟩ hfull
    · change s₂.kpages.erase _ = _
      rw [hun₂.kpages, hun₁.kpages]
    · refine ⟨hall₂.congr (fun _ _ => rfl) fun j => ?_, fun b hb => ?_⟩
      · rw [huse, huse₁]
      · have hsame₂ : Spans (fun j => (s₁.pagerefs j).next_samesize) ((s₃.setInuse i w).sizebases b)
            fun j => (s.InUse j ∧ PR_BLOCKTYPE (s.pagerefs j) = b) ∧ j ≠ k := hbases₂ ▸ hsame₁ b hb
        refine hsame₂.congr (fun j _ => hnext₂ j) fun j => ?_
        have hlike : (s₂.pagerefs j).Like (s.pagerefs j) := (hrefs j).pab
        rw [huse, and_right_comm, show PR_BLOCKTYPE ((s₃.setInuse i w).pagerefs j) = _ from hlike.blocktype]
  · rename_i hfull
    refine ⟨s, rfl, h.lists, h.pages, fun j hj => .inr ?_⟩
    by_cases hjk : j = k
    · subst hjk
      exact (h.pages.busy_iff hj).mp hfull
    · exact (h.busy j hj).resolve_left hjk

theorem find_page {l : List Nat} (h : Pages s live) (hk : s.InUse k) (ha : (s.pagerefs k).Block a)
    (hl : ∀ j, j ∈ l ↔ s.InUse j) : (l.find? fun j => (s.pagerefs j).has a) = some k := by
  have hhas : ∀ j ∈ l, ((s.pagerefs j).has a = true ↔ (s.pagerefs j).InPage a) := fun j hj => by
    obtain ⟨_, hok⟩ := h.page j ((hl j).mp hj)
    exact Pageref.has_iff hok.page_lt
  have hkl : k ∈ l := (hl k).mpr hk
  cases hf : l.find? fun j => (s.pagerefs j).has a with
  | none => exact absurd ((hhas k hkl).mpr ha.1) (by simpa using List.find?_eq_none.mp hf k hkl)
  | some j =>
    have hj := List.mem_of_find?_eq_some hf
    have hin : (s.pagerefs j).InPage a := (hhas j hj).mp (by simpa using List.find?_some hf)
    exact congrArg some (h.apart j k ((hl j).mp hj) hk ((Pageref.inPage_iff.mp hin).symm.trans (Pageref.inPage_iff.mp ha.1)))

theorem subpage_kfree_spec (h : HeapInv (fun _ => False) s live) (ha : a ∈ addrs live) :
    ∃ s', subpage_kfree a s = .ok (.ok true, s') ∧ HeapInv (fun _ => False) s' (live.filter fun p => p.1 ≠ a) := by
  obtain ⟨p, hp, rfl⟩ := mem_addrs.mp ha
  obtain ⟨k, hk, hblock, -⟩ := h.pages.live p hp
  obtain ⟨l, hl⟩ := h.pages.page k hk
  obtain ⟨ls, hpath, hn, hls⟩ := h.lists.all
  have hscan : scan (·.next_all) (PR_BLOCKTYPE · < NSIZES) .kfree_blocktype (Pageref.has p.1) NPAGEREFS s.allbase s =
      .ok (.ok (some k), s) := by
    rw [← find_page h.pages hk hblock hls]
    refine scan_run hpath (fun j hj => ?_) (inUse_length hn fun j hj => (hls j).mp hj)
    obtain ⟨_, hok⟩ := h.pages.page j ((hls j).mp hj)
    exact hok.type
  have hend := hblock.le_end hl.type
  have hlt := hl.page_lt
  obtain ⟨⟨hle, hin⟩, hmod⟩ := hblock
  simp only [PAGE_SIZE] at hend hlt hin
  have hoff : u32 (p.1 + 2 ^ 32 - PR_PAGEADDR (s.pagerefs k)) = p.1 - PR_PAGEADDR (s.pagerefs k) := by
    rw [u32]; omega
  have hcheck : ¬ (p.1 - PR_PAGEADDR (s.pagerefs k) ≥ PAGE_SIZE ∨
      (p.1 - PR_PAGEADDR (s.pagerefs k)) % sizeAt (PR_BLOCKTYPE (s.pagerefs k)) ≠ 0) := by
    rintro (hge | hne)
    · simp only [PAGE_SIZE] at hge
      omega
    · exact hne hmod
  set s₁ : Kheap := { s with mem := fill_deadbeef p.1 (sizeAt (PR_BLOCKTYPE (s.pagerefs k))) s.mem } with hs₁
  have hfill : ∀ x, x < p.1 ∨ p.1 + (s.pagerefs k).size ≤ x → s₁.mem x = s.mem x := fun x hx =>
    fill_deadbeef_of_out (show p.1 + (s.pagerefs k).size ≤ _ by omega) hx
  have hblock : (s.pagerefs k).Block p.1 := ⟨⟨hle, by simp only [PAGE_SIZE]; omega⟩, hmod⟩
  have hok₁ : PageOk s₁.mem (· ∈ addrs live) (s₁.pagerefs k) l := by
    refine hl.congr (fun x hx => hfill x ?_) fun _ _ => Iff.rfl
    have hxp : x ≠ p.1 := fun he => (hl.split p.1 hblock).mp (he ▸ hx) ha
    rcases Nat.lt_or_gt_of_ne hxp with hlt | hgt
    · exact .inl hlt
    · exact .inr (hblock.apart (hl.block x hx) hgt)
  obtain ⟨next, hput, hnext⟩ := putback_run hok₁ hblock
  have hhead : Pageref.head { s.pagerefs k with freelist_offset := p.1 - PR_PAGEADDR (s.pagerefs k) } = some p.1 := by
    have hne : p.1 - PR_PAGEADDR (s.pagerefs k) ≠ INVALID_OFFSET := by simp only [INVALID_OFFSET]; omega
    rw [Pageref.head, if_neg hne]
    exact congrArg some (Nat.add_sub_cancel' hle)
  have hinv := h.putback hk hblock ha (fun x hx => (Function.update_of_ne (by
    have := hl.size_pos.1
    omega) _ _).trans (hfill x hx)) hl (hnext s₁.mem) hhead
  obtain ⟨s', hrel, hinv'⟩ := release_spec hinv hk
  refine ⟨s', ?_, hinv'⟩
  rw [subpage_kfree, bind_ok (get_run s), bind_ok hscan]
  dsimp only
  rw [bind_ok (get_run s), hoff, bind_ok (ensure_run s _ _ hcheck), bind_ok (set_run _ _), bind_ok hput]
  exact bind_ok hrel

theorem kfree_spec (h : HeapInv (fun _ => False) s live) (ha : a ∈ addrs live) :
    ∃ s', kfree a s = .ok (.ok (), s') ∧ HeapInv (fun _ => False) s' (live.filter fun p => p.1 ≠ a) := by
  obtain ⟨s', hrun, hinv⟩ := subpage_kfree_spec h ha
  refine ⟨s', ?_, hinv⟩
  have ha0 : a ≠ 0 := by
    rintro rfl
    obtain ⟨p, hp, hp0⟩ := mem_addrs.mp ha
    obtain ⟨k, hk, hblock, -⟩ := h.pages.live p hp
    obtain ⟨l, hl⟩ := h.pages.page k hk
    have := hl.page_pos
    have := hblock.1.1
    omega
  rw [kfree, if_neg ha0, bind_ok hrun]
  rfl

theorem store_spec {addr word : Nat} (h : HeapInv (fun _ => False) s live)
    (hlegal : (∃ p ∈ live, p.1 ≤ addr ∧ addr < p.1 + p.2) ∨
      ∀ k < NPAGEREFS, s.InUse k → ¬ (s.pagerefs k).InPage addr) : HeapInv (fun _ => False) (s.store addr word) live := by
  refine ⟨⟨h.lists.all, h.lists.same⟩, ⟨fun k hk => ?_, h.pages.apart, h.pages.owned, h.pages.nodup, h.pages.live⟩, h.busy⟩
  obtain ⟨l, hl⟩ := h.pages.page k hk
  refine ⟨l, hl.congr (fun a ha => Function.update_of_ne ?_ _ _) fun _ _ => Iff.rfl⟩
  rintro rfl
  have hblock := hl.block a ha
  rcases hlegal with ⟨p, hp, hle, hlt⟩ | hout
  · obtain ⟨j, hj, hpb, hsz⟩ := h.pages.live p hp
    obtain ⟨_, hlj⟩ := h.pages.page j hj
    have hpend := hpb.le_end hlj.type
    have hin : (s.pagerefs j).InPage a := ⟨hpb.1.1.trans hle, by omega⟩
    obtain rfl := h.pages.apart j k hj hk ((Pageref.inPage_iff.mp hin).symm.trans (Pageref.inPage_iff.mp hblock.1))
    have hap := hpb.eq_of_mem hblock hle (by omega)
    exact (hl.split a hblock).mp ha (mem_addrs.mpr ⟨p, hp, hap.symm⟩)
  · exact hout k hk.lt hk hblock.1

end Heap

/-! ## Runs -/

theorem init_heapInv {w : KheapRun} (h : kheap.init w) : HeapInv (fun _ => False) w.heap w.live := by
  obtain ⟨hlive, hbits, hbases, hall⟩ := h
  have huse : ∀ k, ¬ w.heap.InUse k := fun k hk => by
    have := hk.2
    rw [hbits] at this
    simp at this
  refine ⟨⟨?_, fun b _ => ?_⟩, ⟨fun k hk => absurd hk (huse k), fun k _ hk => absurd hk (huse k),
    fun k hk => absurd hk (huse k), ?_, fun p hp => ?_⟩, fun k hk => absurd hk (huse k)⟩
  · rw [hall]
    exact ⟨[], .nil, List.nodup_nil, fun k => iff_of_false (by simp) (huse k)⟩
  · rw [hbases]
    exact ⟨[], .nil, List.nodup_nil, fun k => iff_of_false (by simp) fun hk => huse k hk.1⟩
  · rw [hlive]
    exact List.nodup_nil
  · rw [hlive] at hp
    cases hp

def KheapOp.Ok (w : KheapRun) (op : KheapOp) : Prop := op.Legal w ∧ op.Below

theorem step_heapInv {w : KheapRun} {op : KheapOp} (h : HeapInv (fun _ => False) w.heap w.live) (hop : op.Ok w) :
    ∃ w', kheap.step w op = .ok (w', []) ∧ HeapInv (fun _ => False) w'.heap w'.live := by
  obtain ⟨hlegal, hbelow⟩ := hop
  cases op with
  | kmalloc sz page =>
    obtain ⟨hsz, hpage⟩ := hlegal
    have hfresh : FreshPage w.heap page := hpage.imp_right fun hp => ⟨hp.1, hbelow, hp.2.2⟩
    obtain ⟨ptr, s, hrun, hinv⟩ := subpage_kmalloc_spec h hsz hfresh
    exact ⟨⟨s, if ptr = 0 then w.live else (ptr, sz) :: w.live⟩, by simp only [kheap, KheapOp.exec, hrun], hinv⟩
  | kfree ptr =>
    obtain ⟨s, hrun, hinv⟩ := kfree_spec h (mem_addrs.mpr hlegal)
    exact ⟨⟨s, w.live.filter fun p => p.1 ≠ ptr⟩, by simp only [kheap, KheapOp.exec, hrun], hinv⟩
  | store addr word => exact ⟨_, rfl, store_spec h hlegal.2.2⟩

theorem reach_heapInv {w : KheapRun} {tr : List Empty} (h : Machine.Reach kheap (fun w op => op.Ok w) w tr) :
    HeapInv (fun _ => False) w.heap w.live := by
  refine h.invariant (I := fun w _ => HeapInv (fun _ => False) w.heap w.live) (fun w hw => init_heapInv hw) ?_
  intro w t op tr es _ hw hok hs
  obtain ⟨w', hstep, hinv⟩ := step_heapInv hw hok
  rw [hstep] at hs
  obtain ⟨rfl, -⟩ := Prod.mk.inj (Except.ok.inj hs)
  exact hinv

/-! ## What the callers see -/

def Kheap.PageOf (s : Kheap) (k a : Nat) : Prop := s.InUse k ∧ (s.pagerefs k).InPage a

def Kheap.bytes (s : Kheap) (k a : Nat) : Set Nat := Set.Ico a (a + (s.pagerefs k).size)

def Kheap.FreeList (s : Kheap) (k : Nat) (l : List Nat) : Prop := Follows (nodeNext s.mem) (s.pagerefs k).head l

/-- The blocks are where they should be and do not overlap, and the tables agree with them. -/
structure KheapRun.Sound (w : KheapRun) : Prop where
  placed : ∀ p ∈ w.live, ∃ k, w.heap.PageOf k p.1
  block : ∀ p ∈ w.live, ∀ k, w.heap.PageOf k p.1 →
    p.1 % (w.heap.pagerefs k).size = 0 ∧ p.2 ≤ (w.heap.pagerefs k).size ∧
      w.heap.bytes k p.1 ⊆ Set.Ico (PR_PAGEADDR (w.heap.pagerefs k)) (PR_PAGEADDR (w.heap.pagerefs k) + PAGE_SIZE)
  live_apart : ∀ p ∈ w.live, ∀ q ∈ w.live, p ≠ q → ∀ k j, w.heap.PageOf k p.1 → w.heap.PageOf j q.1 →
    Disjoint (w.heap.bytes k p.1) (w.heap.bytes j q.1)
  free_apart : ∀ p ∈ w.live, ∀ k, w.heap.PageOf k p.1 → ∀ j, w.heap.InUse j → ∀ l, w.heap.FreeList j l → ∀ a ∈ l,
    Disjoint (w.heap.bytes k p.1) (w.heap.bytes j a)
  count : ∀ k, w.heap.InUse k → ∃ l, w.heap.FreeList k l ∧ (w.heap.pagerefs k).nfree = l.length ∧
    (w.live.filter fun p => (w.heap.pagerefs k).InPage p.1).length + l.length = PAGE_SIZE / (w.heap.pagerefs k).size
  all : Spans (fun k => (w.heap.pagerefs k).next_all) w.heap.allbase w.heap.InUse
  same : ∀ b < NSIZES, Spans (fun k => (w.heap.pagerefs k).next_samesize) (w.heap.sizebases b)
    fun k => w.heap.InUse k ∧ PR_BLOCKTYPE (w.heap.pagerefs k) = b
  busy : ∀ k, w.heap.InUse k → (w.heap.pagerefs k).nfree < PAGE_SIZE / (w.heap.pagerefs k).size

section Sound

variable {s : Kheap} {live : List (Nat × Nat)} {k j a b : Nat}

theorem Pages.block_of (h : Pages s live) {p : Nat × Nat} (hp : p ∈ live) (hk : s.PageOf k p.1) :
    (s.pagerefs k).Block p.1 ∧ p.2 ≤ (s.pagerefs k).size := by
  obtain ⟨j, hj, hb, hsz⟩ := h.live p hp
  obtain rfl := h.apart j k hj hk.1 ((Pageref.inPage_iff.mp hb.1).symm.trans (Pageref.inPage_iff.mp hk.2))
  exact ⟨hb, hsz⟩

theorem Pages.disjoint (h : Pages s live) (hk : s.InUse k) (hj : s.InUse j) (ha : (s.pagerefs k).Block a)
    (hb : (s.pagerefs j).Block b) (hab : a ≠ b) : Disjoint (s.bytes k a) (s.bytes j b) := by
  obtain ⟨_, hlk⟩ := h.page k hk
  obtain ⟨_, hlj⟩ := h.page j hj
  have haend := ha.le_end hlk.type
  have hbend := hb.le_end hlj.type
  rw [Set.disjoint_left]
  rintro x ⟨hax, hxa⟩ ⟨hbx, hxb⟩
  have hink : (s.pagerefs k).InPage x := ⟨ha.1.1.trans hax, by omega⟩
  have hinj : (s.pagerefs j).InPage x := ⟨hb.1.1.trans hbx, by omega⟩
  obtain rfl := h.apart k j hk hj ((Pageref.inPage_iff.mp hink).symm.trans (Pageref.inPage_iff.mp hinj))
  rcases Nat.lt_or_gt_of_ne hab with hlt | hgt
  · have := ha.apart hb hlt
    omega
  · have := hb.apart ha hgt
    omega

theorem HeapInv.sound {w : KheapRun} (h : HeapInv (fun _ => False) w.heap w.live) : w.Sound := by
  have hP := h.pages
  refine ⟨fun p hp => ?_, fun p hp k hk => ?_, fun p hp q hq hpq k j hk hj => ?_, fun p hp k hk j hj l hl a ha => ?_,
    fun k hk => ?_, h.lists.all, h.lists.same, fun k hk => ?_⟩
  · obtain ⟨k, hk, hb, -⟩ := hP.live p hp
    exact ⟨k, hk, hb.1⟩
  · obtain ⟨hb, hsz⟩ := hP.block_of hp hk
    obtain ⟨_, hl⟩ := hP.page k hk.1
    exact ⟨hb.mod hl.type, hsz, Set.Ico_subset_Ico hb.1.1 (hb.le_end hl.type)⟩
  · refine hP.disjoint hk.1 hj.1 (hP.block_of hp hk).1 (hP.block_of hq hj).1 fun he => hpq ?_
    exact List.inj_on_of_nodup_map hP.nodup hp hq he
  · obtain ⟨l', hok⟩ := hP.page j hj
    obtain rfl := hok.path.unique hl
    have hblock := hok.block a ha
    refine hP.disjoint hk.1 hj (hP.block_of hp hk).1 hblock ?_
    rintro rfl
    exact (hok.split _ hblock).mp ha (mem_addrs.mpr ⟨p, hp, rfl⟩)
  · obtain ⟨l, hok⟩ := hP.page k hk
    refine ⟨l, hok.path, hok.nfree, ?_⟩
    have hcount := hP.count hk
    rw [hok.nfree, Pageref.liveBlocks, addrs, List.filter_map, List.length_map] at hcount
    rw [← hcount]
    congr 2
    refine List.filter_congr fun p hp => ?_
    simp only [Function.comp_apply, decide_eq_decide]
    exact ⟨fun hin => (hP.block_of hp ⟨hk, hin⟩).1, fun hb => hb.1⟩
  · have hne := (hP.busy_iff hk).mpr ((h.busy k hk).resolve_left id)
    exact lt_of_le_of_ne (hP.nfree_le hk) hne

end Sound

/-- The blocks do not overlap, the tables agree with them, and no assertion fails, if `alloc_kpages` never returns the
last page of the address space. -/
theorem subpage_sound {w : KheapRun} {tr : List Empty} (h : Machine.Reach kheap (fun w op => op.Ok w) w tr) :
    w.Sound ∧ ∀ op : KheapOp, op.Ok w → ∃ w', kheap.step w op = .ok (w', []) := by
  have hinv := reach_heapInv h
  refine ⟨hinv.sound, fun op hop => ?_⟩
  obtain ⟨w', hstep, -⟩ := step_heapInv hinv hop
  exact ⟨w', hstep⟩

/-! ## Runs that can be evaluated -/

instance (s : Kheap) (k : Nat) : Decidable (s.InUse k) := inferInstanceAs (Decidable (_ ∧ _))

instance (w : KheapRun) (op : KheapOp) : Decidable (op.Legal w) := by
  cases op <;> unfold KheapOp.Legal <;> infer_instance

instance (op : KheapOp) : Decidable op.Below := by
  cases op <;> unfold KheapOp.Below <;> infer_instance

instance (w : KheapRun) (op : KheapOp) : Decidable (op.Ok w) := inferInstanceAs (Decidable (_ ∧ _))

def emptyHeap : KheapRun := ⟨⟨fun _ => 0, fun _ => ⟨none, none, 0, 0, 0⟩, fun _ => 0#32, fun _ => none, none, []⟩, []⟩

theorem emptyHeap_init : kheap.init emptyHeap := ⟨rfl, fun _ => rfl, fun _ => rfl, rfl⟩

theorem subpage_sound_three_blocks :
    ∃ w tr, Machine.Reach kheap (fun w op => op.Ok w) w tr ∧
      w.live = [(0x80002c00, 1000), (0x80001fd0, 5), (0x80001ff0, 10)] ∧ w.Sound := by
  obtain ⟨w, tr, hr, hc⟩ := Machine.exists_runOk (fun w op => KheapOp.Ok w op)
    [.kmalloc 10 0x80001000, .kmalloc 16 0, .store 0x80001ff0 7, .kmalloc 5 0, .kfree 0x80001fe0,
      .kmalloc 1000 0x80002000]
    (fun x => decide (x.1.live = [(0x80002c00, 1000), (0x80001fd0, 5), (0x80001ff0, 10)])) emptyHeap_init
    (by decide +kernel)
  exact ⟨w, tr, hr, of_decide_eq_true hc, (subpage_sound hr).1⟩

/-- With the last page of the address space, `kfree` does not find the page of a live block and its
assertion fails. -/
theorem last_page_not_found :
    ∃ w tr, Machine.Reach kheap (fun w op => op.Legal w) w tr ∧ (KheapOp.kfree 0xfffffff0).Legal w ∧
      kheap.step w (.kfree 0xfffffff0) = .error .kfree_align := by
  obtain ⟨w, tr, hr, hc⟩ := Machine.exists_runOk (fun w op => KheapOp.Legal w op) [.kmalloc 16 0xfffff000]
    (fun x => decide ((KheapOp.kfree 0xfffffff0).Legal x.1) &&
      match kheap.step x.1 (.kfree 0xfffffff0) with
      | .error p => decide (p = .kfree_align)
      | .ok _ => false) emptyHeap_init (by decide +kernel)
  obtain ⟨hlegal, hs⟩ := Bool.and_eq_true_iff.mp hc
  refine ⟨w, tr, hr, of_decide_eq_true hlegal, ?_⟩
  split at hs
  · rename_i hstep
    exact hstep.trans (by rw [of_decide_eq_true hs])
  · cases hs

end Os161
