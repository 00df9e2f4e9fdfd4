import Mathlib.Data.List.Perm.Lattice
import Mathlib.Data.List.Perm.Subperm
import Os161.Kern.Kheap

/-! # The blocks that `kmalloc` hands out -/

namespace Os161

open Prog Links

/-! ## Blocks of a page -/

section Blocks

variable {r r' : Pageref} {a b : Nat}

theorem sizeAt_spec : ∀ b < NSIZES, 16 ≤ sizeAt b ∧ sizeAt b ≤ 2048 ∧ sizeAt b ∣ PAGE_SIZE ∧ PAGE_SIZE / sizeAt b ≤ 256 := by
  decide

def Pageref.size (r : Pageref) : Nat := sizeAt (PR_BLOCKTYPE r)

def Pageref.Block (r : Pageref) (a : Nat) : Prop := r.InPage a ∧ (a - PR_PAGEADDR r) % r.size = 0

theorem pageaddr_mod (r : Pageref) : PR_PAGEADDR r % PAGE_SIZE = 0 := Nat.mul_mod_left _ _

theorem Pageref.inPage_iff : r.InPage a ↔ pageFrame a = PR_PAGEADDR r := by
  have := pageaddr_mod r
  simp only [InPage, pageFrame, PAGE_SIZE] at this ⊢
  omega

theorem aligned_gap {x y n : Nat} (hx : x % n = 0) (hy : y % n = 0) (h : x < y) : x + n ≤ y := by
  have hd : n ∣ y - x := Nat.dvd_sub (Nat.dvd_of_mod_eq_zero hy) (Nat.dvd_of_mod_eq_zero hx)
  have := Nat.le_of_dvd (by omega) hd
  omega

namespace Pageref.Block

theorem le_end (h : r.Block a) (ht : PR_BLOCKTYPE r < NSIZES) : a + r.size ≤ PR_PAGEADDR r + PAGE_SIZE := by
  obtain ⟨⟨hle, hlt⟩, hmod⟩ := h
  have := aligned_gap hmod (Nat.mod_eq_zero_of_dvd (sizeAt_spec _ ht).2.2.1) (show a - PR_PAGEADDR r < PAGE_SIZE by omega)
  omega

theorem apart (ha : r.Block a) (hb : r.Block b) (h : a < b) : a + r.size ≤ b := by
  have := aligned_gap ha.2 hb.2 (show a - PR_PAGEADDR r < b - PR_PAGEADDR r by have := ha.1.1; omega)
  have := ha.1.1
  omega

theorem eq_of_mem (ha : r.Block a) (hb : r.Block b) (hle : a ≤ b) (hlt : b < a + r.size) : b = a := by
  rcases Nat.lt_or_eq_of_le hle with h | h
  · have := ha.apart hb h
    omega
  · exact h.symm

theorem mod (h : r.Block a) (ht : PR_BLOCKTYPE r < NSIZES) : a % r.size = 0 := by
  have hdvd : r.size ∣ PR_PAGEADDR r :=
    (sizeAt_spec _ ht).2.2.1.trans (Nat.dvd_of_mod_eq_zero (pageaddr_mod r))
  have hsum : a = PR_PAGEADDR r + (a - PR_PAGEADDR r) := by have := h.1.1; omega
  rw [hsum]
  exact Nat.mod_eq_zero_of_dvd (Nat.dvd_add hdvd (Nat.dvd_of_mod_eq_zero h.2))

end Pageref.Block

def down (page sz n : Nat) : List Nat := ((List.range n).map fun i => page + i * sz).reverse

theorem down_succ (page sz n : Nat) : down page sz (n + 1) = (page + n * sz) :: down page sz n := by
  simp [down, List.range_succ]

theorem mem_down {page sz n : Nat} : a ∈ down page sz n ↔ ∃ i < n, page + i * sz = a := by
  simp [down]

theorem length_down (page sz n : Nat) : (down page sz n).length = n := by simp [down]

theorem nodup_down {page sz : Nat} (hsz : 0 < sz) (n : Nat) : (down page sz n).Nodup := by
  rw [down, List.nodup_reverse]
  refine List.Nodup.map (fun i j hij => ?_) List.nodup_range
  exact Nat.eq_of_mul_eq_mul_right hsz (Nat.add_left_cancel hij)

def Pageref.blocks (r : Pageref) : List Nat := down (PR_PAGEADDR r) r.size (PAGE_SIZE / r.size)

theorem Pageref.mem_blocks (ht : PR_BLOCKTYPE r < NSIZES) : a ∈ r.blocks ↔ r.Block a := by
  obtain ⟨hpos, -, hdvd, -⟩ := sizeAt_spec _ ht
  have hpos : 0 < r.size := by change 0 < sizeAt _; omega
  have hpage : PAGE_SIZE / r.size * r.size = PAGE_SIZE := Nat.div_mul_cancel hdvd
  rw [blocks, mem_down]
  constructor
  · rintro ⟨i, hi, rfl⟩
    have := Nat.mul_lt_mul_of_pos_right hi hpos
    refine ⟨⟨by omega, by omega⟩, ?_⟩
    rw [Nat.add_sub_cancel_left, Nat.mul_mod_left]
  · rintro ⟨⟨hle, hlt⟩, hmod⟩
    refine ⟨(a - PR_PAGEADDR r) / r.size, ?_, ?_⟩
    · rw [Nat.div_lt_iff_lt_mul hpos, hpage]
      omega
    · rw [Nat.div_mul_cancel (Nat.dvd_of_mod_eq_zero hmod)]
      omega

theorem Pageref.length_blocks (r : Pageref) : r.blocks.length = PAGE_SIZE / r.size := length_down _ _ _

theorem Pageref.nodup_blocks (ht : PR_BLOCKTYPE r < NSIZES) : r.blocks.Nodup := by
  refine nodup_down ?_ _
  have := (sizeAt_spec _ ht).1
  change 0 < sizeAt _
  omega

end Blocks

/-! ## One page -/

def nodeNext (mem : Nat → Nat) (a : Nat) : Option Nat := if mem a = 0 then none else some (mem a)

def Pageref.head (r : Pageref) : Option Nat :=
  if r.freelist_offset = INVALID_OFFSET then none else some (PR_PAGEADDR r + r.freelist_offset)

structure PageOk (mem : Nat → Nat) (live : Nat → Prop) (r : Pageref) (l : List Nat) : Prop where
  type : PR_BLOCKTYPE r < NSIZES
  page_pos : 0 < PR_PAGEADDR r
  page_lt : PR_PAGEADDR r + PAGE_SIZE < 2 ^ 32
  path : Follows (nodeNext mem) r.head l
  nodup : l.Nodup
  nfree : r.nfree = l.length
  block : ∀ a ∈ l, r.Block a
  split : ∀ a, r.Block a → (a ∈ l ↔ ¬ live a)

section Page

variable {mem mem' : Nat → Nat} {live live' : Nat → Prop} {r : Pageref} {l : List Nat} {a : Nat}

theorem PageOk.size_pos (h : PageOk mem live r l) : 16 ≤ r.size ∧ r.size ≤ 2048 := by
  have := sizeAt_spec _ h.type
  exact ⟨this.1, this.2.1⟩

theorem PageOk.length_le (h : PageOk mem live r l) : l.length ≤ PAGE_SIZE / r.size := by
  rw [← r.length_blocks]
  exact (List.subperm_of_subset h.nodup fun a ha => (Pageref.mem_blocks h.type).mpr (h.block a ha)).length_le

theorem PageOk.length_le_256 (h : PageOk mem live r l) : l.length ≤ 256 :=
  h.length_le.trans (sizeAt_spec _ h.type).2.2.2

theorem PageOk.congr (h : PageOk mem live r l) (hmem : ∀ a ∈ l, mem' a = mem a)
    (hlive : ∀ a, r.Block a → (live' a ↔ live a)) : PageOk mem' live' r l := by
  refine ⟨h.type, h.page_pos, h.page_lt, h.path.congr fun a ha => ?_, h.nodup, h.nfree, h.block, fun a ha => ?_⟩
  · rw [nodeNext, nodeNext, hmem a ha]
  · rw [h.split a ha, hlive a ha]

theorem PageOk.pop (h : PageOk mem live r (a :: l)) (hlive : ∀ x, r.Block x → (live' x ↔ live x ∨ x = a)) {o : Nat}
    (ho : Pageref.head { r with freelist_offset := o } = nodeNext mem a) :
    PageOk mem live' { r with nfree := l.length, freelist_offset := o } l := by
  obtain ⟨hhead, hpath⟩ := follows_cons_iff.mp h.path
  obtain ⟨hal, hn⟩ := List.nodup_cons.mp h.nodup
  refine ⟨h.type, h.page_pos, h.page_lt, ?_, hn, rfl, fun x hx => h.block x (List.mem_cons_of_mem _ hx), fun x hx => ?_⟩
  · exact ho ▸ hpath
  · have hx := h.split x hx
    rw [hlive x ‹_›, not_or, ← hx, List.mem_cons]
    constructor
    · intro hxl
      exact ⟨.inr hxl, fun he => hal (he ▸ hxl)⟩
    · rintro ⟨rfl | hxl, hne⟩
      · exact absurd rfl hne
      · exact hxl

theorem PageOk.push (h : PageOk mem live r l) (ha : r.Block a) (hla : live a)
    (hlive : ∀ x, r.Block x → (live' x ↔ live x ∧ x ≠ a)) (hmem : ∀ x ∈ l, mem' x = mem x)
    (hnext : nodeNext mem' a = r.head) {o : Nat} (ho : Pageref.head { r with freelist_offset := o } = some a) :
    PageOk mem' live' { r with freelist_offset := o, nfree := l.length + 1 } (a :: l) := by
  have hal : a ∉ l := fun hal => (h.split a ha).mp hal hla
  refine ⟨h.type, h.page_pos, h.page_lt, ?_, List.nodup_cons.mpr ⟨hal, h.nodup⟩, rfl, fun x hx => ?_, fun x hx => ?_⟩
  · refine follows_cons_iff.mpr ⟨ho, ?_⟩
    rw [hnext]
    exact h.path.congr fun x hx => by rw [nodeNext, nodeNext, hmem x hx]
  · rcases List.mem_cons.mp hx with rfl | hx
    · exact ha
    · exact h.block x hx
  · rw [List.mem_cons, h.split x hx, hlive x hx]
    by_cases hxa : x = a
    · simp [hxa]
    · simp [hxa]

theorem PageOk.count (h : PageOk mem live r l) {ls : List Nat} (hn : ls.Nodup)
    (hls : ∀ x, x ∈ ls ↔ r.Block x ∧ live x) : ls.length + r.nfree = PAGE_SIZE / r.size := by
  rw [← r.length_blocks, h.nfree, ← List.length_append]
  refine (List.Perm.length_eq ?_)
  refine (List.perm_ext_iff_of_nodup ?_ (Pageref.nodup_blocks h.type)).mpr fun x => ?_
  · refine hn.append h.nodup fun x hx hxl => ?_
    exact (h.split x (h.block x hxl)).mp hxl ((hls x).mp hx).2
  · rw [List.mem_append, hls, Pageref.mem_blocks h.type]
    constructor
    · rintro (hx | hx)
      · exact hx.1
      · exact h.block x hx
    · intro hx
      by_cases hl : live x
      · exact .inl ⟨hx, hl⟩
      · exact .inr ((h.split x hx).mpr hl)

end Page

/-! ## The heap -/

structure Lists (s : Kheap) : Prop where
  all : Spans (fun k => (s.pagerefs k).next_all) s.allbase s.InUse
  same : ∀ b < NSIZES, Spans (fun k => (s.pagerefs k).next_samesize) (s.sizebases b)
    fun k => s.InUse k ∧ PR_BLOCKTYPE (s.pagerefs k) = b

def addrs (live : List (Nat × Nat)) : List Nat := live.map Prod.fst

structure Pages (s : Kheap) (live : List (Nat × Nat)) : Prop where
  page : ∀ k, s.InUse k → ∃ l, PageOk s.mem (· ∈ addrs live) (s.pagerefs k) l
  apart : ∀ k k', s.InUse k → s.InUse k' → PR_PAGEADDR (s.pagerefs k) = PR_PAGEADDR (s.pagerefs k') → k = k'
  owned : ∀ k, s.InUse k → PR_PAGEADDR (s.pagerefs k) ∈ s.kpages
  nodup : (addrs live).Nodup
  live : ∀ p ∈ live, ∃ k, s.InUse k ∧ (s.pagerefs k).Block p.1 ∧ p.2 ≤ (s.pagerefs k).size

structure HeapInv (hole : Nat → Prop) (s : Kheap) (live : List (Nat × Nat)) : Prop where
  lists : Lists s
  pages : Pages s live
  busy : ∀ k, s.InUse k → hole k ∨ ∃ p ∈ live, (s.pagerefs k).Block p.1

section Heap

variable {s s' : Kheap} {live live' : List (Nat × Nat)} {k : Nat} {r r' : Pageref} {a b sz : Nat} {hole : Nat → Prop}

theorem mem_addrs : a ∈ addrs live ↔ ∃ p ∈ live, p.1 = a := List.mem_map

def Pageref.Like (r r' : Pageref) : Prop := r.pageaddr_and_blocktype = r'.pageaddr_and_blocktype

theorem Pageref.Like.pageaddr (h : r.Like r') : PR_PAGEADDR r = PR_PAGEADDR r' := congrArg pageFrame h

theorem Pageref.Like.blocktype (h : r.Like r') : PR_BLOCKTYPE r = PR_BLOCKTYPE r' := congrArg (· % PAGE_SIZE) h

theorem Pageref.Like.size (h : r.Like r') : r.size = r'.size := congrArg sizeAt h.blocktype

theorem Pageref.Like.inPage (h : r.Like r') : r.InPage a ↔ r'.InPage a := by
  rw [InPage, InPage, h.pageaddr]

theorem Pageref.Like.block (h : r.Like r') : r.Block a ↔ r'.Block a := by
  rw [Block, Block, h.inPage, h.size, h.pageaddr]

theorem like_update (h : r'.Like (s.pagerefs k)) (j : Nat) :
    (Function.update s.pagerefs k r' j).Like (s.pagerefs j) := by
  by_cases hj : j = k
  · subst hj; rwa [Function.update_self]
  · rw [Function.update_of_ne hj]; rfl

theorem Lists.congr (h : Lists s) (hbits : s'.pagerefs_inuse = s.pagerefs_inuse) (hbases : s'.sizebases = s.sizebases)
    (hall : s'.allbase = s.allbase) (hlike : ∀ j, (s'.pagerefs j).Like (s.pagerefs j))
    (hlinks : ∀ j, (s'.pagerefs j).next_all = (s.pagerefs j).next_all ∧
      (s'.pagerefs j).next_samesize = (s.pagerefs j).next_samesize) : Lists s' := by
  have huse : ∀ j, s'.InUse j ↔ s.InUse j := fun j => by rw [Kheap.InUse, Kheap.InUse, hbits]
  constructor
  · rw [hall]
    exact h.all.congr (fun j _ => (hlinks j).1) huse
  · intro b hb
    rw [hbases]
    exact (h.same b hb).congr (fun j _ => (hlinks j).2) fun j => by rw [huse, (hlike j).blocktype]

theorem Kheap.InUse.lt (h : s.InUse k) : k < NPAGEREFS := h.1

theorem inUse_length {l : List Nat} (hn : l.Nodup) (hl : ∀ j ∈ l, s.InUse j) : l.length ≤ NPAGEREFS := by
  rw [← List.length_range (n := NPAGEREFS)]
  exact (List.subperm_of_subset hn fun j hj => List.mem_range.mpr (hl j hj).lt).length_le

theorem Pages.update (h : Pages s live) (hk : s.InUse k) (hlike : r'.Like (s.pagerefs k)) {mem' : Nat → Nat}
    (hmem : ∀ a, ¬ (s.pagerefs k).InPage a → mem' a = s.mem a)
    (hlive : ∀ a, ¬ (s.pagerefs k).InPage a → (a ∈ addrs live' ↔ a ∈ addrs live))
    (hok : ∃ l, PageOk mem' (· ∈ addrs live') r' l) (hnodup : (addrs live').Nodup)
    (hblocks : ∀ p ∈ live', p ∈ live ∨ r'.Block p.1 ∧ p.2 ≤ r'.size) :
    Pages { s with mem := mem', pagerefs := Function.update s.pagerefs k r' } live' := by
  have hl := like_update hlike
  refine ⟨fun j hj => ?_, fun i j hi hj hij => ?_, fun j hj => ?_, hnodup, fun p hp => ?_⟩
  · by_cases hjk : j = k
    · subst hjk
      simpa using hok
    · have hout : ∀ a, (s.pagerefs j).Block a → ¬ (s.pagerefs k).InPage a := fun a ha hin =>
        hjk (h.apart j k hj hk ((Pageref.inPage_iff.mp ha.1).symm.trans (Pageref.inPage_iff.mp hin)))
      obtain ⟨l, hl⟩ := h.page j hj
      simp only [Function.update_of_ne hjk]
      exact ⟨l, hl.congr (fun a ha => hmem a (hout a (hl.block a ha))) fun a ha => hlive a (hout a ha)⟩
  · exact h.apart i j hi hj (by simpa [(hl i).pageaddr, (hl j).pageaddr] using hij)
  · rw [(hl j).pageaddr]
    exact h.owned j hj
  · rcases hblocks p hp with hp | ⟨hp, hsz⟩
    · obtain ⟨j, hj, hb, hsz⟩ := h.live p hp
      exact ⟨j, hj, (hl j).block.mpr hb, (hl j).size ▸ hsz⟩
    · exact ⟨k, hk, by simpa using hp, by simpa using hsz⟩

/-! ## Taking a block -/

theorem doalloc_run {l : List Nat} {P : Nat → Prop} (h : PageOk s.mem P (s.pagerefs k) (a :: l)) :
    ∃ o, doalloc k s = .ok (.ok a, s.setPageref k { s.pagerefs k with nfree := l.length, freelist_offset := o }) ∧
      Pageref.head { s.pagerefs k with freelist_offset := o } = nodeNext s.mem a := by
  obtain ⟨hhead, hpath⟩ := follows_cons_iff.mp h.path
  have hblock := (h.block a List.mem_cons_self).1
  have hlt := h.page_lt
  have hlen := h.length_le_256
  have hnfree := h.nfree
  rw [List.length_cons] at hlen hnfree
  simp only [Pageref.InPage, PAGE_SIZE] at hblock hlt
  rw [Pageref.head] at hhead
  split at hhead
  · cases hhead
  have ha : PR_PAGEADDR (s.pagerefs k) + (s.pagerefs k).freelist_offset = a := Option.some.inj hhead
  have hret : u32 (PR_PAGEADDR (s.pagerefs k) + (s.pagerefs k).freelist_offset) = a := by
    rw [ha, u32, Nat.mod_eq_of_lt (by omega)]
  have hdec : ((s.pagerefs k).nfree + 2 ^ 16 - 1) % 2 ^ 16 = l.length := by omega
  rw [doalloc, bind_ok (get_run s)]
  dsimp only
  rw [bind_ok (ensure_run s _ _ (show (s.pagerefs k).freelist_offset < PAGE_SIZE by simp only [PAGE_SIZE]; omega)), hret,
    hdec]
  by_cases h0 : s.mem a = 0
  · have hnil : l = [] := by
      rw [nodeNext, if_pos h0] at hpath
      cases hpath
      rfl
    subst hnil
    refine ⟨INVALID_OFFSET, ?_, ?_⟩
    · rw [if_neg (by simpa using h0), bind_ok (ensure_run s _ _ List.length_nil)]
      rfl
    · rw [nodeNext, if_pos h0]
      rfl
  · rw [nodeNext, if_neg h0] at hpath
    obtain ⟨l', rfl⟩ : ∃ l', l = s.mem a :: l' := by
      cases hpath
      exact ⟨_, rfl⟩
    have hnext := (h.block (s.mem a) (by simp)).1
    simp only [Pageref.InPage, PAGE_SIZE] at hnext
    have hoff : u32 (s.mem a + 2 ^ 32 - PR_PAGEADDR (s.pagerefs k)) = s.mem a - PR_PAGEADDR (s.pagerefs k) := by
      rw [u32]; omega
    refine ⟨s.mem a - PR_PAGEADDR (s.pagerefs k), ?_, ?_⟩
    · rw [if_pos h0, bind_ok (ensure_run s _ _ (by simp)), hoff,
        bind_ok (ensure_run s _ _ (by simp only [PAGE_SIZE]; omega)),
        Nat.mod_eq_of_lt (show s.mem a - PR_PAGEADDR (s.pagerefs k) < 2 ^ 16 by omega)]
      rfl
    · have hne : s.mem a - PR_PAGEADDR (s.pagerefs k) ≠ INVALID_OFFSET := by simp only [INVALID_OFFSET]; omega
      rw [nodeNext, if_neg h0, Pageref.head, if_neg hne]
      exact congrArg some (Nat.add_sub_cancel' hnext.1)

theorem doalloc_spec (h : HeapInv hole s live) (hk : s.InUse k) (hhole : ∀ j, hole j → j = k)
    (hfree : 0 < (s.pagerefs k).nfree) (hsz : sz ≤ (s.pagerefs k).size) :
    ∃ ptr s', doalloc k s = .ok (.ok ptr, s') ∧ ptr ≠ 0 ∧ HeapInv (fun _ => False) s' ((ptr, sz) :: live) := by
  obtain ⟨l, hl⟩ := h.pages.page k hk
  obtain ⟨a, l, rfl⟩ : ∃ a l', l = a :: l' := by
    cases l with
    | nil => rw [hl.nfree] at hfree; cases hfree
    | cons a l => exact ⟨a, l, rfl⟩
  obtain ⟨o, hrun, ho⟩ := doalloc_run hl
  have hblock := hl.block a List.mem_cons_self
  have hnew : a ∉ addrs live := (hl.split a hblock).mp List.mem_cons_self
  have hlike : ∀ j, ((s.setPageref k { s.pagerefs k with nfree := l.length, freelist_offset := o }).pagerefs j).Like
      (s.pagerefs j) := like_update rfl
  refine ⟨a, _, hrun, ?_, ?_, ?_, fun j hj => ?_⟩
  · have := hl.page_pos
    have := hblock.1.1
    omega
  · refine h.lists.congr rfl rfl rfl hlike fun j => ?_
    by_cases hj : j = k
    · subst hj
      simp [Kheap.setPageref]
    · simp [Kheap.setPageref, Function.update_of_ne hj]
  · have hlike' : Pageref.Like { s.pagerefs k with nfree := l.length, freelist_offset := o } (s.pagerefs k) := rfl
    refine h.pages.update hk hlike' (fun _ _ => rfl) (fun x hx => ?_) ⟨l, hl.pop (fun x _ => ?_) ho⟩ ?_ fun p hp => ?_
    · have hxa : x ≠ a := fun he => hx (he ▸ hblock.1)
      simp [addrs, hxa]
    · simp [addrs, or_comm]
    · exact List.nodup_cons.mpr ⟨hnew, h.pages.nodup⟩
    · rcases List.mem_cons.mp hp with rfl | hp
      · exact .inr ⟨hblock, hsz⟩
      · exact .inl hp
  · right
    by_cases hjk : j = k
    · subst hjk
      exact ⟨(a, sz), List.mem_cons_self, (hlike j).block.mpr hblock⟩
    · rcases h.busy j hj with hh | ⟨p, hp, hb⟩
      · exact absurd (hhole j hh) hjk
      · exact ⟨p, List.mem_cons_of_mem _ hp, (hlike j).block.mpr hb⟩

end Heap

end Os161
