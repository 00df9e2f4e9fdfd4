import Mathlib.Tactic.Ring
import Os161.Kern.Subpage

/-! # `kmalloc` of less than a page -/

namespace Os161

open Prog Links

section Heap

variable {s s' : Kheap} {live live' : List (Nat × Nat)} {k : Nat} {r r' : Pageref} {a b sz : Nat} {hole : Nat → Prop}

/-! ## Page references -/

theorem inuseBit_eq (j : Nat) : inuseBit j = BitVec.twoPow 32 j := rfl

theorem and_inuseBit (w : BitVec 32) {j : Nat} (hj : j < 32) : w &&& inuseBit j = 0#32 ↔ w.getLsbD j = false := by
  rw [inuseBit_eq, BitVec.and_twoPow]
  cases hw : w.getLsbD j with
  | false => simp
  | true =>
    simp only [if_true, Bool.true_eq_false, iff_false]
    intro h
    have := congrArg (BitVec.getLsbD · j) h
    simp [hj] at this

theorem inUse_set {i j : Nat} (hi : i < INUSE_WORDS) (hj : j < 32) (k : Nat) :
    (s.setInuse i (s.pagerefs_inuse i ||| inuseBit j)).InUse k ↔ s.InUse k ∨ k = i * 32 + j := by
  simp only [Kheap.InUse, Kheap.setInuse, NPAGEREFS, INUSE_WORDS] at hi ⊢
  by_cases hk : k / 32 = i
  · subst hk
    rw [Function.update_self, BitVec.getLsbD_or, inuseBit_eq, BitVec.getLsbD_twoPow]
    have hkey : j < 32 ∧ j = k % 32 ↔ k = k / 32 * 32 + j := by omega
    have hlt : k = k / 32 * 32 + j → k < 256 := by omega
    simp only [Bool.or_eq_true, Bool.and_eq_true, decide_eq_true_eq, hkey]
    tauto
  · have hne : k ≠ i * 32 + j := by omega
    rw [Function.update_of_ne hk]
    simp [hne]

theorem inUse_clear (p k : Nat) :
    (s.setInuse (p / 32) (s.pagerefs_inuse (p / 32) &&& ~~~inuseBit (p % 32))).InUse k ↔ s.InUse k ∧ k ≠ p := by
  simp only [Kheap.InUse, Kheap.setInuse, NPAGEREFS]
  by_cases hk : k / 32 = p / 32
  · rw [hk, Function.update_self, BitVec.getLsbD_and, BitVec.getLsbD_not, inuseBit_eq, BitVec.getLsbD_twoPow]
    have hkey : p % 32 = k % 32 ↔ k = p := by omega
    have hlt : k % 32 < 32 ∧ p % 32 < 32 := by omega
    simp [hkey, hlt, and_assoc]
  · have hne : k ≠ p := fun he => hk (by rw [he])
    rw [Function.update_of_ne hk]
    simp [hne]

theorem allocpageref_run (s : Kheap) :
    allocpageref s = .ok (.ok none, s) ∨
      ∃ k i w, allocpageref s = .ok (.ok (some k), s.setInuse i w) ∧ ¬ s.InUse k ∧
        ∀ j, (s.setInuse i w).InUse j ↔ s.InUse j ∨ j = k := by
  rw [allocpageref, bind_ok (get_run s)]
  cases hi : (List.range INUSE_WORDS).find? fun i => s.pagerefs_inuse i ≠ 0xffffffff#32 with
  | none => exact .inl rfl
  | some i =>
    right
    have hi8 : i < INUSE_WORDS := List.mem_range.mp (List.mem_of_find?_eq_some hi)
    have hfull : s.pagerefs_inuse i ≠ 0xffffffff#32 := by simpa using List.find?_some hi
    cases hj : (List.range 32).find? fun j => s.pagerefs_inuse i &&& inuseBit j = 0#32 with
    | none =>
      refine absurd (BitVec.eq_of_getLsbD_eq fun j hj32 => ?_) hfull
      have hset := List.find?_eq_none.mp hj j (List.mem_range.mpr hj32)
      simp only [decide_eq_true_eq, and_inuseBit _ hj32, Bool.not_eq_false] at hset
      rw [hset, show (0xffffffff#32 : BitVec 32) = BitVec.allOnes 32 from rfl, BitVec.getLsbD_allOnes]
      simp [hj32]
    | some j =>
      have hj32 : j < 32 := List.mem_range.mp (List.mem_of_find?_eq_some hj)
      have hclear : (s.pagerefs_inuse i).getLsbD j = false := by
        rw [← and_inuseBit _ hj32]
        simpa using List.find?_some hj
      refine ⟨i * 32 + j, i, _, by simp only [hj]; rfl, fun huse => ?_, inUse_set hi8 hj32⟩
      have := huse.2
      rw [show (i * 32 + j) / 32 = i by omega, show (i * 32 + j) % 32 = j by omega, hclear] at this
      cases this

theorem freepageref_run (h : s.InUse k) :
    ∃ i w, freepageref k s = .ok (.ok (), s.setInuse i w) ∧ ∀ j, (s.setInuse i w).InUse j ↔ s.InUse j ∧ j ≠ k := by
  have hbit : s.pagerefs_inuse (k / 32) &&& inuseBit (k % 32) ≠ 0#32 := by
    rw [Ne, and_inuseBit _ (Nat.mod_lt _ (by decide)), h.2]
    simp
  refine ⟨_, _, ?_, inUse_clear k⟩
  rw [freepageref, bind_ok (ensure_run s _ _ h.lt), bind_ok (get_run s), bind_ok (ensure_run s _ _ hbit)]
  rfl

/-! ## A fresh page -/

theorem nodeNext_store {mem : Nat → Nat} {v : Nat} (hv : v ≠ 0) :
    nodeNext (Function.update mem a v) = Function.update (nodeNext mem) a (some v) := by
  funext x
  by_cases hx : x = a
  · subst hx
    rw [nodeNext, Function.update_self, Function.update_self, if_neg hv]
  · rw [Function.update_of_ne hx, nodeNext, nodeNext, Function.update_of_ne hx]

theorem link_blocks_run {page sz n i : Nat} (hpos : 0 < page) (hsz : 0 < sz) (hend : page + (i + 1 + n) * sz ≤ 2 ^ 32)
    (hpath : Follows (nodeNext s.mem) (some (page + i * sz)) (down page sz (i + 1))) :
    ∃ mem', link_blocks page sz n (i + 1) (page + i * sz) s = .ok (.ok (page + (i + n) * sz), { s with mem := mem' }) ∧
      Follows (nodeNext mem') (some (page + (i + n) * sz)) (down page sz (i + 1 + n)) ∧
      ∀ a, a < page ∨ page + (i + 1 + n) * sz ≤ a → mem' a = s.mem a := by
  induction n generalizing i s with
  | zero => exact ⟨s.mem, rfl, hpath, fun _ _ => rfl⟩
  | succ n ih =>
    have hmul : (i + 1 + (n + 1)) * sz = (i + 1) * sz + sz + n * sz := by ring
    have hi : i * sz + sz = (i + 1) * sz := by ring
    have hfl : u32 (page + (i + 1) * sz) = page + (i + 1) * sz := Nat.mod_eq_of_lt (by omega)
    have hprev : u32 (page + i * sz) = page + i * sz := Nat.mod_eq_of_lt (by omega)
    have hnew : page + (i + 1) * sz ∉ down page sz (i + 1) := by
      rw [mem_down]
      rintro ⟨j, hj, he⟩
      have := Nat.mul_lt_mul_of_pos_right hj hsz
      omega
    set s₁ := s.store (page + (i + 1) * sz) (page + i * sz) with hs₁
    have hpath₁ : Follows (nodeNext s₁.mem) (some (page + (i + 1) * sz)) (down page sz (i + 1 + 1)) := by
      rw [hs₁, Kheap.store, nodeNext_store (by omega), down_succ]
      exact hpath.push hnew
    obtain ⟨mem', hrun, hp, hmem⟩ := ih (s := s₁) (i := i + 1) (by rw [show i + 1 + 1 + n = i + 1 + (n + 1) by omega]; exact hend)
      hpath₁
    refine ⟨mem', ?_, ?_, fun x hx => ?_⟩
    · rw [link_blocks, hfl, Nat.add_sub_cancel, hprev, bind_ok (modify_run _ _), bind_ok (get_run _)]
      rw [bind_ok (ensure_run _ _ _ ?_), hrun, show i + 1 + n = i + (n + 1) by omega]
      · rfl
      · simp only [Kheap.store, Function.update_self]
        omega
    · rw [show i + (n + 1) = i + 1 + n by omega, show i + 1 + (n + 1) = i + 1 + 1 + n by omega]
      exact hp
    · rw [hmem x (by rw [show i + 1 + 1 + n = i + 1 + (n + 1) by omega]; exact hx)]
      exact Function.update_of_ne (by omega) _ _

theorem newpage_run {page : Nat} (hb : b < NSIZES) (hmod : page % PAGE_SIZE = 0) (hpos : 0 < page)
    (hlt : page + PAGE_SIZE < 2 ^ 32) :
    ∃ mem' r, newpage k page b s = .ok (.ok (), { s with
        mem := mem', pagerefs := Function.update s.pagerefs k r
        sizebases := Function.update s.sizebases b (some k), allbase := some k }) ∧
      r.next_samesize = s.sizebases b ∧ r.next_all = s.allbase ∧ PR_PAGEADDR r = page ∧ PR_BLOCKTYPE r = b ∧
      (∀ a, ¬ r.InPage a → mem' a = s.mem a) ∧ PageOk mem' (fun _ => False) r r.blocks := by
  obtain ⟨hsz, hle, hdvd, -⟩ := sizeAt_spec b hb
  obtain ⟨n, hn⟩ : ∃ n, PAGE_SIZE / sizeAt b = n + 1 :=
    Nat.exists_eq_succ_of_ne_zero (Nat.pos_iff_ne_zero.mp (Nat.div_pos (by simp only [PAGE_SIZE]; omega) (by omega)))
  have hpage : (n + 1) * sizeAt b = PAGE_SIZE := by rw [← hn, Nat.div_mul_cancel hdvd]
  have hmul : (n + 1) * sizeAt b = n * sizeAt b + sizeAt b := Nat.succ_mul _ _
  simp only [PAGE_SIZE] at hlt hpage hmod
  set r : Pageref := ⟨s.sizebases b, s.allbase, MKPAB page b, n * sizeAt b, n + 1⟩ with hr
  have haddr : PR_PAGEADDR r = page := by
    simp only [hr, PR_PAGEADDR, MKPAB, pageFrame, PAGE_SIZE, NSIZES] at hb ⊢
    omega
  have htype : PR_BLOCKTYPE r = b := by
    simp only [hr, PR_BLOCKTYPE, MKPAB, pageFrame, PAGE_SIZE, NSIZES] at hb ⊢
    omega
  have hsize : r.size = sizeAt b := congrArg sizeAt htype
  have hblocks : r.blocks = down page (sizeAt b) (n + 1) := by rw [Pageref.blocks, haddr, hsize, hn]
  set s₂ : Kheap := (s.setPageref k { s.pagerefs k with
    pageaddr_and_blocktype := MKPAB page b, nfree := n + 1 }).store page 0 with hs₂
  have hstart : Follows (nodeNext s₂.mem) (some (page + 0 * sizeAt b)) (down page (sizeAt b) (0 + 1)) := by
    rw [down_succ, follows_cons_iff]
    refine ⟨rfl, ?_⟩
    simp [hs₂, Kheap.store, nodeNext, down]
  obtain ⟨mem', hrun, hpath, hmem⟩ := link_blocks_run (n := n) (i := 0) hpos (by omega) (by
    rw [Nat.zero_add, Nat.add_comm 1 n, hpage]; omega) hstart
  rw [Nat.zero_add, Nat.zero_mul, Nat.add_zero, Nat.zero_add] at hrun
  rw [Nat.zero_add, Nat.zero_add, Nat.add_comm 1 n] at hpath
  have hoff : u32 (page + n * sizeAt b + 2 ^ 32 - page) % 2 ^ 16 = n * sizeAt b := by
    rw [u32]; omega
  refine ⟨mem', r, ?_, rfl, rfl, haddr, htype, fun a ha => ?_, ?_⟩
  · rw [newpage, hn, bind_ok (modify_run _ _), bind_ok (modify_run _ _), Nat.add_sub_cancel, bind_ok hrun]
    rw [bind_ok (modify_run _ _), bind_ok (ensure_run _ _ _ hoff), hoff, bind_ok (modify_run _ _), bind_ok (modify_run _ _),
      bind_ok (modify_run _ _), modify_run]
    simp [hs₂, hr, Kheap.setPageref, Kheap.store]
  · rw [Pageref.InPage, haddr] at ha
    simp only [PAGE_SIZE] at ha
    rw [hmem a (by rw [Nat.zero_add, Nat.add_comm 1 n, hpage]; omega)]
    exact Function.update_of_ne (by omega) _ _
  · have hhead : r.head = some (page + n * sizeAt b) := by
      rw [Pageref.head, if_neg, haddr]
      simp only [hr, INVALID_OFFSET]
      omega
    refine ⟨htype ▸ hb, haddr ▸ hpos, haddr ▸ hlt, ?_, Pageref.nodup_blocks (htype ▸ hb), ?_,
      fun a ha => (Pageref.mem_blocks (htype ▸ hb)).mp ha, fun a ha => ?_⟩
    · rw [hhead, hblocks]
      exact hpath
    · rw [hblocks, length_down]
    · exact iff_of_true ((Pageref.mem_blocks (htype ▸ hb)).mpr ha) id

theorem field_update (f : Pageref → Option Nat) (pagerefs : Nat → Pageref) (k : Nat) (r : Pageref) :
    (fun j => f (Function.update pagerefs k r j)) = Function.update (fun j => f (pagerefs j)) k (f r) :=
  Function.comp_update f pagerefs k r

theorem HeapInv.insert (h : HeapInv (fun _ => False) s live) (hk : ¬ s.InUse k)
    (huse : ∀ j, s'.InUse j ↔ s.InUse j ∨ j = k) (hrefs : s'.pagerefs = Function.update s.pagerefs k r)
    (hbases : s'.sizebases = Function.update s.sizebases (PR_BLOCKTYPE r) (some k)) (hbase : s'.allbase = some k)
    (hkpages : s'.kpages = PR_PAGEADDR r :: s.kpages) (hnew : PR_PAGEADDR r ∉ s.kpages)
    (hsame : r.next_samesize = s.sizebases (PR_BLOCKTYPE r)) (hall : r.next_all = s.allbase)
    (hmem : ∀ a, ¬ r.InPage a → s'.mem a = s.mem a) (hok : PageOk s'.mem (fun _ => False) r r.blocks) :
    HeapInv (· = k) s' live := by
  have hne : ∀ j, s.InUse j → j ≠ k := fun j hj he => hk (he ▸ hj)
  have hrk : s'.pagerefs k = r := by rw [hrefs, Function.update_self]
  have hrj : ∀ j, j ≠ k → s'.pagerefs j = s.pagerefs j := fun j hj => by rw [hrefs, Function.update_of_ne hj]
  have hout : ∀ j a, s.InUse j → (s.pagerefs j).Block a → ¬ r.InPage a := by
    intro j a hj ha hin
    refine hnew ?_
    rw [← Pageref.inPage_iff.mp hin, Pageref.inPage_iff.mp ha.1]
    exact h.pages.owned j hj
  have hdead : ∀ a, r.Block a → a ∉ addrs live := by
    intro a ha hlive
    obtain ⟨p, hp, rfl⟩ := mem_addrs.mp hlive
    obtain ⟨j, hj, hbl, -⟩ := h.pages.live p hp
    exact hout j p.1 hj hbl ha.1
  have hkind : ∀ b j, j ≠ k → (s'.InUse j ∧ PR_BLOCKTYPE (s'.pagerefs j) = b ↔
      s.InUse j ∧ PR_BLOCKTYPE (s.pagerefs j) = b) := fun b j hj => by rw [huse, or_iff_left hj, hrj j hj]
  refine ⟨⟨?_, fun b hb => ?_⟩, ⟨fun j hj => ?_, fun i j hi hj he => ?_, fun j hj => ?_, h.pages.nodup, fun p hp => ?_⟩,
    fun j hj => ?_⟩
  · rw [hrefs, field_update, hall, hbase]
    exact h.lists.all.push hk huse
  · rw [hrefs, field_update, hsame, hbases, ← hrefs]
    by_cases hbb : b = PR_BLOCKTYPE r
    · subst hbb
      rw [Function.update_self]
      refine (h.lists.same _ hb).push (fun hkk => hk hkk.1) fun j => ?_
      by_cases hj : j = k
      · subst hj
        exact iff_of_true ⟨(huse j).mpr (.inr rfl), by rw [hrk]⟩ (.inr rfl)
      · rw [hkind _ j hj, or_iff_left hj]
    · rw [Function.update_of_ne hbb]
      refine (h.lists.same b hb).congr (fun j hj => Function.update_of_ne (hne j hj.1) _ _) fun j => ?_
      by_cases hj : j = k
      · subst hj
        exact iff_of_false (fun hjj => hbb (by rw [← hjj.2, hrk])) fun hjj => hk hjj.1
      · exact hkind b j hj
  · by_cases hjk : j = k
    · subst hjk
      rw [hrk]
      exact ⟨_, hok.congr (fun _ _ => rfl) fun a ha => iff_of_false (hdead a ha) id⟩
    · have hj := ((huse j).mp hj).resolve_right hjk
      obtain ⟨l, hl⟩ := h.pages.page j hj
      rw [hrj j hjk]
      exact ⟨l, hl.congr (fun a ha => hmem a (hout j a hj (hl.block a ha))) fun _ _ => Iff.rfl⟩
  · have hfresh : ∀ i, s'.InUse i → i ≠ k → PR_PAGEADDR (s'.pagerefs i) ≠ PR_PAGEADDR r := by
      intro i hi hik he
      rw [hrj i hik] at he
      exact hnew (he ▸ h.pages.owned i (((huse i).mp hi).resolve_right hik))
    by_cases hik : i = k
    · by_cases hjk : j = k
      · rw [hik, hjk]
      · rw [hik, hrk] at he
        exact absurd he.symm (hfresh j hj hjk)
    · by_cases hjk : j = k
      · rw [hjk, hrk] at he
        exact absurd he (hfresh i hi hik)
      · rw [hrj i hik, hrj j hjk] at he
        exact h.pages.apart i j (((huse i).mp hi).resolve_right hik) (((huse j).mp hj).resolve_right hjk) he
  · rw [hkpages]
    by_cases hjk : j = k
    · rw [hjk, hrk]
      exact List.mem_cons_self
    · rw [hrj j hjk]
      exact List.mem_cons_of_mem _ (h.pages.owned j (((huse j).mp hj).resolve_right hjk))
  · obtain ⟨j, hj, hblock, hsz⟩ := h.pages.live p hp
    refine ⟨j, (huse j).mpr (.inl hj), ?_⟩
    rw [hrj j (hne j hj)]
    exact ⟨hblock, hsz⟩
  · by_cases hjk : j = k
    · exact .inl hjk
    · rw [hrj j hjk]
      exact .inr ((h.busy j (((huse j).mp hj).resolve_right hjk)).resolve_left id)

/-! ## `kmalloc` -/

theorem scan_run {next : Pageref → Option Nat} {check : Pageref → Prop} [DecidablePred check] {p : KheapPanic}
    {hit : Pageref → Bool} {start : Option Nat} {l : List Nat} {n : Nat}
    (h : Follows (fun k => next (s.pagerefs k)) start l) (hcheck : ∀ k ∈ l, check (s.pagerefs k)) (hlen : l.length ≤ n) :
    scan next check p hit n start s = .ok (.ok (l.find? fun k => hit (s.pagerefs k)), s) := by
  induction h generalizing n with
  | nil => rw [scan]; rfl
  | @cons k l _ ih =>
    obtain ⟨n, rfl⟩ : ∃ m, n = m + 1 := ⟨n - 1, by rw [List.length_cons] at hlen; omega⟩
    rw [scan, bind_ok (get_run s), bind_ok (ensure_run s _ _ (hcheck k List.mem_cons_self)), List.find?_cons]
    cases hit (s.pagerefs k) with
    | true => rfl
    | false =>
      exact ih (fun j hj => hcheck j (List.mem_cons_of_mem _ hj)) (Nat.le_of_succ_le_succ hlen)

theorem blocktype_run (hsz : sz < LARGEST_SUBPAGE_SIZE) : ∃ b, blocktype sz s = .ok (.ok b, s) ∧ b < NSIZES ∧ sz ≤ sizeAt b := by
  rw [blocktype]
  cases hf : (List.range NSIZES).find? fun i => sz ≤ sizeAt i with
  | none =>
    have := List.find?_eq_none.mp hf 7 (by decide)
    simp only [decide_eq_true_eq, LARGEST_SUBPAGE_SIZE] at this hsz
    exact absurd hsz.le this
  | some b => exact ⟨b, rfl, List.mem_range.mp (List.mem_of_find?_eq_some hf), by simpa using List.find?_some hf⟩

def FreshPage (s : Kheap) (page : Nat) : Prop :=
  page = 0 ∨ page % PAGE_SIZE = 0 ∧ page + PAGE_SIZE < 2 ^ 32 ∧ page ∉ s.kpages

def Malloced (live : List (Nat × Nat)) (sz ptr : Nat) (s : Kheap) : Prop :=
  HeapInv (fun _ => False) s (if ptr = 0 then live else (ptr, sz) :: live)

theorem HeapInv.of_bits (h : HeapInv hole s live) (bits : Nat → BitVec 32)
    (huse : ∀ j, Kheap.InUse { s with pagerefs_inuse := bits } j ↔ s.InUse j) :
    HeapInv hole { s with pagerefs_inuse := bits } live := by
  refine ⟨⟨h.lists.all.congr (fun _ _ => rfl) huse, fun b hb => (h.lists.same b hb).congr (fun _ _ => rfl) fun j => ?_⟩,
    ⟨fun j hj => h.pages.page j ((huse j).mp hj), fun i j hi hj => h.pages.apart i j ((huse i).mp hi) ((huse j).mp hj),
      fun j hj => h.pages.owned j ((huse j).mp hj), h.pages.nodup, fun p hp => ?_⟩, fun j hj => h.busy j ((huse j).mp hj)⟩
  · rw [huse]
  · obtain ⟨j, hj, hrest⟩ := h.pages.live p hp
    exact ⟨j, (huse j).mpr hj, hrest⟩

theorem subpage_grow_spec {page : Nat} (h : HeapInv (fun _ => False) s live) (hb : b < NSIZES) (hsz : sz ≤ sizeAt b)
    (hpage : FreshPage s page) : ∃ ptr s', subpage_grow b page s = .ok (.ok ptr, s') ∧ Malloced live sz ptr s' := by
  rcases allocpageref_run s with hrun | ⟨k, i, w, hrun, hk, huse⟩
  · exact ⟨0, s, by rw [subpage_grow, bind_ok hrun]; rfl, h⟩
  by_cases hpos : page = 0
  · subst hpos
    obtain ⟨i', w', hfree, huse'⟩ := freepageref_run ((huse k).mpr (.inr rfl))
    refine ⟨0, (s.setInuse i w).setInuse i' w', ?_, h.of_bits _ fun j => ?_⟩
    · rw [subpage_grow, bind_ok hrun]
      exact bind_ok hfree
    · refine (huse' j).trans ?_
      rw [huse]
      constructor
      · rintro ⟨hj | rfl, hne⟩
        · exact hj
        · exact absurd rfl hne
      · exact fun hj => ⟨.inl hj, fun he => hk (he ▸ hj)⟩
  · obtain ⟨hmod, hlt, hnew⟩ := hpage.resolve_left hpos
    obtain ⟨mem', r, hpagerun, hsame, hall, haddr, htype, hmem, hok⟩ :=
      newpage_run (s := { s.setInuse i w with kpages := page :: s.kpages }) (k := k) hb hmod (Nat.pos_of_ne_zero hpos) hlt
    set s₁ : Kheap := { s.setInuse i w with
      mem := mem', pagerefs := Function.update s.pagerefs k r
      sizebases := Function.update s.sizebases b (some k), allbase := some k, kpages := page :: s.kpages } with hs₁
    subst htype haddr
    have hrk : s₁.pagerefs k = r := Function.update_self _ _ _
    have hins : HeapInv (· = k) s₁ live := h.insert hk huse rfl rfl rfl rfl hnew hsame hall hmem hok
    obtain ⟨ptr, s₂, hdo, hptr, hinv⟩ := doalloc_spec hins ((huse k).mpr (.inr rfl)) (fun _ hj => hj)
      (by rw [hrk, hok.nfree, Pageref.length_blocks]; exact Nat.div_pos (hok.size_pos.2.trans (by decide)) (by have := hok.size_pos.1; omega))
      (show sz ≤ (s₁.pagerefs k).size by rw [hrk]; exact hsz)
    refine ⟨ptr, s₂, ?_, by rw [Malloced, if_neg hptr]; exact hinv⟩
    rw [subpage_grow, bind_ok hrun]
    have hkp : Kheap.alloc_kpages (PR_PAGEADDR r) (s.setInuse i w) =
        .ok (.ok (PR_PAGEADDR r), { s.setInuse i w with kpages := PR_PAGEADDR r :: s.kpages }) := by
      rw [Kheap.alloc_kpages, if_neg hpos]
      rfl
    dsimp only
    rw [bind_ok hkp, if_neg hpos, bind_ok hpagerun]
    exact hdo

theorem subpage_kmalloc_spec {page : Nat} (h : HeapInv (fun _ => False) s live) (hsz : sz < LARGEST_SUBPAGE_SIZE)
    (hpage : FreshPage s page) : ∃ ptr s', subpage_kmalloc sz page s = .ok (.ok ptr, s') ∧ Malloced live sz ptr s' := by
  obtain ⟨b, hbrun, hb, hle⟩ := blocktype_run (s := s) hsz
  obtain ⟨l, hpath, hn, hl⟩ := h.lists.same b hb
  have hscan : scan (·.next_samesize) (PR_BLOCKTYPE · = b) .kmalloc_blocktype (·.nfree > 0) NPAGEREFS (s.sizebases b) s =
      .ok (.ok (l.find? fun k => (s.pagerefs k).nfree > 0), s) :=
    scan_run hpath (fun k hk => ((hl k).mp hk).2) (inUse_length hn fun j hj => ((hl j).mp hj).1)
  rw [subpage_kmalloc, bind_ok hbrun, bind_ok (get_run s), bind_ok hscan]
  cases hf : l.find? fun k => decide ((s.pagerefs k).nfree > 0) with
  | none => exact subpage_grow_spec h hb hle hpage
  | some k =>
    obtain ⟨huse, htype⟩ := (hl k).mp (List.mem_of_find?_eq_some hf)
    have hfree : 0 < (s.pagerefs k).nfree := by simpa using List.find?_some hf
    obtain ⟨ptr, s', hrun, hptr, hinv⟩ := doalloc_spec h huse (fun _ hj => hj.elim) hfree
      (hle.trans_eq (congrArg sizeAt htype.symm))
    exact ⟨ptr, s', hrun, by rw [Malloced, if_neg hptr]; exact hinv⟩

end Heap

end Os161
