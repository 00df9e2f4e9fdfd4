import Mathlib
import Os161.Lib.Lts
import Os161.Kern.Basic

/-! # `ram.c`, `dumbvm.c`, `kheap.c`: whole pages

Physical pages are handed out in one sweep and never come back. All sizes are `u_int32_t`.
-/

namespace Os161

abbrev PAGE_SIZE : Nat := 4096
abbrev MIPS_KSEG0 : Nat := 0x80000000

def pageFrame (x : Nat) : Nat := x / PAGE_SIZE * PAGE_SIZE

def PADDR_TO_KVADDR (paddr : Nat) : Nat := (paddr + MIPS_KSEG0) % 2 ^ 32

structure Ram where
  firstpaddr : Nat
  lastpaddr : Nat
  deriving DecidableEq, Repr

/-- The address of the pages, 0 if there are none, and the memory that is left then. -/
def ram_stealmem (npages : Nat) (r : Ram) : Nat × Ram :=
  let size := npages * PAGE_SIZE % 2 ^ 32
  if (r.firstpaddr + size) % 2 ^ 32 > r.lastpaddr then (0, r)
  else (r.firstpaddr, { r with firstpaddr := (r.firstpaddr + size) % 2 ^ 32 })

def getppages (npages : Nat) (r : Ram) : Nat × Ram := ram_stealmem npages r

def alloc_kpages (npages : Nat) (r : Ram) : Nat × Ram :=
  match getppages npages r with
  | (pa, r) => if pa = 0 then (0, r) else (PADDR_TO_KVADDR pa, r)

/-- The pages for `kmalloc` of a size that is not below `LARGEST_SUBPAGE_SIZE`. -/
def kmalloc_npages (sz : Nat) : Nat := (sz + PAGE_SIZE - 1) % 2 ^ 32 / PAGE_SIZE

def region_npages (vaddr sz : Nat) : Nat :=
  let sz := (sz + vaddr % PAGE_SIZE) % 2 ^ 32
  let sz := pageFrame ((sz + PAGE_SIZE - 1) % 2 ^ 32)
  sz / PAGE_SIZE

abbrev LARGEST_SUBPAGE_SIZE : Nat := 2048

/-! ## Requests in any order -/

inductive Request where
  | kpages (npages : UInt32)
  | kmalloc (sz : UInt32) (h : LARGEST_SUBPAGE_SIZE ≤ sz.toNat)
  | region (p_vaddr p_memsz : UInt32)
  deriving DecidableEq

def Request.npages : Request → Nat
  | .kpages n => n.toNat
  | .kmalloc sz _ => kmalloc_npages sz.toNat
  | .region p_vaddr p_memsz => region_npages p_vaddr.toNat p_memsz.toNat

structure Grant where
  req : Request
  paddr : Nat
  deriving DecidableEq

def Grant.range (g : Grant) : Set Nat := Set.Ico g.paddr (g.paddr + g.req.npages * PAGE_SIZE)

def ram (firstpaddr lastpaddr : Nat) : Machine Ram Request Grant Empty where
  init r := r = ⟨firstpaddr, lastpaddr⟩
  step r req :=
    let (pa, r') := getppages req.npages r
    .ok (r', if pa = 0 then [] else [⟨req, pa⟩])

def Request.Fits (r : Ram) (req : Request) : Prop :=
  r.firstpaddr + req.npages * PAGE_SIZE < 2 ^ 32 ∧
    match req with
    | .kmalloc sz _ => sz.toNat + PAGE_SIZE - 1 < 2 ^ 32
    | _ => True

instance Request.decidableFits (r : Ram) (req : Request) : Decidable (req.Fits r) := by
  cases req <;> unfold Request.Fits <;> infer_instance

section Specs

variable {r r' : Ram} {req : Request} {n pa : Nat}

theorem ram_stealmem_spec (hfit : r.firstpaddr + n * PAGE_SIZE < 2 ^ 32) :
    ram_stealmem n r =
      if r.lastpaddr < r.firstpaddr + n * PAGE_SIZE then (0, r)
      else (r.firstpaddr, { r with firstpaddr := r.firstpaddr + n * PAGE_SIZE }) := by
  have hsize : n * PAGE_SIZE % 2 ^ 32 = n * PAGE_SIZE := Nat.mod_eq_of_lt (by omega)
  unfold ram_stealmem
  simp only [hsize, Nat.mod_eq_of_lt hfit, gt_iff_lt]

theorem kmalloc_npages_le {sz : Nat} (h : sz + PAGE_SIZE - 1 < 2 ^ 32) : sz ≤ kmalloc_npages sz * PAGE_SIZE := by
  unfold kmalloc_npages
  simp only [PAGE_SIZE] at h ⊢
  omega

theorem ram_step {first last : Nat} {es : List Grant} (hfit : req.Fits r)
    (hs : (ram first last).step r req = .ok (r', es)) :
    r' = r ∧ es = [] ∨ r' = { r with firstpaddr := r.firstpaddr + req.npages * PAGE_SIZE } ∧
      r.firstpaddr + req.npages * PAGE_SIZE ≤ r.lastpaddr ∧ (es = [⟨req, r.firstpaddr⟩] ∨ es = []) := by
  simp only [ram, getppages, ram_stealmem_spec hfit.1] at hs
  by_cases hlast : r.lastpaddr < r.firstpaddr + req.npages * PAGE_SIZE
  · simp only [if_pos hlast, Except.ok.injEq, Prod.mk.injEq, if_true] at hs
    exact .inl ⟨hs.1.symm, hs.2.symm⟩
  · simp only [if_neg hlast, Except.ok.injEq, Prod.mk.injEq] at hs
    refine .inr ⟨hs.1.symm, Nat.le_of_not_lt hlast, ?_⟩
    rw [← hs.2]
    split
    · exact .inr rfl
    · exact .inl rfl

end Specs

/-! ## Every run -/

structure RamInv (first last : Nat) (r : Ram) (tr : List Grant) : Prop where
  first_le : first ≤ r.firstpaddr
  le_last : r.firstpaddr ≤ last
  last_eq : r.lastpaddr = last
  inside : ∀ g ∈ tr, first ≤ g.paddr ∧ g.paddr + g.req.npages * PAGE_SIZE ≤ r.firstpaddr
  apart : tr.Pairwise fun g g' => g'.paddr + g'.req.npages * PAGE_SIZE ≤ g.paddr
  asked : ∀ g ∈ tr, ∀ sz h, g.req = .kmalloc sz h → sz.toNat ≤ g.req.npages * PAGE_SIZE

section Run

variable {first last : Nat} {r r' : Ram} {tr es : List Grant} {req : Request}

theorem ramInv_step (h : RamInv first last r tr) (hfit : req.Fits r)
    (hs : (ram first last).step r req = .ok (r', es)) : RamInv first last r' (es ++ tr) := by
  rcases ram_step hfit hs with ⟨rfl, rfl⟩ | ⟨rfl, hle, hes⟩
  · exact h
  have hin : ∀ g ∈ tr, first ≤ g.paddr ∧
      g.paddr + g.req.npages * PAGE_SIZE ≤ r.firstpaddr + req.npages * PAGE_SIZE := fun g hg =>
    ⟨(h.inside g hg).1, Nat.le_trans (h.inside g hg).2 (Nat.le_add_right _ _)⟩
  have hfirst : first ≤ r.firstpaddr + req.npages * PAGE_SIZE := Nat.le_trans h.first_le (Nat.le_add_right _ _)
  have hlast : r.firstpaddr + req.npages * PAGE_SIZE ≤ last := h.last_eq ▸ hle
  rcases hes with rfl | rfl
  · refine ⟨hfirst, hlast, h.last_eq, ?_, ?_, ?_⟩
    · intro g hg
      rcases List.mem_cons.mp hg with rfl | hg
      · exact ⟨h.first_le, Nat.le_refl _⟩
      · exact hin g hg
    · exact List.pairwise_cons.mpr ⟨fun g hg => (h.inside g hg).2, h.apart⟩
    · intro g hg sz hsz hreq
      rcases List.mem_cons.mp hg with rfl | hg
      · dsimp only at hreq ⊢
        subst hreq
        exact kmalloc_npages_le hfit.2
      · exact h.asked g hg sz hsz hreq
  · exact ⟨hfirst, hlast, h.last_eq, hin, h.apart, h.asked⟩

theorem reach_ramInv (hle : first ≤ last) (h : (ram first last).Reach (fun r req => req.Fits r) r tr) :
    RamInv first last r tr := by
  refine Machine.Reach.invariant (I := RamInv first last) ?_ ?_ h
  · rintro _ rfl
    exact ⟨Nat.le_refl _, hle, rfl, nofun, .nil, nofun⟩
  · intro _ _ _ _ _ _ hi hok hs
    exact ramInv_step hi hok hs

/-- In every run whose requests fit in 32 bits, what is granted lies inside the memory and is granted
once, `kmalloc` gets what it asked for, and the memory that is left only shrinks. -/
theorem pages_handed_out_once (hle : first ≤ last) (_hfirst : first % PAGE_SIZE = 0)
    (_hlast : last % PAGE_SIZE = 0) (_hmax : last ≤ 508 * 1024 * 1024)
    (h : (ram first last).Reach (fun r req => req.Fits r) r tr) :
    (∀ g ∈ tr, g.range ⊆ Set.Ico first last) ∧
    (∀ g ∈ tr, ∀ sz hsz, g.req = .kmalloc sz hsz → sz.toNat ≤ g.req.npages * PAGE_SIZE) ∧
    tr.Pairwise (fun g g' => Disjoint g.range g'.range) ∧
    ∀ req r' es, req.Fits r → (ram first last).step r req = .ok (r', es) → r.firstpaddr ≤ r'.firstpaddr := by
  have hi := reach_ramInv hle h
  refine ⟨fun g hg => ?_, hi.asked, hi.apart.imp fun hgg' => ?_, fun req r' es hfit hs => ?_⟩
  · obtain ⟨hlo, hhi⟩ := hi.inside g hg
    exact Set.Ico_subset_Ico hlo (Nat.le_trans hhi hi.le_last)
  · refine Set.disjoint_left.mpr fun x hx hx' => ?_
    exact absurd (Nat.lt_of_lt_of_le hx'.2 hgg') (Nat.not_lt.mpr hx.1)
  · rcases ram_step hfit hs with ⟨rfl, -⟩ | ⟨rfl, -⟩
    · exact Nat.le_refl _
    · exact Nat.le_add_right _ _

theorem pages_handed_out_once_three_requests : ∃ r tr,
    (ram 0x20000 0x80000).Reach (fun r req => req.Fits r) r tr ∧ tr.length = 2 ∧
    tr.Pairwise fun g g' => Disjoint g.range g'.range := by
  obtain ⟨r, tr, h, hc⟩ := Machine.exists_runOk (M := ram 0x20000 0x80000) (fun r req => req.Fits r)
    [.kmalloc 8200 (by decide), .region 0x400010 0x5000, .kpages 0x100]
    (fun x => x.2.length == 2) (s := ⟨0x20000, 0x80000⟩) rfl (by decide +kernel)
  have hd := pages_handed_out_once (by decide) (by decide) (by decide) (by decide) h
  exact ⟨r, tr, h, beq_iff_eq.mp hc, hd.2.2.1⟩

/-- A `kmalloc` of `0xfffff001` bytes gets none. A segment of `0xffff0000` bytes moves `firstpaddr` back by 64 K, and
the next pages reach into what the segment got. -/
theorem segment_size_wraps : ∃ r tr,
    (ram 0x20000 0x80000).Reach Machine.Any r tr ∧
    tr = [⟨.kpages 0x20, 0x10000⟩, ⟨.region 0x400000 0xffff0000, 0x20000⟩,
      ⟨.kmalloc 0xfffff001 (by decide), 0x20000⟩] ∧
    (¬ ∀ g ∈ tr, g.range ⊆ Set.Ico 0x20000 0x80000) ∧
    (¬ ∀ g ∈ tr, ∀ sz hsz, g.req = .kmalloc sz hsz → sz.toNat ≤ g.req.npages * PAGE_SIZE) ∧
    (¬ tr.Pairwise fun g g' => Disjoint g.range g'.range) ∧
    ram_stealmem (region_npages 0x400000 0xffff0000) ⟨0x20000, 0x80000⟩ = (0x20000, ⟨0x10000, 0x80000⟩) := by
  obtain ⟨r, tr, h, hc⟩ := Machine.exists_runOk (M := ram 0x20000 0x80000) Machine.Any
    [.kmalloc 0xfffff001 (by decide), .region 0x400000 0xffff0000, .kpages 0x20]
    (fun x => decide (x.2 = [⟨.kpages 0x20, 0x10000⟩, ⟨.region 0x400000 0xffff0000, 0x20000⟩,
      ⟨.kmalloc 0xfffff001 (by decide), 0x20000⟩])) (s := ⟨0x20000, 0x80000⟩) rfl (by decide +kernel)
  obtain rfl := of_decide_eq_true hc
  refine ⟨r, _, h, rfl, fun hall => ?_, fun hall => ?_, fun hall => ?_, by decide +kernel⟩
  · have hmem : 0x10000 ∈ Grant.range ⟨.kpages 0x20, 0x10000⟩ := ⟨Nat.le_refl _, by decide +kernel⟩
    exact absurd (hall _ List.mem_cons_self hmem).1 (by decide)
  · exact absurd (hall ⟨.kmalloc 0xfffff001 (by decide), 0x20000⟩ (by decide +kernel) 0xfffff001 (by decide) rfl)
      (by decide +kernel)
  · have hd := (List.pairwise_cons.mp hall).1 ⟨.region 0x400000 0xffff0000, 0x20000⟩ (by decide +kernel)
    have hmem : 0x20000 ∈ Grant.range ⟨.kpages 0x20, 0x10000⟩ := ⟨by decide, by decide +kernel⟩
    exact Set.disjoint_left.mp hd hmem ⟨Nat.le_refl _, by decide +kernel⟩

end Run

end Os161
